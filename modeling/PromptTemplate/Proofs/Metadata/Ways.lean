import PromptTemplate.Metadata
import PromptTemplate.Proofs.Template.Codes
import Mathlib.Data.List.Perm.Subperm

/-!
# The documents that a scan comes to

A way goes from a document along reference tags, and never comes to a path twice. A scan
follows all ways: it cites the path of every document at the end of one, and it reports a
circle exactly where a document at the end of one refers to a path that the way has come by.
That the scan turns back at such a path hides no document, since the way to that document
that turns there is not the only one.
-/

namespace PromptTemplate

/-- A text under its path. -/
structure Document where
  path : String
  content : String

namespace Metadata

/-- Whether a reference tag in the document under a path asks for a target. -/
def LeadsTo (path : String) (as : List Attribute) (target : String) : Prop :=
  ∃ wanted, wantedPath? as = some wanted ∧ Reference.resolve wanted path = target

end Metadata

open Metadata

/-- Whether a document can be read and has, anywhere in it, a reference tag that asks for a
target. -/
def Document.Refers (d : Document) (target : String) : Prop :=
  ∃ f, Fragment.ofText d.content = .ok f ∧
    ∃ as s, Node.reference as s ∈ f.walk ∧ LeadsTo d.path as target

namespace Documents

variable {documents : Documents} {lineage : List String} {d e : Document} {rest : List Document}

/-- A way from a document: the documents after it are those under their paths, each is
referred to by the one before it, and all paths are different. -/
structure Way (documents : Documents) (d : Document) (rest : List Document) : Prop where
  known : ∀ e ∈ rest, Dictionary.get? documents e.path = some e.content
  linked : (d :: rest).IsChain fun a b => a.Refers b.path
  distinct : ((d :: rest).map Document.path).Nodup

/-- One step of a way to a path that the way has not come by. -/
structure Next (documents : Documents) (lineage : List String) (d e : Document) : Prop where
  refers : d.Refers e.path
  fresh : e.path ∉ lineage
  known : Dictionary.get? documents e.path = some e.content

/-- The rest of a way that has come by the paths in a lineage. -/
def Onward (documents : Documents) : List String → Document → List Document → Prop
  | _, _, [] => True
  | lineage, d, e :: rest =>
    Next documents lineage d e ∧ Onward documents (lineage ++ [e.path]) e rest

/-- No way is longer than the list of documents. -/
theorem Way.length_le (h : Way documents d rest) :
    rest.length ≤ (Dictionary.keys documents).length := by
  have distinct : (rest.map Document.path).Nodup := (List.nodup_cons.mp h.distinct).2
  have known : rest.map Document.path ⊆ Dictionary.keys documents := by
    intro p hp
    obtain ⟨e, he, rfl⟩ := List.mem_map.mp hp
    exact mem_keys_of_get? (h.known e he)
  have shorter := (distinct.subperm known).length_le
  rwa [List.length_map] at shorter

theorem onward_iff :
    Onward documents lineage d rest ↔
      (∀ e ∈ rest, Dictionary.get? documents e.path = some e.content) ∧
      (d :: rest).IsChain (fun a b => a.Refers b.path) ∧
      (rest.map Document.path).Nodup ∧ ∀ e ∈ rest, e.path ∉ lineage := by
  induction rest generalizing lineage d with
  | nil => simp [Onward]
  | cons e rest ih =>
    rw [Onward, ih, List.isChain_cons_cons]
    constructor
    · rintro ⟨⟨refers, fresh, known⟩, hknown, hlinked, hdistinct, hfresh⟩
      have later : ∀ a ∈ rest, a.path ∉ lineage ∧ a.path ≠ e.path := by
        intro a ha
        simpa using hfresh a ha
      refine ⟨List.forall_mem_cons.mpr ⟨known, hknown⟩, ⟨refers, hlinked⟩, ?_,
        List.forall_mem_cons.mpr ⟨fresh, fun a ha => (later a ha).1⟩⟩
      rw [List.map_cons, List.nodup_cons]
      constructor
      · intro again
        obtain ⟨a, ha, same⟩ := List.mem_map.mp again
        exact (later a ha).2 same
      · exact hdistinct
    · rintro ⟨hknown, ⟨refers, hlinked⟩, hdistinct, hfresh⟩
      obtain ⟨known, hknown⟩ := List.forall_mem_cons.mp hknown
      obtain ⟨fresh, hfresh⟩ := List.forall_mem_cons.mp hfresh
      rw [List.map_cons, List.nodup_cons] at hdistinct
      refine ⟨⟨refers, fresh, known⟩, hknown, hlinked, hdistinct.2, ?_⟩
      intro a ha again
      rcases List.mem_append.mp again with old | new
      · exact hfresh a ha old
      · exact hdistinct.1 (List.mem_map.mpr ⟨a, ha, List.mem_singleton.mp new⟩)

theorem way_iff_onward : Way documents d rest ↔ Onward documents [d.path] d rest := by
  rw [onward_iff]
  constructor
  · intro h
    obtain ⟨first, distinct⟩ := List.nodup_cons.mp h.distinct
    refine ⟨h.known, h.linked, distinct, ?_⟩
    intro e he same
    exact first (List.mem_map.mpr ⟨e, he, List.mem_singleton.mp same⟩)
  · rintro ⟨known, linked, distinct, fresh⟩
    refine ⟨known, linked, List.nodup_cons.mpr ⟨?_, distinct⟩⟩
    intro again
    obtain ⟨e, he, same⟩ := List.mem_map.mp again
    exact fresh e he (List.mem_singleton.mpr same)

/-- A document at the end of a way that is still to go has a path. -/
def Cited (documents : Documents) (lineage : List String) (d : Document) (path : String) : Prop :=
  ∃ rest e, Onward documents lineage d (rest ++ [e]) ∧ e.path = path

/-- At the end of a way that is still to go, a document refers to a path that the way has come
by. -/
def Circles (documents : Documents) (lineage : List String) (d : Document) : Prop :=
  ∃ rest, Onward documents lineage d rest ∧ ∃ target ∈ lineage ++ rest.map Document.path,
    ((d :: rest).getLast (List.cons_ne_nil d rest)).Refers target

/-! ## First steps -/

/-- The same, where the first step may only go to some paths. -/
def CitedFrom (documents : Documents) (lineage : List String) (first : String → Prop)
    (path : String) : Prop :=
  ∃ e : Document, first e.path ∧ e.path ∉ lineage ∧
    Dictionary.get? documents e.path = some e.content ∧
    (e.path = path ∨ Cited documents (lineage ++ [e.path]) e path)

/-- The same, where the first step may only go to some paths. -/
def CirclesFrom (documents : Documents) (lineage : List String) (first : String → Prop) : Prop :=
  (∃ target ∈ lineage, first target) ∨
    ∃ e : Document, first e.path ∧ e.path ∉ lineage ∧
      Dictionary.get? documents e.path = some e.content ∧
      Circles documents (lineage ++ [e.path]) e

theorem cited_iff {path : String} :
    Cited documents lineage d path ↔ CitedFrom documents lineage d.Refers path := by
  constructor
  · rintro ⟨rest, e, onward, hpath⟩
    cases rest with
    | nil =>
      obtain ⟨⟨refers, fresh, known⟩, -⟩ := onward
      exact ⟨e, refers, fresh, known, .inl hpath⟩
    | cons a rest =>
      obtain ⟨⟨refers, fresh, known⟩, onward⟩ := onward
      exact ⟨a, refers, fresh, known, .inr ⟨rest, e, onward, hpath⟩⟩
  · rintro ⟨e, refers, fresh, known, here | ⟨rest, a, onward, hpath⟩⟩
    · exact ⟨[], e, ⟨⟨refers, fresh, known⟩, trivial⟩, here⟩
    · exact ⟨e :: rest, a, ⟨⟨refers, fresh, known⟩, onward⟩, hpath⟩

theorem circles_iff :
    Circles documents lineage d ↔ CirclesFrom documents lineage d.Refers := by
  constructor
  · rintro ⟨rest, onward, target, come, refers⟩
    cases rest with
    | nil =>
      rw [List.map_nil, List.append_nil] at come
      exact .inl ⟨target, come, refers⟩
    | cons e rest =>
      obtain ⟨⟨first, fresh, known⟩, onward⟩ := onward
      refine .inr ⟨e, first, fresh, known, rest, onward, target, ?_, refers⟩
      simpa using come
  · rintro (⟨target, come, refers⟩ | ⟨e, first, fresh, known, rest, onward, target, come, refers⟩)
    · exact ⟨[], trivial, target, by simpa using come, refers⟩
    · refine ⟨e :: rest, ⟨⟨first, fresh, known⟩, onward⟩, target, ?_, refers⟩
      simpa using come

theorem citedFrom_or {r r' : String → Prop} {path : String} :
    CitedFrom documents lineage (fun t => r t ∨ r' t) path ↔
      CitedFrom documents lineage r path ∨ CitedFrom documents lineage r' path := by
  simp only [CitedFrom, or_and_right, exists_or]

theorem circlesFrom_or {r r' : String → Prop} :
    CirclesFrom documents lineage (fun t => r t ∨ r' t) ↔
      CirclesFrom documents lineage r ∨ CirclesFrom documents lineage r' := by
  simp only [CirclesFrom, or_and_right, and_or_left, exists_or]
  exact or_or_or_comm

end Documents

/-! ## Scans -/

/-- Whether a circle has been found. -/
def Findings.Circular (f : Findings) : Prop := ∃ e ∈ f.errors, e.code = .circularReference

theorem Findings.circular_report {f : Findings} {e : Error} :
    (f.report e).Circular ↔ f.Circular ∨ e.code = .circularReference := by
  simp [Circular, report, or_and_right, exists_or]

theorem Findings.circular_cite {f : Findings} {path : String} :
    (f.cite path).Circular ↔ f.Circular := by
  rw [cite]
  split <;> rfl

theorem Findings.mem_references_cite {f : Findings} {path p : String} :
    p ∈ (f.cite path).references ↔ p ∈ f.references ∨ path = p := by
  rw [cite]
  split
  · rename_i known
    have cited : path ∈ f.references := List.contains_iff_mem.mp known
    constructor
    · exact .inl
    · rintro (h | rfl)
      · exact h
      · exact cited
  · simp [eq_comm]

namespace Metadata

open Documents

variable {documents : Documents} {lineage : List String} {first first' : String → Prop}
  {found found' found'' : Findings}

/-- What a scan finds whose first step may only go to some paths, beside what has been found
before it. -/
structure Finds (documents : Documents) (lineage : List String) (first : String → Prop)
    (found found' : Findings) : Prop where
  references : ∀ p, p ∈ found'.references ↔
    p ∈ found.references ∨ CitedFrom documents lineage first p
  circular : found'.Circular ↔ found.Circular ∨ CirclesFrom documents lineage first

theorem Finds.congr (h : Finds documents lineage first found found')
    (same : ∀ t, first' t ↔ first t) : Finds documents lineage first' found found' := by
  obtain rfl : first' = first := funext fun t => propext (same t)
  exact h

/-- Where there is no first step, nothing is found. -/
theorem Finds.nothing (none : ∀ t, ¬ first t) : Finds documents lineage first found found where
  references p := by
    have uncited : ¬ CitedFrom documents lineage first p := fun ⟨e, h, _⟩ => none _ h
    simp [uncited]
  circular := by
    have straight : ¬ CirclesFrom documents lineage first := by
      rintro (⟨t, _, h⟩ | ⟨e, h, _⟩)
      · exact none _ h
      · exact none _ h
    simp [straight]

theorem Finds.trans (h : Finds documents lineage first found found')
    (h' : Finds documents lineage first' found' found'') :
    Finds documents lineage (fun t => first t ∨ first' t) found found'' where
  references p := by
    rw [h'.references, h.references, citedFrom_or, or_assoc]
  circular := by
    rw [h'.circular, h.circular, circlesFrom_or, or_assoc]

/-- An error of another kind is no circle. -/
theorem Finds.report (h : Finds documents lineage first found found') {e : Error}
    (other : e.code ≠ .circularReference) :
    Finds documents lineage first found (found'.report e) where
  references := h.references
  circular := by
    rw [Findings.circular_report, ← h.circular]
    exact or_iff_left other

section

variable {target text : String}

/-- The first step would go back to a path that the way has come by. -/
theorem finds_circle (come : target ∈ lineage) {e : Error} (he : e.code = .circularReference) :
    Finds documents lineage (· = target) found (found.report e) where
  references p := by
    have uncited : ¬ CitedFrom documents lineage (· = target) p := by
      rintro ⟨a, rfl, fresh, _⟩
      exact fresh come
    simp [uncited, Findings.report]
  circular := by
    have circles : CirclesFrom documents lineage (· = target) := .inl ⟨target, come, rfl⟩
    simp [circles, Findings.circular_report, he]

/-- There is no document for the first step to go to. -/
theorem finds_unknown (fresh : target ∉ lineage)
    (unknown : Dictionary.get? documents target = none) :
    Finds documents lineage (· = target) found found where
  references p := by
    have uncited : ¬ CitedFrom documents lineage (· = target) p := by
      rintro ⟨e, rfl, _, known, _⟩
      rw [unknown] at known
      cases known
    simp [uncited]
  circular := by
    have straight : ¬ CirclesFrom documents lineage (· = target) := by
      rintro (⟨_, come, rfl⟩ | ⟨e, rfl, _, known, _⟩)
      · exact fresh come
      · rw [unknown] at known
        cases known
    simp [straight]

/-- The first step goes to a document, which is scanned and cited. -/
theorem finds_child (fresh : target ∉ lineage)
    (known : Dictionary.get? documents target = some text)
    (h : Finds documents (lineage ++ [target]) (Document.Refers ⟨target, text⟩) found found') :
    Finds documents lineage (· = target) found (found'.cite target) where
  references p := by
    have cited : CitedFrom documents lineage (· = target) p ↔
        target = p ∨ Cited documents (lineage ++ [target]) ⟨target, text⟩ p := by
      constructor
      · rintro ⟨⟨_, content⟩, rfl, _, hcontent, h⟩
        obtain rfl : text = content := Option.some.inj (known.symm.trans hcontent)
        exact h
      · intro h
        exact ⟨⟨target, text⟩, rfl, fresh, known, h⟩
    rw [Findings.mem_references_cite, h.references, cited, cited_iff]
    tauto
  circular := by
    have circles : CirclesFrom documents lineage (· = target) ↔
        Circles documents (lineage ++ [target]) ⟨target, text⟩ := by
      constructor
      · rintro (⟨_, come, rfl⟩ | ⟨⟨_, content⟩, rfl, _, hcontent, h⟩)
        · exact absurd come fresh
        · obtain rfl : text = content := Option.some.inj (known.symm.trans hcontent)
          exact h
      · intro h
        exact .inr ⟨⟨target, text⟩, rfl, fresh, known, h⟩
    rw [Findings.circular_cite, h.circular, circles, circles_iff]

end

/-- A text that cannot be read is not refused because of a circle. -/
theorem ne_circular_of_ofText {source : String} {e : Error}
    (h : Fragment.ofText source = .error e) : e.code ≠ .circularReference := by
  have kinds : e.code ∈ Code.ofReading := Fragment.fails_ofText source e h
  intro circular
  rw [circular] at kinds
  revert kinds
  decide

theorem refers_iff {d : Document} {f : Fragment} (h : Fragment.ofText d.content = .ok f)
    (target : String) :
    d.Refers target ↔ ∃ tag ∈ f.references, LeadsTo d.path tag.1 target := by
  have tag : ∀ as s, (as, s) ∈ f.references ↔ Node.reference as s ∈ f.walk := by
    intro as s
    rw [Fragment.references, List.mem_filterMap]
    constructor
    · rintro ⟨a, ha, found⟩
      split at found
      · cases found
        exact ha
      · cases found
    · intro ha
      exact ⟨_, ha, rfl⟩
  constructor
  · rintro ⟨g, hg, as, s, ha, leads⟩
    obtain rfl : f = g := Except.ok.inj (h.symm.trans hg)
    exact ⟨(as, s), (tag as s).mpr ha, leads⟩
  · rintro ⟨⟨as, s⟩, ha, leads⟩
    exact ⟨f, h, as, s, (tag as s).mp ha, leads⟩

mutual

/-- A scan of a document finds what is on the ways from it. -/
theorem finds_scan (documents : Documents) (lineage : List String) (path content : String)
    (found : Findings) :
    Finds documents lineage (Document.Refers ⟨path, content⟩) found
      (scan documents lineage path content found).2 := by
  rw [scan]
  split
  · rename_i e he
    refine .report (.nothing ?_) (ne_circular_of_ofText he)
    rintro t ⟨f, hf, _⟩
    cases he.symm.trans hf
  · rename_i f hf
    exact (finds_scanReferences documents lineage path content.toList f.references found).congr
      (refers_iff hf)
termination_by ((remaining documents lineage).length, 1, 0)

theorem finds_scanReferences (documents : Documents) (lineage : List String) (path : String)
    (content : List Char) (tags : List (List Attribute × Span)) (found : Findings) :
    Finds documents lineage (fun t => ∃ tag ∈ tags, LeadsTo path tag.1 t) found
      (scanReferences documents lineage path content tags found).2 := by
  match tags with
  | [] =>
    rw [scanReferences]
    exact .nothing (by simp)
  | (as, s) :: rest =>
    have other {c : Cause} (h : c.code ≠ .circularReference) :
        ((c.on s).locate content).code ≠ .circularReference := h
    -- what the first tag leads to is found before what the others lead to
    have all (found' : Findings)
        (h : Finds documents lineage (LeadsTo path as) found found') :
        Finds documents lineage (fun t => ∃ tag ∈ (as, s) :: rest, LeadsTo path tag.1 t) found
          (scanReferences documents lineage path content rest found').2 := by
      apply (h.trans (finds_scanReferences documents lineage path content rest found')).congr
      intro t
      simp
    rw [scanReferences]
    dsimp only
    split
    · rename_i unnamed
      refine all _ (.report (.nothing ?_) (other (by decide)))
      rintro t ⟨wanted, named, _⟩
      cases unnamed.symm.trans named
    · rename_i wanted named
      have leads : ∀ t, LeadsTo path as t ↔ t = Reference.resolve wanted path := by
        intro t
        simp [LeadsTo, named, eq_comm]
      split
      · rename_i come
        exact all _ ((finds_circle (List.contains_iff_mem.mp come) rfl).congr leads)
      · rename_i away
        have fresh : Reference.resolve wanted path ∉ lineage := by
          simpa using away
        split
        · rename_i unknown
          exact all _ (((finds_unknown fresh unknown).report (other (by simp [Cause.code]))).congr
            leads)
        · rename_i text known
          have fewer := length_remaining_lt away known
          have child := finds_scan documents (lineage ++ [Reference.resolve wanted path])
            (Reference.resolve wanted path) text found
          exact all _ ((finds_child fresh known child).congr leads)
termination_by ((remaining documents lineage).length, 0, tags.length)
decreasing_by
  all_goals first
    | (apply Prod.Lex.right; apply Prod.Lex.right; simp)
    | (apply Prod.Lex.left; exact fewer)

end

/-- The metadata of a text cite the path of every document at the end of a way from it, and no
others; they report a circle exactly where the last document of a way refers to a path that
the way has come by; and there are no endless ways. -/
theorem ways_of_read (prompt path : String) (documents : Documents)
    (allowed : Option (List String)) (schema : Option Schema) :
    (∀ p, p ∈ (read prompt path documents allowed schema).references ↔
      ∃ rest e, Way documents ⟨path, prompt⟩ (rest ++ [e]) ∧ e.path = p) ∧
    ((∃ e ∈ (read prompt path documents allowed schema).errors, e.code = .circularReference) ↔
      ∃ rest, Way documents ⟨path, prompt⟩ rest ∧
        ∃ target ∈ (⟨path, prompt⟩ :: rest).map Document.path,
          ((⟨path, prompt⟩ :: rest).getLast (List.cons_ne_nil _ rest)).Refers target) ∧
    ∀ rest, Way documents ⟨path, prompt⟩ rest →
      rest.length ≤ (Dictionary.keys documents).length := by
  have finds := finds_scan documents [path] path prompt ⟨[], []⟩
  refine ⟨fun p => ?_, ?_, fun rest h => h.length_le⟩
  · have cited := finds.references p
    rw [← cited_iff] at cited
    simp only [way_iff_onward]
    exact cited.trans (or_iff_right List.not_mem_nil)
  · have circular := finds.circular
    rw [← circles_iff] at circular
    have before : ¬ Findings.Circular ⟨[], []⟩ := fun ⟨_, h, _⟩ => List.not_mem_nil h
    -- a schema is violated by the config block, not by a circle
    have violated : ∀ (found : Findings) (vs : List String) (s : Span),
        (∃ e ∈ found.errors ++ vs.map fun v => ((Cause.invalidConfig v).on s).locate prompt.toList,
          e.code = .circularReference) ↔ found.Circular := by
      intro found vs s
      constructor
      · rintro ⟨e, he, circular⟩
        rcases List.mem_append.mp he with he | he
        · exact ⟨e, he, circular⟩
        · obtain ⟨v, -, rfl⟩ := List.mem_map.mp he
          cases circular
      · rintro ⟨e, he, circular⟩
        exact ⟨e, List.mem_append_left _ he, circular⟩
    simp only [way_iff_onward]
    exact (violated _ _ _).trans (circular.trans (or_iff_right before))

instance (path : String) (as : List Attribute) (target : String) :
    Decidable (LeadsTo path as target) :=
  decidable_of_iff ((wantedPath? as).any (Reference.resolve · path == target) = true)
    (by rw [LeadsTo]; cases wantedPath? as <;> simp)

instance (d : Document) (target : String) : Decidable (d.Refers target) :=
  match h : Fragment.ofText d.content with
  | .error _ => isFalse fun ⟨_, hf, _⟩ => by cases h.symm.trans hf
  | .ok _ => decidable_of_iff _ (refers_iff h target).symm

/-- A document that refers back to the text. -/
theorem ways_of_read_circle :
    ∃ (documents : Documents) (prompt : String),
      documents = [("b", "<ref prompt=\"a\"/>")] ∧ prompt = "<ref prompt=\"b\"/>" ∧
      "b" ∈ (read prompt "a" documents none none).references ∧
      ∃ e ∈ (read prompt "a" documents none none).errors, e.code = .circularReference := by
  have there : Document.Refers ⟨"a", "<ref prompt=\"b\"/>"⟩ "b" := by decide +kernel
  have back : Document.Refers ⟨"b", "<ref prompt=\"a\"/>"⟩ "a" := by decide +kernel
  have way : Way [("b", "<ref prompt=\"a\"/>")] ⟨"a", "<ref prompt=\"b\"/>"⟩
      [⟨"b", "<ref prompt=\"a\"/>"⟩] :=
    { known := List.forall_mem_singleton.mpr rfl
      linked := .cons_cons there (.singleton _)
      distinct := by decide }
  obtain ⟨cited, circular, -⟩ :=
    ways_of_read "<ref prompt=\"b\"/>" "a" [("b", "<ref prompt=\"a\"/>")] none none
  refine ⟨_, _, rfl, rfl, (cited "b").mpr ⟨[], _, way, rfl⟩, ?_⟩
  exact circular.mpr ⟨_, way, "a", by simp, back⟩

end Metadata

end PromptTemplate
