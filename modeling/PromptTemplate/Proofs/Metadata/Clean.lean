import PromptTemplate.Proofs.Metadata.Ways

/-!
# Scans without errors

What a scan returns does not depend on what has been found before it, and what has been found
stays found. So a scan without errors is made of the scans of the documents behind all its
reference tags, which have no errors either.
-/

namespace PromptTemplate

theorem Findings.errors_cite (f : Findings) (path : String) : (f.cite path).errors = f.errors := by
  rw [cite]
  split <;> rfl

namespace Metadata

open Reference Documents

/-! ## Steps of a scan -/

variable {documents : Documents} {lineage : List String} {path : String}

/-- The document behind a reference tag, if the scan goes there. -/
def behind? (documents : Documents) (lineage : List String) (path : String)
    (as : List Attribute) : Option Document := do
  let wanted ← wantedPath? as
  let target := Reference.resolve wanted path
  if lineage.contains target then none
  else (Dictionary.get? documents target).map (⟨target, ·⟩)

theorem behind?_eq_some {as : List Attribute} {d : Document} :
    behind? documents lineage path as = some d ↔
      LeadsTo path as d.path ∧ d.path ∉ lineage ∧
        Dictionary.get? documents d.path = some d.content := by
  obtain ⟨target, content⟩ := d
  rw [behind?, LeadsTo]
  cases wantedPath? as with
  | none => simp
  | some wanted =>
    simp only [Option.bind_eq_bind, Option.bind_some, List.contains_eq_mem, decide_eq_true_eq]
    split
    · rename_i come
      simp only [reduceCtorEq, false_iff, Option.some.injEq, exists_eq_left', not_and]
      rintro rfl fresh
      exact absurd come fresh
    · rename_i fresh
      simp only [Option.map_eq_some_iff, Document.mk.injEq, Option.some.injEq, exists_eq_left']
      constructor
      · rintro ⟨_, known, rfl, rfl⟩
        exact ⟨rfl, fresh, known⟩
      · rintro ⟨rfl, -, known⟩
        exact ⟨content, known, rfl, rfl⟩

theorem length_remaining_behind {as : List Attribute} {d : Document}
    (h : behind? documents lineage path as = some d) :
    (remaining documents (lineage ++ [d.path])).length < (remaining documents lineage).length := by
  obtain ⟨-, fresh, known⟩ := behind?_eq_some.mp h
  exact length_remaining_lt (by simpa using fresh) known

variable {content : String} {found : Findings}

theorem scan_ok {f : Fragment} (h : Fragment.ofText content = .ok f) :
    scan documents lineage path content found =
      let r := scanReferences documents lineage path content.toList f.references found
      (⟨splice content.toList r.1.1, f.parameters r.1.2, f.config?⟩, r.2) := by
  rw [scan]
  split
  · rename_i e he
    cases h.symm.trans he
  · rename_i g hg
    cases h.symm.trans hg
    rfl

theorem scan_error {e : Error} (h : Fragment.ofText content = .error e) :
    scan documents lineage path content found = (⟨content.toList, [], none⟩, found.report e) := by
  rw [scan]
  split
  · rename_i e' he
    cases h.symm.trans he
    rfl
  · rename_i g hg
    cases h.symm.trans hg

section

variable {cs : List Char} {as : List Attribute} {s : Span} {rest : List (List Attribute × Span)}

/-- A reference tag that the scan does not follow is an error. -/
theorem scanReferences_skip (cs : List Char) (s : Span) (rest : List (List Attribute × Span))
    (h : behind? documents lineage path as = none) :
    ∃ e, ∀ found, scanReferences documents lineage path cs ((as, s) :: rest) found =
      scanReferences documents lineage path cs rest (found.report e) := by
  have none_behind (d : Document) (leads : LeadsTo path as d.path) (fresh : d.path ∉ lineage)
      (known : Dictionary.get? documents d.path = some d.content) : False := by
    rw [behind?_eq_some.mpr ⟨leads, fresh, known⟩] at h
    cases h
  cases named : wantedPath? as with
  | none =>
    refine ⟨(Cause.dynamicReference.on s).locate cs, fun found => ?_⟩
    rw [scanReferences]
    split
    · rfl
    · rename_i wanted named'
      cases named.symm.trans named'
  | some wanted =>
    by_cases come : Reference.resolve wanted path ∈ lineage
    · refine ⟨((Cause.circularReference (Reference.resolve wanted path)).on s).locate cs,
        fun found => ?_⟩
      rw [scanReferences]
      split
      · rename_i named'
        cases named.symm.trans named'
      · rename_i wanted' named'
        cases named.symm.trans named'
        dsimp only
        split
        · rfl
        · rename_i away
          simp [come] at away
    · refine ⟨((Cause.referenceNotFound (Reference.resolve wanted path)).on s).locate cs,
        fun found => ?_⟩
      rw [scanReferences]
      split
      · rename_i named'
        cases named.symm.trans named'
      · rename_i wanted' named'
        cases named.symm.trans named'
        dsimp only
        split
        · rename_i here
          simp [come] at here
        · split
          · rfl
          · rename_i text known
            exact (none_behind ⟨_, text⟩ ⟨wanted, named, rfl⟩ come known).elim

theorem scanReferences_follow {d : Document}
    (h : behind? documents lineage path as = some d) :
    scanReferences documents lineage path cs ((as, s) :: rest) found =
      let child := scan documents (lineage ++ [d.path]) d.path d.content found
      let r := scanReferences documents lineage path cs rest (child.2.cite d.path)
      ((⟨s.start, s.stop, child.1.body⟩ :: r.1.1, (s.start, child.1.parameters) :: r.1.2), r.2) := by
  obtain ⟨target, text⟩ := d
  obtain ⟨⟨wanted, named, htarget⟩, fresh, known⟩ := behind?_eq_some.mp h
  dsimp only at htarget fresh known
  subst htarget
  rw [scanReferences]
  split
  · rename_i named'
    cases named.symm.trans named'
  · rename_i wanted' named'
    cases named.symm.trans named'
    dsimp only
    split
    · rename_i here
      simp [fresh] at here
    · split
      · rename_i unknown
        cases known.symm.trans unknown
      · rename_i text' known'
        cases known.symm.trans known'
        rfl

end

/-! ## Documents on the ways -/

/-- Whether a property holds for the document at the end of each way and the paths that the way
has come by. -/
def Everywhere (documents : Documents) (p : List String → Document → Prop) (d : Document) : Prop :=
  ∀ rest, Way documents d rest →
    p ((d :: rest).map Document.path) ((d :: rest).getLast (List.cons_ne_nil d rest))

/-- The same for the ways that are still to go. -/
def EverywhereFrom (documents : Documents) (lineage : List String)
    (p : List String → Document → Prop) (d : Document) : Prop :=
  ∀ rest, Onward documents lineage d rest →
    p (lineage ++ rest.map Document.path) ((d :: rest).getLast (List.cons_ne_nil d rest))

section

variable {p : List String → Document → Prop} {d e : Document}

theorem everywhere_iff : Everywhere documents p d ↔ EverywhereFrom documents [d.path] p d := by
  simp only [Everywhere, EverywhereFrom, way_iff_onward]
  rfl

theorem everywhereFrom_iff :
    EverywhereFrom documents lineage p d ↔
      p lineage d ∧
        ∀ e, Next documents lineage d e → EverywhereFrom documents (lineage ++ [e.path]) p e := by
  constructor
  · intro h
    refine ⟨by simpa using h [] trivial, fun e next rest onward => ?_⟩
    simpa using h (e :: rest) ⟨next, onward⟩
  · rintro ⟨here, there⟩ rest onward
    cases rest with
    | nil => simpa using here
    | cons e rest =>
      obtain ⟨next, onward⟩ := onward
      simpa using there e next rest onward

/-- Where there is one document, a step goes to it. -/
theorem next_singleton {key text : String} (h : Next [(key, text)] lineage d e) :
    e = ⟨key, text⟩ ∧ key ∉ lineage := by
  obtain ⟨path, content⟩ := e
  have known := h.known
  by_cases same : key = path
  · subst same
    rw [Dictionary.get?, if_pos rfl] at known
    cases known
    exact ⟨rfl, h.fresh⟩
  · rw [Dictionary.get?, if_neg same] at known
    cases known

theorem everywhere_singleton {key text : String} (root : p [d.path] d)
    (leaf : p [d.path, key] ⟨key, text⟩) : Everywhere [(key, text)] p d := by
  refine everywhere_iff.mpr (everywhereFrom_iff.mpr ⟨root, fun e next => ?_⟩)
  obtain ⟨rfl, -⟩ := next_singleton next
  refine everywhereFrom_iff.mpr ⟨leaf, fun e next => ?_⟩
  exact absurd (List.mem_append_right _ List.mem_cons_self) (next_singleton next).2

end

/-! ## What has been found before -/

/-- Two scans that return the same and find the same errors after what has been found. -/
structure Alike {α : Type} (found found' : Findings) (r r' : α × Findings) : Prop where
  same : r.1 = r'.1
  errors : ∃ errors, r.2.errors = found.errors ++ errors ∧ r'.2.errors = found'.errors ++ errors

mutual

theorem alike_scan (documents : Documents) (lineage : List String) (path content : String)
    (found found' : Findings) :
    Alike found found' (scan documents lineage path content found)
      (scan documents lineage path content found') := by
  cases h : Fragment.ofText content with
  | error e =>
    rw [scan_error h, scan_error h]
    exact ⟨rfl, [e], rfl, rfl⟩
  | ok f =>
    obtain ⟨same, errors⟩ :=
      alike_scanReferences documents lineage path content.toList f.references found found'
    rw [scan_ok h, scan_ok h]
    exact ⟨by simp only [same], errors⟩
termination_by ((remaining documents lineage).length, 1, 0)

theorem alike_scanReferences (documents : Documents) (lineage : List String) (path : String)
    (cs : List Char) (tags : List (List Attribute × Span)) (found found' : Findings) :
    Alike found found' (scanReferences documents lineage path cs tags found)
      (scanReferences documents lineage path cs tags found') := by
  match tags with
  | [] =>
    rw [scanReferences, scanReferences]
    exact ⟨rfl, [], by simp, by simp⟩
  | (as, s) :: rest =>
    cases h : behind? documents lineage path as with
    | none =>
      obtain ⟨e, skip⟩ := scanReferences_skip cs s rest h
      rw [skip, skip]
      obtain ⟨same, errors, h, h'⟩ := alike_scanReferences documents lineage path cs rest
        (found.report e) (found'.report e)
      exact ⟨same, e :: errors, by rw [h]; simp [Findings.report],
        by rw [h']; simp [Findings.report]⟩
    | some d =>
      have fewer := length_remaining_behind h
      obtain ⟨same, errors, h₁, h₁'⟩ :=
        alike_scan documents (lineage ++ [d.path]) d.path d.content found found'
      obtain ⟨same', errors', h₂, h₂'⟩ := alike_scanReferences documents lineage path cs rest
        ((scan documents (lineage ++ [d.path]) d.path d.content found).2.cite d.path)
        ((scan documents (lineage ++ [d.path]) d.path d.content found').2.cite d.path)
      rw [Findings.errors_cite] at h₂ h₂'
      rw [scanReferences_follow h, scanReferences_follow h]
      refine ⟨by simp only [same, same'], errors ++ errors', ?_, ?_⟩
      · rw [← List.append_assoc, ← h₁, ← h₂]
      · rw [← List.append_assoc, ← h₁', ← h₂']
termination_by ((remaining documents lineage).length, 0, tags.length)
decreasing_by
  all_goals first
    | (apply Prod.Lex.right; apply Prod.Lex.right; simp)
    | (apply Prod.Lex.left; exact fewer)

end

/-! ## Scans without errors -/

/-- What the scan of a document returns, by the paths on the way to it. -/
def scanned (documents : Documents) (lineage : List String) (d : Document) : Scanned :=
  (scan documents lineage d.path d.content ⟨[], []⟩).1

/-- Whether the scan of a document finds no errors. -/
def Clean (documents : Documents) (lineage : List String) (d : Document) : Prop :=
  (scan documents lineage d.path d.content ⟨[], []⟩).2.errors = []

/-- What a scan puts in the places of the reference tags of a document. -/
def splices (documents : Documents) (lineage : List String) (d : Document) : List Splice :=
  match Fragment.ofText d.content with
  | .error _ => []
  | .ok f =>
    (scanReferences documents lineage d.path d.content.toList f.references ⟨[], []⟩).1.1

/-- What the scan of the document behind a reference tag returns. -/
def included (documents : Documents) (lineage : List String) (path : String)
    (as : List Attribute) : Scanned :=
  ((behind? documents lineage path as).map fun e =>
    scanned documents (lineage ++ [e.path]) e).getD ⟨[], [], none⟩

theorem included_eq {as : List Attribute} {e : Document}
    (h : behind? documents lineage path as = some e) :
    included documents lineage path as = scanned documents (lineage ++ [e.path]) e := by
  rw [included, h, Option.map_some, Option.getD_some]

/-- Without errors, the scan follows all reference tags, and finds none behind them. -/
theorem scanReferences_clean {cs : List Char} {tags : List (List Attribute × Span)}
    (h : (scanReferences documents lineage path cs tags found).2.errors = []) :
    (scanReferences documents lineage path cs tags found).1 =
        (tags.map fun tag => ⟨tag.2.start, tag.2.stop,
          (included documents lineage path tag.1).body⟩,
        tags.map fun tag => (tag.2.start, (included documents lineage path tag.1).parameters)) ∧
      ∀ tag ∈ tags, ∃ e, behind? documents lineage path tag.1 = some e ∧
        Clean documents (lineage ++ [e.path]) e := by
  induction tags generalizing found with
  | nil =>
    rw [scanReferences]
    exact ⟨rfl, fun _ h => by cases h⟩
  | cons tag rest ih =>
    obtain ⟨as, s⟩ := tag
    cases hbehind : behind? documents lineage path as with
    | none =>
      -- the error of a tag that is not followed stays found
      obtain ⟨e, skip⟩ := scanReferences_skip cs s rest hbehind
      obtain ⟨-, errors, hfound, -⟩ := alike_scanReferences documents lineage path cs rest
        (found.report e) (found.report e)
      rw [skip, hfound] at h
      simp [Findings.report] at h
    | some e =>
      rw [scanReferences_follow hbehind] at h ⊢
      obtain ⟨hrest, all⟩ := ih h
      obtain ⟨-, errors, hfound, -⟩ := alike_scanReferences documents lineage path cs rest
        ((scan documents (lineage ++ [e.path]) e.path e.content found).2.cite e.path)
        ((scan documents (lineage ++ [e.path]) e.path e.content found).2.cite e.path)
      obtain ⟨same, errors', hchild, hclean⟩ := alike_scan documents (lineage ++ [e.path]) e.path
        e.content found ⟨[], []⟩
      have clean : Clean documents (lineage ++ [e.path]) e := by
        dsimp only at h
        rw [hfound, Findings.errors_cite, hchild] at h
        rw [Clean, hclean]
        exact (List.append_eq_nil_iff.mp (List.append_eq_nil_iff.mp h).1).2
      refine ⟨?_, List.forall_mem_cons.mpr ⟨⟨e, hbehind, clean⟩, all⟩⟩
      simp only [hrest, same, List.map_cons, included_eq hbehind]
      rfl

theorem exists_of_clean {d : Document} (h : Clean documents lineage d) :
    ∃ f, Fragment.ofText d.content = .ok f ∧
      (∀ tag ∈ f.references, ∃ e, behind? documents lineage d.path tag.1 = some e ∧
        Clean documents (lineage ++ [e.path]) e) ∧
      splices documents lineage d = (f.references.map fun tag => ⟨tag.2.start, tag.2.stop,
        (included documents lineage d.path tag.1).body⟩) ∧
      scanned documents lineage d =
        ⟨splice d.content.toList (splices documents lineage d),
          f.parameters (f.references.map fun tag =>
            (tag.2.start, (included documents lineage d.path tag.1).parameters)),
          f.config?⟩ := by
  rw [Clean] at h
  cases hf : Fragment.ofText d.content with
  | error e =>
    rw [scan_error hf] at h
    cases h
  | ok f =>
    rw [scan_ok hf] at h
    obtain ⟨same, all⟩ := scanReferences_clean h
    have pieces : splices documents lineage d = (f.references.map fun tag =>
        ⟨tag.2.start, tag.2.stop, (included documents lineage d.path tag.1).body⟩) := by
      rw [splices, hf]
      dsimp only
      rw [same]
    refine ⟨f, rfl, all, pieces, ?_⟩
    rw [pieces, scanned, scan_ok hf]
    dsimp only
    rw [same]

/-! ## Scans without errors, computed -/

/-- What is put in the places of the reference tags of a document, and what its scan returns,
if there is something for all of them. -/
def gather (d : Document) (f : Fragment) (child : List Attribute → Option Scanned) :
    Option (List Splice × Scanned) :=
  if f.references.all fun tag => (child tag.1).isSome then
    let here (as : List Attribute) := (child as).getD ⟨[], [], none⟩
    let pieces := f.references.map fun tag => ⟨tag.2.start, tag.2.stop, (here tag.1).body⟩
    some (pieces, ⟨splice d.content.toList pieces,
      f.parameters (f.references.map fun tag => (tag.2.start, (here tag.1).parameters)),
      f.config?⟩)
  else none

/-- The same for a document and all those that it leads to. -/
def cleanly? (documents : Documents) (lineage : List String) (d : Document) :
    Option (List Splice × Scanned) :=
  match Fragment.ofText d.content with
  | .error _ => none
  | .ok f => gather d f fun as =>
    match _h : behind? documents lineage d.path as with
    | none => none
    | some e => (cleanly? documents (lineage ++ [e.path]) e).map (·.2)
termination_by (remaining documents lineage).length
decreasing_by exact length_remaining_behind _h

def cleanlyBehind? (documents : Documents) (lineage : List String) (path : String)
    (as : List Attribute) : Option Scanned :=
  (behind? documents lineage path as).bind fun e =>
    (cleanly? documents (lineage ++ [e.path]) e).map (·.2)

theorem cleanly?_ok {d : Document} {f : Fragment} (h : Fragment.ofText d.content = .ok f) :
    cleanly? documents lineage d = gather d f (cleanlyBehind? documents lineage d.path) := by
  rw [cleanly?, h]
  dsimp only
  congr 1
  funext as
  rw [cleanlyBehind?]
  split
  · rename_i none
    rw [none]
    rfl
  · rename_i e some
    rw [some]
    rfl

/-- Reference tags that are followed without errors add none. -/
theorem scanReferences_errors {cs : List Char} {tags : List (List Attribute × Span)}
    (h : ∀ tag ∈ tags, ∃ e, behind? documents lineage path tag.1 = some e ∧
      Clean documents (lineage ++ [e.path]) e) (before : found.errors = []) :
    (scanReferences documents lineage path cs tags found).2.errors = [] := by
  induction tags generalizing found with
  | nil =>
    rw [scanReferences]
    exact before
  | cons tag rest ih =>
    obtain ⟨⟨e, hbehind, clean⟩, hrest⟩ := List.forall_mem_cons.mp h
    obtain ⟨as, s⟩ := tag
    rw [scanReferences_follow hbehind]
    apply ih hrest
    obtain ⟨-, errors, hfound, hclean⟩ := alike_scan documents (lineage ++ [e.path]) e.path
      e.content found ⟨[], []⟩
    rw [Clean, hclean] at clean
    rw [Findings.errors_cite, hfound, before]
    exact clean

theorem of_cleanly? (documents : Documents) (lineage : List String) (d : Document)
    {pieces : List Splice} {r : Scanned} (h : cleanly? documents lineage d = some (pieces, r)) :
    Clean documents lineage d ∧ splices documents lineage d = pieces ∧
      scanned documents lineage d = r := by
  cases hf : Fragment.ofText d.content with
  | error e =>
    rw [cleanly?, hf] at h
    cases h
  | ok f =>
    rw [cleanly?_ok hf, gather] at h
    split at h
    · rename_i all
      -- what is computed behind a reference tag is what the scan returns there
      have each : ∀ tag ∈ f.references, ∃ e, behind? documents lineage d.path tag.1 = some e ∧
          Clean documents (lineage ++ [e.path]) e ∧
          cleanlyBehind? documents lineage d.path tag.1 =
            some (included documents lineage d.path tag.1) := by
        intro tag htag
        obtain ⟨r', hr'⟩ := Option.isSome_iff_exists.mp (List.all_eq_true.mp all tag htag)
        obtain ⟨e, hbehind, hr⟩ := Option.bind_eq_some_iff.mp hr'
        obtain ⟨⟨pieces', r''⟩, hchild, rfl⟩ := Option.map_eq_some_iff.mp hr
        have fewer := length_remaining_behind hbehind
        obtain ⟨clean, -, hscanned⟩ := of_cleanly? documents (lineage ++ [e.path]) e hchild
        exact ⟨e, hbehind, clean, by rw [hr', included_eq hbehind, hscanned]⟩
      have clean : Clean documents lineage d := by
        rw [Clean, scan_ok hf]
        refine scanReferences_errors (fun tag htag => ?_) rfl
        obtain ⟨e, hbehind, hclean, -⟩ := each tag htag
        exact ⟨e, hbehind, hclean⟩
      obtain ⟨f', hf', -, hsplices, hscanned⟩ := exists_of_clean clean
      cases hf.symm.trans hf'
      have same : ∀ tag ∈ f.references,
          (cleanlyBehind? documents lineage d.path tag.1).getD ⟨[], [], none⟩ =
            included documents lineage d.path tag.1 := by
        intro tag htag
        obtain ⟨-, -, -, hincluded⟩ := each tag htag
        rw [hincluded, Option.getD_some]
      cases h
      have pieces : splices documents lineage d = f.references.map fun tag => ⟨tag.2.start,
          tag.2.stop, ((cleanlyBehind? documents lineage d.path tag.1).getD ⟨[], [], none⟩).body⟩ := by
        rw [hsplices]
        exact List.map_congr_left fun tag htag => by rw [same tag htag]
      refine ⟨clean, pieces, ?_⟩
      rw [hscanned, pieces]
      congr 2
      exact List.map_congr_left fun tag htag =>
        congrArg (fun r : Scanned => (tag.2.start, r.parameters)) (same tag htag).symm
    · cases h
termination_by (remaining documents lineage).length

end Metadata

end PromptTemplate
