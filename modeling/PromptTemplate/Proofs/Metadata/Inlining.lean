import PromptTemplate.Proofs.Metadata.Clean
import PromptTemplate.Proofs.Template.Rereading
import Mathlib.Tactic.Choose

/-!
# Resolved texts

The resolved text of a document has the texts of other documents in the places of its reference
tags. Only those texts are read by a scan, not the resolved one. If nothing is completed at an
edge between them, then the resolved text is read exactly if the nodes of the other documents may
stand where the reference tags do, and there are no reference tags left in it.
-/

namespace PromptTemplate

open Text Text.Cursor Template

namespace Metadata

open Documents Reference

variable {documents : Documents} {lineage : List String} {d e : Document}

/-! ## What is inlined -/

/-- The outline of a document, with those of other documents in the places of its reference
tags. -/
def inlined (documents : Documents) (lineage : List String) (d : Document) : List Node :=
  match Fragment.ofText d.content with
  | .error _ => []
  | .ok f => Node.outlineAll (fun as =>
      match _h : behind? documents lineage d.path as with
      | none => []
      | some e => inlined documents (lineage ++ [e.path]) e) f.children
termination_by (remaining documents lineage).length
decreasing_by exact length_remaining_behind _h

/-- The outline that is in the place of a reference tag. -/
def inlinedBehind (documents : Documents) (lineage : List String) (path : String)
    (as : List Attribute) : List Node :=
  ((behind? documents lineage path as).map fun e =>
    inlined documents (lineage ++ [e.path]) e).getD []

theorem inlined_eq {f : Fragment} (h : Fragment.ofText d.content = .ok f) :
    inlined documents lineage d =
      Node.outlineAll (inlinedBehind documents lineage d.path) f.children := by
  rw [inlined, h]
  dsimp only
  congr 1
  funext as
  rw [inlinedBehind]
  split
  · rename_i none
    rw [none]
    rfl
  · rename_i e some
    rw [some]
    rfl

theorem inlinedBehind_eq {path : String} {as : List Attribute}
    (h : behind? documents lineage path as = some e) :
    inlinedBehind documents lineage path as = inlined documents (lineage ++ [e.path]) e := by
  rw [inlinedBehind, h, Option.map_some, Option.getD_some]

/-- Whether no mark and no escape is completed at an edge of what is put into a document. -/
def SeamlessAt (documents : Documents) (lineage : List String) (d : Document) : Prop :=
  Seams d.content.toList 0 (splices documents lineage d)

/-! ## Resolved texts in their lexemes -/

/-- The lexemes of the resolved text of a document, after what stands before its nodes. -/
structure Joined (documents : Documents) (lineage : List String) (d : Document)
    (front : List Char) (ps : List Lexeme) : Prop where
  resolved : (scanned documents lineage d).resolved = front ++ Lexeme.textAll ps
  fits : Lexeme.AllFit [] ps
  written : Node.AllWritten (inlined documents lineage d) (Lexeme.signs ps)
  headed : ((scanned documents lineage d).config = none ∧ front = [] ∧
      isFence (trimStart d.content.toList) = false) ∨
    ∃ v s, (scanned documents lineage d).config = some (v, s) ∧ s.stop = byteLength front ∧
      configBlock (Cursor.start (front ++ Lexeme.textAll ps)) =
        .ok (some (.config v s), ⟨Position.first.advance front, Lexeme.textAll ps⟩)

/-- The text that is put in the place of a reference tag has the same tags. -/
theorem Joined.exists_body {front : List Char} {ps : List Lexeme}
    (h : Joined documents lineage d front ps) :
    ∃ qs, (scanned documents lineage d).body = Lexeme.textAll qs ∧ Lexeme.AllFit [] qs ∧
      Lexeme.signs qs = Lexeme.signs ps := by
  rw [Scanned.body]
  obtain ⟨hconfig, rfl, -⟩ | ⟨v, s, hconfig, hstop, -⟩ := h.headed
  · rw [hconfig]
    exact ⟨ps, by rw [h.resolved]; rfl, h.fits, rfl⟩
  · obtain ⟨qs, text, fits, same⟩ := Lexeme.exists_trimStart h.fits
    rw [hconfig]
    refine ⟨qs, ?_, fits, same⟩
    dsimp only
    rw [h.resolved, hstop, cut?_append, text]
    rfl

theorem exists_joined (documents : Documents) (lineage : List String) (d : Document)
    (clean : Clean documents lineage d) (seamless : EverywhereFrom documents lineage (SeamlessAt documents) d) :
    ∃ front ps, Joined documents lineage d front ps := by
  obtain ⟨f, hf, followed, hsplices, hscanned⟩ := exists_of_clean clean
  obtain ⟨config, c, ss, read⟩ := Fragment.exists_stretches hf
  obtain ⟨here, there⟩ := everywhereFrom_iff.mp seamless
  -- the lexemes behind each reference tag
  have behind (as : List Attribute) : ∃ qs, ∀ s, (as, s) ∈ f.references →
      (included documents lineage d.path as).body = Lexeme.textAll qs ∧ Lexeme.AllFit [] qs ∧
        Node.AllWritten (inlinedBehind documents lineage d.path as) (Lexeme.signs qs) := by
    by_cases tagged : ∃ s, (as, s) ∈ f.references
    · obtain ⟨s, hs⟩ := tagged
      obtain ⟨e, hbehind, hclean⟩ := followed (as, s) hs
      have fewer := length_remaining_behind hbehind
      obtain ⟨leads, fresh, known⟩ := behind?_eq_some.mp hbehind
      have next : Next documents lineage d e :=
        ⟨(refers_iff hf e.path).mpr ⟨(as, s), hs, leads⟩, fresh, known⟩
      obtain ⟨front, ps, joined⟩ :=
        exists_joined documents (lineage ++ [e.path]) e hclean (there e next)
      obtain ⟨qs, text, fits, same⟩ := joined.exists_body
      refine ⟨qs, fun _ _ => ⟨?_, fits, ?_⟩⟩
      · rw [included_eq hbehind, text]
      · rw [inlinedBehind_eq hbehind, same]
        exact joined.written
    · exact ⟨[], fun s hs => absurd ⟨s, hs⟩ tagged⟩
  choose lexemes hlexemes using behind
  have hrefs := read.references
  obtain ⟨front, hfront, hposition⟩ : ∃ front, d.content.toList = front ++ c.rest ∧
      c.position = Position.first.advance front := by
    cases read.headed with
    | plain => exact ⟨[], rfl, rfl⟩
    | block front rest v s text => exact ⟨front, text, rfl⟩
  have each : ∀ tag ∈ Stretch.tags ss,
      (included documents lineage d.path tag.1).body = Lexeme.textAll (lexemes tag.1) := by
    rw [← hrefs]
    exact fun tag htag => (hlexemes tag.1 tag.2 htag).1
  have hsplices' : splices documents lineage d =
      Stretch.splices (fun as => (included documents lineage d.path as).body) ss := by
    rw [hsplices, hrefs]
    rfl
  rw [hsplices'] at hscanned
  rw [SeamlessAt, hsplices'] at here
  have htext : d.content.toList = [] ++ (front ++ Lexeme.textAll [] ++ Stretch.textAll ss) := by
    rw [hfront, read.text]
    simp
  have hp : c.position.offset = byteLength ([] ++ (front ++ Lexeme.textAll [])) := by
    rw [hposition, Position.offset_advance]
    simp [Position.first]
  obtain ⟨text, fits⟩ := Stretch.spliceFrom_splices
    (fun as => (included documents lineage d.path as).body) lexemes htext read.located hp each
  obtain ⟨children, hchildren, tree, -⟩ := read.tree
  have outline (inside : List Attribute → List Node) :
      Node.outlineAll inside f.children = Node.outlineAll inside children := by
    rw [hchildren, Node.outlineAll_append]
    cases read.headed <;> rfl
  refine ⟨front, Stretch.fillAll lexemes ss, ⟨?_, ?_, ?_, ?_⟩⟩
  · rw [hscanned]
    exact text
  · refine fits trivial read.fits (fun tag htag => ?_) here
    rw [← hrefs] at htag
    exact (hlexemes tag.1 tag.2 htag).2.1
  · rw [inlined_eq hf, outline]
    refine tree.written _ lexemes fun as s hs => ?_
    rw [← hrefs] at hs
    exact (hlexemes as s hs).2.2
  · rw [hscanned, read.config?]
    have ends := Stretch.endsLine_fillAll lexemes read.fits read.located
    rw [← read.text] at ends
    cases read.headed with
    | plain noFence =>
      have none : front = [] := by simpa [Cursor.start] using hfront
      exact .inl ⟨rfl, none, noFence⟩
    | block front' rest v s text line hstop again =>
      obtain rfl : front' = front := by
        rw [text] at hfront
        exact List.append_cancel_right hfront
      exact .inr ⟨v, s, rfl, hstop, again _ (ends line)⟩
termination_by (remaining documents lineage).length

/-! ## Resolved texts read again -/

/-- A resolved text of lexemes is read as what is inlined, if that may stand where it does. -/
theorem ofText_resolved (clean : Clean documents lineage d)
    (seamless : EverywhereFrom documents lineage (SeamlessAt documents) d)
    (fence : isFence (trimStart d.content.toList) = false →
      isFence (trimStart (scanned documents lineage d).resolved) = false) :
    ((∃ f, Fragment.ofText (String.ofList (scanned documents lineage d).resolved) = .ok f) ↔
      Node.AllPlaced Nesting.none (inlined documents lineage d)) ∧
    ∀ f, Fragment.ofText (String.ofList (scanned documents lineage d).resolved) = .ok f →
      ∀ inside, Node.outlineAll inside f.children = inlined documents lineage d := by
  obtain ⟨front, ps, joined⟩ := exists_joined documents lineage d clean seamless
  obtain ⟨config, c, hconfig, hc⟩ : ∃ config c,
      configBlock (Cursor.start (scanned documents lineage d).resolved) = .ok (config, c) ∧
        c.rest = Lexeme.textAll ps := by
    obtain ⟨-, rfl, plain⟩ | ⟨v, s, -, -, hconfig⟩ := joined.headed
    · exact ⟨_, _, configBlock_plain (fence plain), joined.resolved⟩
    · rw [joined.resolved]
      exact ⟨_, _, hconfig, rfl⟩
  rw [← String.toList_ofList (l := (scanned documents lineage d).resolved)] at hconfig
  exact Fragment.ofText_written hconfig hc joined.written joined.fits

/-- A scan of a text without reference tags returns the text. -/
theorem scan_plain {source path : String} {f : Fragment} {found : Findings}
    (h : Fragment.ofText source = .ok f) (none : f.references = []) :
    (scan documents lineage path source found).1.resolved = source.toList := by
  rw [scan_ok h, none, scanReferences]
  dsimp only
  rw [splice, spliceFrom, cut?]
  rfl

theorem read_resolved (prompt path : String) (documents : Documents)
    (allowed : Option (List String)) (schema : Option Schema) :
    (read prompt path documents allowed schema).resolved =
      String.ofList (scanned documents [path] ⟨path, prompt⟩).resolved := rfl

theorem clean_of_read {prompt path : String} {allowed : Option (List String)}
    {schema : Option Schema} (h : (read prompt path documents allowed schema).errors = []) :
    Clean documents [path] ⟨path, prompt⟩ :=
  (List.append_eq_nil_iff.mp h).1

/-! ## Computed scans -/

theorem read_of_cleanly? (prompt path text : String) (documents : Documents)
    (h : (cleanly? documents [path] ⟨path, prompt⟩).map (·.2.resolved) = some text.toList) :
    (read prompt path documents none none).errors = [] ∧
      (read prompt path documents none none).resolved = text := by
  obtain ⟨⟨pieces, r⟩, hr, hresolved⟩ := Option.map_eq_some_iff.mp h
  obtain ⟨clean, -, hscanned⟩ := of_cleanly? documents [path] ⟨path, prompt⟩ hr
  constructor
  · exact (List.append_nil _).trans clean
  · rw [read_resolved, hscanned, hresolved, String.ofList_toList]

theorem seamless_of_cleanly? (documents : Documents) (lineage : List String) (d : Document)
    (h : (cleanly? documents lineage d).any fun r => decide (Seams d.content.toList 0 r.1)) :
    SeamlessAt documents lineage d := by
  cases hr : cleanly? documents lineage d with
  | none =>
    rw [hr] at h
    cases h
  | some r =>
    rw [hr] at h
    rw [SeamlessAt, (of_cleanly? documents lineage d hr).2.1]
    exact of_decide_eq_true h

theorem seamless_singleton {key text : String}
    (root : (cleanly? [(key, text)] [d.path] d).any fun r =>
      decide (Seams d.content.toList 0 r.1))
    (leaf : (cleanly? [(key, text)] [d.path, key] ⟨key, text⟩).any fun r =>
      decide (Seams text.toList 0 r.1)) :
    Everywhere [(key, text)] (SeamlessAt [(key, text)]) d :=
  everywhere_singleton (seamless_of_cleanly? _ _ _ root) (seamless_of_cleanly? _ _ _ leaf)

theorem exists_of_any {source : String} {p : Fragment → Bool}
    (h : (Fragment.ofText source).toOption.any p) :
    ∃ f, Fragment.ofText source = .ok f ∧ p f := by
  cases hf : Fragment.ofText source with
  | ok f =>
    rw [hf] at h
    exact ⟨f, rfl, h⟩
  | error e =>
    rw [hf] at h
    cases h

theorem refused_of_isOk {source : String} (h : (Fragment.ofText source).isOk = false) :
    ∀ f, Fragment.ofText source ≠ .ok f := by
  intro f hf
  rw [hf] at h
  cases h

/-- Metadata without errors, where nothing is completed at an edge of what is inlined and no
config block comes from it: the resolved text is accepted exactly if what is inlined may stand
where it does. It has no reference tags then, and its own metadata tell the same text and the
same digest. -/
theorem resolved_of_read (prompt path : String) (documents : Documents)
    (allowed : Option (List String)) (schema : Option Schema)
    (clean : (read prompt path documents allowed schema).errors = [])
    (seamless : Everywhere documents (SeamlessAt documents) ⟨path, prompt⟩)
    (fence : isFence (trimStart prompt.toList) = false →
      isFence (trimStart (read prompt path documents allowed schema).resolved.toList) = false) :
    ((∃ f, Fragment.ofText (read prompt path documents allowed schema).resolved = .ok f) ↔
      Node.AllPlaced Nesting.none (inlined documents [path] ⟨path, prompt⟩)) ∧
    ∀ f, Fragment.ofText (read prompt path documents allowed schema).resolved = .ok f →
      f.references = [] ∧ ∀ path' documents' allowed' schema',
        let again := read (read prompt path documents allowed schema).resolved path' documents'
          allowed' schema'
        again.resolved = (read prompt path documents allowed schema).resolved ∧
          again.hash = (read prompt path documents allowed schema).hash := by
  rw [read_resolved, String.toList_ofList] at fence
  obtain ⟨accepted, outline⟩ :=
    ofText_resolved (clean_of_read clean) (everywhere_iff.mp seamless) fence
  refine ⟨accepted, fun f hf => ?_⟩
  have none : f.references = [] := Node.references_eq_nil (outline f hf)
  refine ⟨none, fun path' documents' allowed' schema' => ?_⟩
  have same : (read (read prompt path documents allowed schema).resolved path' documents' allowed'
      schema').resolved = (read prompt path documents allowed schema).resolved := by
    rw [read_resolved _ path', scanned, scan_plain hf none, String.ofList_toList]
  exact ⟨same, congrArg Digest.sha256 same⟩

/-- A message is put into a step. -/
theorem resolved_of_read_step :
    let m := read "<step><ref prompt=\"c\"/></step>" "r" [("c", "<user>a</user>")] none none
    m.errors = [] ∧ ∃ f, Fragment.ofText m.resolved = .ok f ∧ f.references = [] := by
  obtain ⟨clean, text⟩ := read_of_cleanly? "<step><ref prompt=\"c\"/></step>" "r"
    "<step><user>a</user></step>" [("c", "<user>a</user>")] (by decide +kernel)
  have seamless : Everywhere [("c", "<user>a</user>")] (SeamlessAt [("c", "<user>a</user>")])
      ⟨"r", "<step><ref prompt=\"c\"/></step>"⟩ :=
    seamless_singleton (by decide +kernel) (by decide +kernel)
  have fence : isFence (trimStart (read "<step><ref prompt=\"c\"/></step>" "r"
      [("c", "<user>a</user>")] none none).resolved.toList) = false := by
    rw [text]
    decide +kernel
  obtain ⟨f, hf, -⟩ : ∃ f, Fragment.ofText (read "<step><ref prompt=\"c\"/></step>" "r"
      [("c", "<user>a</user>")] none none).resolved = .ok f ∧ true := by
    rw [text]
    exact exists_of_any (by decide +kernel)
  obtain ⟨-, readable⟩ := resolved_of_read _ _ _ none none clean seamless fun _ => fence
  exact ⟨clean, f, hf, (readable f hf).1⟩

/-- A message in a message, a mark that is completed by the text after a reference tag, and a fence
that only the referenced document has. -/
theorem exists_unread_resolved :
    (let m := read "<user><ref prompt=\"c\"/></user>" "r" [("c", "<user>a</user>")] none none
     m.errors = [] ∧ ∀ f, Fragment.ofText m.resolved ≠ .ok f) ∧
    (let m := read "<ref prompt=\"c\"/>ref prompt=\"d\"/>" "r" [("c", "<")] none none
     m.errors = [] ∧ ∃ f, Fragment.ofText m.resolved = .ok f ∧ f.references ≠ []) ∧
    (let m := read "<ref prompt=\"c\"/>" "r" [("c", "---\na: 1\n---\n---\nx")] none none
     m.errors = [] ∧ ∀ f, Fragment.ofText m.resolved ≠ .ok f) := by
  obtain ⟨nested, text⟩ := read_of_cleanly? "<user><ref prompt=\"c\"/></user>" "r"
    "<user><user>a</user></user>" [("c", "<user>a</user>")] (by decide +kernel)
  obtain ⟨completed, text'⟩ := read_of_cleanly? "<ref prompt=\"c\"/>ref prompt=\"d\"/>" "r"
    "<ref prompt=\"d\"/>" [("c", "<")] (by decide +kernel)
  obtain ⟨fenced, text''⟩ := read_of_cleanly? "<ref prompt=\"c\"/>" "r"
    "---\nx" [("c", "---\na: 1\n---\n---\nx")] (by decide +kernel)
  refine ⟨⟨nested, ?_⟩, ⟨completed, ?_⟩, ⟨fenced, ?_⟩⟩
  · rw [text]
    exact refused_of_isOk (by decide +kernel)
  · rw [text']
    have left : ((Fragment.ofText "<ref prompt=\"d\"/>").toOption.any
        fun f => f.references.length == 1) = true := by decide +kernel
    obtain ⟨f, hf, one⟩ := exists_of_any left
    refine ⟨f, hf, fun none => ?_⟩
    rw [none] at one
    cases one
  · rw [text'']
    exact refused_of_isOk (by decide +kernel)

end Metadata

end PromptTemplate
