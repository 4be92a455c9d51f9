import PromptTemplate.Proofs.Metadata.Inlining
import PromptTemplate.Proofs.Parameters.Outlines

/-!
# Reported parameters

The parameters of a document are found without those of the documents behind its reference tags
being analysed again: what they read is read at the tag. What is inlined is analysed as a whole,
so definitions in one document are seen in the others. Therefore it has no other parameters than
those that are reported, as long as the tags have no attributes that names could be taken for.
-/

namespace PromptTemplate

namespace Analysis

/-! ## Analyses that go on -/

theorem defined_foldl_read (names : List String) (a : Analysis) :
    (names.foldl read a).defined = a.defined := by
  induction names generalizing a with
  | nil => rfl
  | cons name names ih => rw [List.foldl_cons, ih, defined_read]

theorem mem_used_foldl_read {names : List String} {a : Analysis} {m : String} :
    m ∈ (names.foldl read a).used ↔ m ∈ a.used ∨ (m ∈ names ∧ m ∉ a.defined) := by
  induction names generalizing a with
  | nil => simp
  | cons name names ih =>
    rw [List.foldl_cons, ih, mem_used_read_iff, defined_read, List.mem_cons]
    constructor
    · rintro ((h | ⟨rfl, fresh⟩) | ⟨h, fresh⟩)
      · exact .inl h
      · exact .inr ⟨.inl rfl, fresh⟩
      · exact .inr ⟨.inr h, fresh⟩
    · rintro (h | ⟨rfl | h, fresh⟩)
      · exact .inl (.inl h)
      · exact .inl (.inr ⟨rfl, fresh⟩)
      · exact .inr ⟨h, fresh⟩

/-- An analysis that goes on from another one has read no other names than one that begins anew,
and has defined at least as many. The name of the attribute that every reference tag has is left
out. -/
structure GoesOn (start e a : Analysis) : Prop where
  before : start.defined ⊆ a.defined
  defined : e.defined ⊆ a.defined
  used : ∀ name ∈ a.used, name ≠ "prompt" →
    name ∈ start.used ∨ (name ∈ e.used ∧ name ∉ start.defined)

namespace GoesOn

variable {start e a : Analysis}

theorem read (h : GoesOn start e a) (name : String) : GoesOn start (e.read name) (a.read name) where
  before := by rw [defined_read]; exact h.before
  defined := by rw [defined_read, defined_read]; exact h.defined
  used m hm other := by
    rw [mem_used_read_iff]
    obtain hm | ⟨rfl, fresh⟩ := mem_used_read_iff.mp hm
    · exact (h.used m hm other).imp id (And.imp_left .inl)
    · exact .inr ⟨.inr ⟨rfl, fun known => fresh (h.defined known)⟩,
        fun known => fresh (h.before known)⟩

theorem define (h : GoesOn start e a) (name : String) :
    GoesOn start (e.define name) (a.define name) where
  before := fun _ hx => List.mem_cons_of_mem _ (h.before hx)
  defined := List.cons_subset_cons _ h.defined
  used := h.used

mutual

theorem expr {e a : Analysis} (h : GoesOn start e a) (x : Expr) : GoesOn start (e.expr x) (a.expr x) := by
  match x with
  | .literal .. => exact h
  | .identifier name _ => exact h.read name
  | .array items _ => exact h.exprs items
  | .object ps _ => exact h.properties ps
  | .member base k _ _ => exact (h.expr base).key k
  | .call callee arguments _ _ => exact (h.expr callee).exprs arguments
  | .unary _ argument _ => exact h.expr argument
  | .binary _ left right _ => exact (h.expr left).expr right
  | .logical _ left right _ => exact (h.expr left).expr right
  | .conditional test consequent alternate _ =>
    exact ((h.expr test).expr consequent).expr alternate
  | .assign op target value _ =>
    have first := h.expr target
    cases target with
    | identifier name s =>
      simp only [Analysis.expr]
      split
      · exact ((h.read name).expr value).define name
      · exact (h.expr value).define name
    | _ => exact first.expr value
  | .update _ _ argument _ => exact h.expr argument

theorem exprs {e a : Analysis} (h : GoesOn start e a) (es : List Expr) :
    GoesOn start (e.exprs es) (a.exprs es) := by
  match es with
  | [] => exact h
  | x :: rest => exact (h.expr x).exprs rest

theorem key {e a : Analysis} (h : GoesOn start e a) (k : Key) : GoesOn start (e.key k) (a.key k) := by
  match k with
  | .named _ => exact h
  | .computed x => exact h.expr x

theorem properties {e a : Analysis} (h : GoesOn start e a) (ps : List Property) :
    GoesOn start (e.properties ps) (a.properties ps) := by
  match ps with
  | [] => exact h
  | .mk k value :: rest => exact ((h.key k).expr value).properties rest

end

theorem stable (start : Analysis) : Stable (GoesOn start) where
  expr x h := h.expr x
  define name h := h.define name
  inside h h' := ⟨h.before, h.defined, h'.used⟩

end GoesOn

/-! ## Reference tags with a path only -/

theorem used_subset_foldl_read (names : List String) (a : Analysis) :
    a.used ⊆ (names.foldl Analysis.read a).used :=
  fun _ h => mem_used_foldl_read.mpr (.inl h)

theorem pieces_of_static {ps : List Piece} (a : Analysis)
    (h : (ps.mapM AttributeValue.pieceText?).isSome = true) : a.pieces ps = a := by
  induction ps with
  | nil => rfl
  | cons p ps ih =>
    cases p with
    | text data s =>
      refine ih ?_
      cases rest : ps.mapM AttributeValue.pieceText? with
      | none => simp [List.mapM_cons, AttributeValue.pieceText?, rest] at h
      | some texts => rfl
    | mustache e s => simp [List.mapM_cons, AttributeValue.pieceText?] at h

/-- A tag with nothing but a path reads the parameters of the document behind it, except for one
that is named as the path is. -/
theorem reference_of_path (a : Analysis) (included : Included) {x : Attribute} (s : Span)
    (name : x.name = "prompt") (static : x.value.staticText?.isSome = true) :
    a.reference included [x] s =
      ((Included.at? included s.start).filter (· ≠ "prompt")).foldl Analysis.read a := by
  have attributes : a.attributes [x] = a := by
    obtain ⟨n, value, t⟩ := x
    cases value with
    | flag => rfl
    | pieces ps =>
      rw [AttributeValue.staticText?, Option.isSome_map] at static
      exact pieces_of_static a static
  rw [reference, attributes]
  congr 1
  refine List.filter_congr fun other _ => ?_
  rw [Attribute.find?, List.find?_singleton, name]
  by_cases h : other = "prompt"
  · simp [h]
  · simp [h, Ne.symm h]

variable {start e a b : Analysis}

/-- What goes on from the end of an analysis goes on from its beginning, after a tag with the
parameters of what goes on. -/
theorem GoesOn.after (h : GoesOn start e a) {parameters : List String} {whole : Analysis}
    (hwhole : whole.used = parameters) (k : GoesOn a whole b) :
    GoesOn start ((parameters.filter (· ≠ "prompt")).foldl Analysis.read e) b where
  before := fun _ hx => k.before (h.before hx)
  defined := by
    rw [defined_foldl_read]
    exact fun _ hx => k.before (h.defined hx)
  used name hname other := by
    obtain old | ⟨new, fresh⟩ := k.used name hname other
    · obtain old | ⟨old, fresh⟩ := h.used name old other
      · exact .inl old
      · exact .inr ⟨used_subset_foldl_read _ _ old, fresh⟩
    · rw [hwhole] at new
      refine .inr ⟨mem_used_foldl_read.mpr (.inr ⟨?_, fun known => fresh (h.defined known)⟩),
        fun known => fresh (h.before known)⟩
      exact List.mem_filter.mpr ⟨new, decide_eq_true other⟩

end Analysis

namespace Template.Stretch

/-- No two reference tags begin at one place, and none has an attribute twice. -/
theorem Located.distinct {p : Position} {ss : List Stretch} (h : Located p ss) :
    (∀ tag ∈ tags ss, p.offset ≤ tag.2.start ∧ (tag.1.map Attribute.name).Nodup) ∧
      ((tags ss).map fun tag => tag.2.start).Nodup := by
  induction ss generalizing p with
  | nil => exact ⟨fun _ h => absurd h List.not_mem_nil, List.nodup_nil⟩
  | cons s ss ih =>
    cases s with
    | kept q =>
      obtain ⟨later, distinct⟩ := ih h
      rw [Position.offset_advance] at later
      refine ⟨fun tag htag => ?_, distinct⟩
      obtain ⟨offset, names⟩ := later tag htag
      exact ⟨by omega, names⟩
    | reference used as s =>
      obtain ⟨⟨angle, names, rfl⟩, located⟩ := h
      obtain ⟨later, distinct⟩ := ih located
      have longer : p.offset < (p.advance used).offset := by
        obtain ⟨rest, rfl⟩ := List.head?_eq_some_iff.mp angle
        rw [Position.offset_advance, Text.byteLength]
        have := Char.utf8Size_pos '<'
        omega
      change (∀ tag ∈ (as, Span.between p (p.advance used)) :: tags ss, _) ∧
        (p.offset :: (tags ss).map fun tag => tag.2.start).Nodup
      refine ⟨List.forall_mem_cons.mpr ⟨⟨le_refl _, names⟩, fun tag htag => ?_⟩,
        List.nodup_cons.mpr ⟨fun again => ?_, distinct⟩⟩
      · exact ⟨longer.le.trans (later tag htag).1, (later tag htag).2⟩
      · obtain ⟨tag, htag, same⟩ := List.mem_map.mp again
        have := (later tag htag).1
        omega

end Template.Stretch

namespace Analysis

/-- A tag finds what is included at its place. -/
theorem included_at? {tags : List (List Attribute × Span)} (names : List Attribute → List String)
    (distinct : (tags.map fun tag => tag.2.start).Nodup) {as : List Attribute} {s : Span}
    (h : (as, s) ∈ tags) :
    Included.at? (tags.map fun tag => (tag.2.start, names tag.1)) s.start = names as := by
  induction tags with
  | nil => cases h
  | cons tag tags ih =>
    rw [List.map_cons, List.nodup_cons] at distinct
    rw [Included.at?, List.map_cons]
    by_cases here : tag.2.start = s.start
    · rw [List.find?_cons_of_pos (by simpa using here)]
      obtain rfl | later := List.mem_cons.mp h
      · rfl
      · exact absurd (List.mem_map.mpr ⟨_, later, here.symm⟩) distinct.1
    · rw [List.find?_cons_of_neg (by simpa using here)]
      refine ih distinct.2 ((List.mem_cons.mp h).resolve_left ?_)
      rintro rfl
      exact here rfl

end Analysis

/-- Whether all reference tags of a document have a path and nothing else. -/
def Document.PathsOnly (d : Document) : Prop :=
  ∀ f, Fragment.ofText d.content = .ok f → ∀ tag ∈ f.references, ∀ x ∈ tag.1, x.name = "prompt"

namespace Metadata

open Documents Reference Text Template

variable {documents : Documents} {lineage : List String} {d e : Document}

theorem exists_path {as : List Attribute} (h : (wantedPath? as).isSome = true)
    (distinct : (as.map Attribute.name).Nodup) (paths : ∀ x ∈ as, x.name = "prompt") :
    ∃ x, as = [x] ∧ x.name = "prompt" ∧ x.value.staticText?.isSome = true := by
  cases as with
  | nil => cases h
  | cons x as =>
    have name := paths x List.mem_cons_self
    cases as with
    | nil =>
      rw [wantedPath?, Attribute.find?, List.find?_cons_of_pos (by simpa using name)] at h
      exact ⟨x, rfl, name, h⟩
    | cons y as =>
      have same := paths y (List.mem_cons_of_mem _ List.mem_cons_self)
      rw [List.map_cons, List.map_cons, name, same] at distinct
      exact absurd List.mem_cons_self (List.nodup_cons.mp distinct).1

/-- What is inlined has no other parameters than those that the scan of the document finds. -/
theorem goesOn_inlined (documents : Documents) (lineage : List String) (d : Document)
    (clean : Clean documents lineage d)
    (paths : EverywhereFrom documents lineage (fun _ e => e.PathsOnly) d) (start : Analysis) :
    ∃ whole : Analysis, whole.used = (scanned documents lineage d).parameters ∧
      Analysis.GoesOn start whole (Analysis.nodes [] start (inlined documents lineage d)) := by
  obtain ⟨f, hf, followed, -, hscanned⟩ := exists_of_clean clean
  obtain ⟨config, c, ss, read⟩ := Fragment.exists_stretches hf
  obtain ⟨here, there⟩ := everywhereFrom_iff.mp paths
  obtain ⟨names, distinct⟩ := read.located.distinct
  have hrefs : f.references = Node.references f.children := rfl
  rw [hscanned, inlined_eq hf]
  refine ⟨_, rfl, Analysis.stable_nodes (Analysis.GoesOn.stable start) f.children ?_
    ⟨List.Subset.refl _, List.nil_subset _, fun name h _ => .inl h⟩⟩
  rintro ⟨as, s⟩ htag e a goes
  rw [← hrefs] at htag
  obtain ⟨e', hbehind, hclean⟩ := followed (as, s) htag
  have fewer := length_remaining_behind hbehind
  obtain ⟨leads, fresh, known⟩ := behind?_eq_some.mp hbehind
  have next : Next documents lineage d e' :=
    ⟨(refers_iff hf e'.path).mpr ⟨(as, s), htag, leads⟩, fresh, known⟩
  obtain ⟨whole, hwhole, goes'⟩ :=
    goesOn_inlined documents (lineage ++ [e'.path]) e' hclean (there e' next) a
  have path : (wantedPath? as).isSome = true := by
    obtain ⟨wanted, hwanted, -⟩ := leads
    rw [hwanted]
    rfl
  have among : (as, s) ∈ Stretch.tags ss := read.references ▸ htag
  obtain ⟨x, rfl, name, static⟩ := exists_path path (names _ among).2 (here f hf _ htag)
  dsimp only
  rw [Analysis.reference_of_path e _ s name static, Analysis.included_at?
      (fun as => (included documents lineage d.path as).parameters)
      (read.references ▸ distinct) htag,
    inlinedBehind_eq hbehind, included_eq hbehind]
  exact goes.after hwhole goes'
termination_by (remaining documents lineage).length

/-! ## Reported parameters -/

theorem parameters_read (prompt path : String) (documents : Documents) (schema : Option Schema) :
    (read prompt path documents none schema).parameters =
      (scanned documents [path] ⟨path, prompt⟩).parameters := rfl

/-- Metadata without errors tell all parameters of the resolved text but `prompt`, if reference
tags have nothing but a path, nothing is completed at an edge of what is inlined and no config
block comes from it. -/
theorem parameters_of_read (prompt path : String) (documents : Documents) (schema : Option Schema)
    (clean : (read prompt path documents none schema).errors = [])
    (paths : Everywhere documents (fun _ d => d.PathsOnly) ⟨path, prompt⟩)
    (seamless : Everywhere documents (SeamlessAt documents) ⟨path, prompt⟩)
    (fence : isFence (trimStart prompt.toList) = false →
      isFence (trimStart (read prompt path documents none schema).resolved.toList) = false)
    {f : Fragment}
    (resolved : Fragment.ofText (read prompt path documents none schema).resolved = .ok f) :
    ∀ name ∈ f.parameters [], name ≠ "prompt" →
      name ∈ (read prompt path documents none schema).parameters := by
  intro name hname other
  rw [read_resolved, String.toList_ofList] at fence
  obtain ⟨-, outline⟩ :=
    ofText_resolved (clean_of_read clean) (everywhere_iff.mp seamless) fence
  have outline := outline f resolved
  obtain ⟨whole, hwhole, goes⟩ := goesOn_inlined documents [path] ⟨path, prompt⟩
    (clean_of_read clean) (everywhere_iff.mp paths) Analysis.empty
  have same : f.parameters [] =
      (Analysis.nodes [] Analysis.empty (inlined documents [path] ⟨path, prompt⟩)).used := by
    rw [Fragment.parameters, ← outline fun _ => [],
      ← Analysis.nodes_outlineAll (Node.references_eq_nil outline)]
  rw [same] at hname
  obtain none | ⟨reported, -⟩ := goes.used name hname other
  · cases none
  · rw [parameters_read, ← hwhole]
    exact reported

/-! ### Computed parameters -/

theorem parameters_of_cleanly? (prompt path : String) (documents : Documents) (names : List String)
    (h : (cleanly? documents [path] ⟨path, prompt⟩).map (·.2.parameters) = some names) :
    (read prompt path documents none none).parameters = names := by
  obtain ⟨⟨pieces, r⟩, hr, hnames⟩ := Option.map_eq_some_iff.mp h
  obtain ⟨-, -, hscanned⟩ := of_cleanly? documents [path] ⟨path, prompt⟩ hr
  rw [parameters_read, hscanned, hnames]

theorem pathsOnly_of_all (d : Document)
    (h : (Fragment.ofText d.content).toOption.all fun f =>
      f.references.all fun tag => tag.1.all (·.name == "prompt")) : d.PathsOnly := by
  intro f hf tag htag x hx
  rw [hf] at h
  exact eq_of_beq (List.all_eq_true.mp (List.all_eq_true.mp h tag htag) x hx)

theorem pathsOnly_singleton {key text : String}
    (root : (Fragment.ofText d.content).toOption.all fun f =>
      f.references.all fun tag => tag.1.all (·.name == "prompt"))
    (leaf : (Fragment.ofText text).toOption.all fun f =>
      f.references.all fun tag => tag.1.all (·.name == "prompt")) :
    Everywhere [(key, text)] (fun _ d => d.PathsOnly) d :=
  everywhere_singleton (pathsOnly_of_all d root) (pathsOnly_of_all ⟨key, text⟩ leaf)

/-- A name that is defined before a document is inlined, and one that is not. -/
theorem parameters_of_read_path :
    let m := read "{{ x = 1 }}<ref prompt=\"c\"/>" "r" [("c", "{{ x }}{{ y }}")] none none
    m.errors = [] ∧ ∃ f, Fragment.ofText m.resolved = .ok f ∧ f.parameters [] = ["y"] ∧
      "y" ∈ m.parameters := by
  obtain ⟨clean, text⟩ := read_of_cleanly? "{{ x = 1 }}<ref prompt=\"c\"/>" "r"
    "{{ x = 1 }}{{ x }}{{ y }}" [("c", "{{ x }}{{ y }}")] (by decide +kernel)
  have fence : isFence (trimStart (read "{{ x = 1 }}<ref prompt=\"c\"/>" "r"
      [("c", "{{ x }}{{ y }}")] none none).resolved.toList) = false := by
    rw [text]
    decide +kernel
  obtain ⟨f, hf, names⟩ : ∃ f, Fragment.ofText (read "{{ x = 1 }}<ref prompt=\"c\"/>" "r"
      [("c", "{{ x }}{{ y }}")] none none).resolved = .ok f ∧ (f.parameters [] == ["y"]) := by
    rw [text]
    exact exists_of_any (p := fun f => f.parameters [] == ["y"]) (by decide +kernel)
  have names := eq_of_beq names
  refine ⟨clean, f, hf, names, ?_⟩
  exact parameters_of_read _ _ _ none clean
    (pathsOnly_singleton (by decide +kernel) (by decide +kernel))
    (seamless_singleton (by decide +kernel) (by decide +kernel)) (fun _ => fence) hf "y"
    (by rw [names]; exact List.mem_cons_self) (by decide)

/-- An expression that is completed by the text after a reference tag, a definition that the fence
of the referenced document hides, and a parameter with the name of the attribute for the path. -/
theorem exists_unreported_parameter :
    (let m := read "<ref prompt=\"c\"/>\x7b x \x7d\x7d" "r" [("c", "\x7b")] none none
     m.errors = [] ∧ Everywhere [("c", "\x7b")] (fun _ d => d.PathsOnly)
         ⟨"r", "<ref prompt=\"c\"/>\x7b x \x7d\x7d"⟩ ∧
       ∃ f, Fragment.ofText m.resolved = .ok f ∧ f.references = [] ∧
         "x" ∈ f.parameters [] ∧ "x" ∉ m.parameters) ∧
    (let text := "---\na: 1\n---\n---\n# {{ x = 1 }}\n---\n{{ x }}"
     let m := read "<ref prompt=\"c\"/>" "r" [("c", text)] none none
     m.errors = [] ∧ Everywhere [("c", text)] (fun _ d => d.PathsOnly)
         ⟨"r", "<ref prompt=\"c\"/>"⟩ ∧
       ∃ f, Fragment.ofText m.resolved = .ok f ∧ f.references = [] ∧
         "x" ∈ f.parameters [] ∧ "x" ∉ m.parameters) ∧
    (let m := read "<ref prompt=\"c\"/>" "r" [("c", "{{ prompt }}")] none none
     m.errors = [] ∧ Everywhere [("c", "{{ prompt }}")] (fun _ d => d.PathsOnly)
         ⟨"r", "<ref prompt=\"c\"/>"⟩ ∧
       ∃ f, Fragment.ofText m.resolved = .ok f ∧ f.references = [] ∧
         "prompt" ∈ f.parameters [] ∧ "prompt" ∉ m.parameters) := by
  -- what the resolved text reads, and that it has no reference tags
  have reads (text name : String) (h : (Fragment.ofText text).toOption.any fun f =>
      f.references.isEmpty && (f.parameters []).contains name) :
      ∃ f, Fragment.ofText text = .ok f ∧ f.references = [] ∧ name ∈ f.parameters [] := by
    obtain ⟨f, hf, both⟩ := exists_of_any h
    obtain ⟨none, reads⟩ := Bool.and_eq_true_iff.mp both
    exact ⟨f, hf, List.isEmpty_iff.mp none, List.contains_iff_mem.mp reads⟩
  refine ⟨?_, ?_, ?_⟩
  · obtain ⟨clean, text⟩ := read_of_cleanly? "<ref prompt=\"c\"/>\x7b x \x7d\x7d" "r" "{{ x }}" [("c", "\x7b")]
      (by decide +kernel)
    obtain ⟨f, hf, none, used⟩ := reads "{{ x }}" "x" (by decide +kernel)
    refine ⟨clean, pathsOnly_singleton (by decide +kernel) (by decide +kernel), f,
      text ▸ hf, none, used, ?_⟩
    rw [parameters_of_cleanly? _ _ _ [] (by decide +kernel)]
    exact List.not_mem_nil
  · obtain ⟨clean, text⟩ := read_of_cleanly? "<ref prompt=\"c\"/>" "r"
      "---\n# {{ x = 1 }}\n---\n{{ x }}"
      [("c", "---\na: 1\n---\n---\n# {{ x = 1 }}\n---\n{{ x }}")] (by decide +kernel)
    obtain ⟨f, hf, none, used⟩ := reads "---\n# {{ x = 1 }}\n---\n{{ x }}" "x" (by decide +kernel)
    refine ⟨clean, pathsOnly_singleton (by decide +kernel) (by decide +kernel), f,
      text ▸ hf, none, used, ?_⟩
    rw [parameters_of_cleanly? _ _ _ [] (by decide +kernel)]
    exact List.not_mem_nil
  · obtain ⟨clean, text⟩ := read_of_cleanly? "<ref prompt=\"c\"/>" "r" "{{ prompt }}"
      [("c", "{{ prompt }}")] (by decide +kernel)
    obtain ⟨f, hf, none, used⟩ := reads "{{ prompt }}" "prompt" (by decide +kernel)
    refine ⟨clean, pathsOnly_singleton (by decide +kernel) (by decide +kernel), f,
      by rw [text]; exact hf, none, used, ?_⟩
    rw [parameters_of_cleanly? _ _ _ [] (by decide +kernel)]
    exact List.not_mem_nil

end Metadata

end PromptTemplate
