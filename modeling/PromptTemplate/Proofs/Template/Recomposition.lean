import PromptTemplate.Proofs.Template.Nesting
import PromptTemplate.Proofs.Template.Written

/-!
# Templates put together

Lexemes that write the outline of nodes are read as nodes of that outline, if all of them
stand where they may; if not, nothing is read. As with the reader itself, what comes before
a stop and what comes after it are read one after the other.
-/

namespace PromptTemplate

open Text Text.Cursor

namespace Template

variable (inside : List Attribute → List Node)

/-! ## What is read from a cursor -/

/-- The outline of the nodes at a cursor, with their stop and the cursor after it. -/
def outcome (n : Nesting) (c : Cursor) : Option (List Node × Option (Stop × Cursor)) :=
  match nodes n c with
  | .ok (ns, stop) => some (Node.outlineAll inside ns, stop.map fun (s, d) => (s, d.1))
  | .error _ => none

/-- The same where no literal text comes first. -/
def outcomeAt (n : Nesting) (c : Cursor) : Option (List Node × Option (Stop × Cursor)) :=
  if h : c.rest = [] then some ([], none)
  else
    match item n c h with
    | .ok (.inl a, d) =>
      (outcome inside n d.1).map fun (ns, stop) => (Node.outline inside a ++ ns, stop)
    | .ok (.inr stop, d) => some ([], some (stop, d.1))
    | .error _ => none

variable {inside} {n : Nesting} {c d e : Cursor} {ns ms : List Node} {stop : Stop}

/-- Literal text has no outline. -/
theorem outcome_eq_outcomeAt (c : Cursor) :
    outcome inside n c = outcomeAt inside n (c.skip (literal c.rest).2) := by
  have text : Node.outlineAll inside (if (literal c.rest).1.isEmpty then []
      else [.text (String.ofList (literal c.rest).1) (c.span (c.skip (literal c.rest).2))]) =
      [] := by
    split <;> rfl
  rw [outcome, nodes, outcomeAt]
  dsimp only
  by_cases h : (c.skip (literal c.rest).2).rest = []
  · rw [dif_pos h, dif_pos h]
    simp only [text, Option.map_none]
  · rw [dif_neg h, dif_neg h]
    cases item n _ h with
    | error err => rfl
    | ok r =>
      obtain ⟨a | stop, d, hd⟩ := r
      · dsimp only [bind, Except.bind]
        rw [outcome]
        cases nodes n d with
        | error err => rfl
        | ok r =>
          obtain ⟨more, stop⟩ := r
          simp only [pure, Except.pure, Option.map_some, Node.outlineAll_append, text,
            Node.outlineAll, List.nil_append]
          cases stop <;> rfl
      · simp only [bind, Except.bind, pure, Except.pure, text, Option.map_some]

theorem outcome_mark (mark : beginsMarkup c.rest = true) :
    outcome inside n c = outcomeAt inside n c := by
  rw [outcome_eq_outcomeAt, literal_markup mark]
  rfl

theorem outcome_stopped :
    outcome inside n c = some (ns, some (stop, d)) ↔
      ∃ all h, nodes n c = .ok (all, some (stop, ⟨d, h⟩)) ∧ Node.outlineAll inside all = ns := by
  rw [outcome]
  constructor
  · intro h
    split at h
    · rename_i all stop' heq
      cases stop' with
      | none => cases h
      | some s =>
        obtain ⟨stop', d', hd⟩ := s
        cases h
        exact ⟨all, hd, heq, rfl⟩
    · cases h
  · rintro ⟨all, h, heq, rfl⟩
    rw [heq]
    rfl

theorem outcome_ended :
    outcome inside n c = some (ns, none) ↔
      ∃ all, nodes n c = .ok (all, none) ∧ Node.outlineAll inside all = ns := by
  rw [outcome]
  constructor
  · intro h
    split at h
    · rename_i all stop' heq
      cases stop' with
      | some s => cases h
      | none =>
        cases h
        exact ⟨all, heq, rfl⟩
    · cases h
  · rintro ⟨all, heq, rfl⟩
    rw [heq]
    rfl

theorem outcome_none : outcome inside n c = none ↔ ∃ err, nodes n c = .error err := by
  rw [outcome]
  cases nodes n c with
  | ok r => simp
  | error err => simp

theorem outcome_end (h : c.rest = []) : outcome inside n c = some ([], none) := by
  rw [outcome_eq_outcomeAt, outcomeAt, dif_pos]
  rw [skip, h, List.drop_nil]

/-! ## Texts and comments -/

variable (inside) in
/-- Nothing is read between two cursors that has an outline. -/
def Silent (c d : Cursor) : Prop := ∀ n, outcome inside n c = outcome inside n d

theorem silent_skip {k : Nat}
    (h : (literal c.rest).2 = k + (literal (c.skip k).rest).2) : Silent inside c (c.skip k) := by
  intro n
  rw [outcome_eq_outcomeAt, outcome_eq_outcomeAt, h, skip_add]

theorem silent_comment (mark : beginsMarkup c.rest = true) (h : ReadsComment c d) :
    Silent inside c d := by
  intro n
  rw [outcome_mark mark, outcomeAt]
  have rest : c.rest ≠ [] := by
    intro empty
    rw [empty] at mark
    cases mark
  rw [dif_neg rest]
  obtain ⟨data, codes, s, hd, hitem⟩ : ∃ data codes s hd,
      item n c rest = .ok (.inl (.comment data codes s), ⟨d, hd⟩) := by
    rcases h with ⟨front, reads⟩ | ⟨front, reads⟩
    · obtain ⟨data, codes, s, hd, hread⟩ := reads rest (by decide)
      refine ⟨data, codes, s, hd, ?_⟩
      rw [item, if_pos front, hread]
      rfl
    · obtain ⟨data, codes, s, hd, hread⟩ := reads rest (by decide)
      refine ⟨data, codes, s, hd, ?_⟩
      have other : ¬ ['/', '*'].isPrefixOf c.rest = true := by
        obtain ⟨more, hmore⟩ := List.isPrefixOf_iff_prefix.mp front
        simp [← hmore, List.isPrefixOf]
      rw [item, if_neg other, if_pos front, hread]
      rfl
  rw [hitem]
  dsimp only
  cases outcome inside n d <;> rfl

/-! ## Along lexemes -/

/-- A tag between two cursors. -/
def Marks (s : Sign) (c d : Cursor) : Prop := beginsMarkup c.rest = true ∧ s.Reads c d

/-- Lexemes with some tags are read as something, wherever they stand. -/
def Along (ss : List Sign) (reads : Cursor → Cursor → Prop) : Prop :=
  ∀ ps after c, Lexeme.signs ps = ss → Lexeme.AllFit after ps →
    c.rest = Lexeme.textAll ps ++ after → ∃ d, d.rest = after ∧ reads c d

variable {s : Sign} {ss ts : List Sign} {reads reads' : Cursor → Cursor → Prop}

theorem Along.imp (h : Along ss reads) (himp : ∀ c d, reads c d → reads' c d) :
    Along ss reads' := by
  intro ps after c hps fits hc
  obtain ⟨d, hd, hreads⟩ := h ps after c hps fits hc
  exact ⟨d, hd, himp c d hreads⟩

theorem Along.append (h : Along ss reads) (k : Along ts reads') :
    Along (ss ++ ts) fun c e => ∃ d, reads c d ∧ reads' d e := by
  intro ps after c hps fits hc
  obtain ⟨qs, rs, rfl, hqs, hrs⟩ := List.filterMap_eq_append_iff.mp hps
  obtain ⟨fits, fits'⟩ := Lexeme.allFit_append.mp fits
  rw [Lexeme.textAll_append, List.append_assoc] at hc
  obtain ⟨d, hd, hreads⟩ := h qs _ c hqs fits hc
  obtain ⟨e, he, hreads'⟩ := k rs after d hrs fits' hd
  exact ⟨e, he, d, hreads, hreads'⟩

variable (inside) in
theorem along_nil : Along [] (Silent inside) := by
  intro ps after c none fits hc
  induction ps generalizing c with
  | nil => exact ⟨c, hc, fun _ => rfl⟩
  | cons p ps ih =>
    have step : ∃ d, d.rest = Lexeme.textAll ps ++ after ∧ Silent inside c d := by
      rw [Lexeme.textAll_cons, List.append_assoc] at hc
      cases p with
      | char x =>
        refine ⟨c.skip 1, by rw [skip, hc]; rfl, silent_skip ?_⟩
        rw [skip, hc, Lexeme.text, List.singleton_append, literal_char fits.1, Nat.add_comm]
        rfl
      | escape x =>
        refine ⟨c.skip 2, by rw [skip, hc]; rfl, silent_skip ?_⟩
        rw [skip, hc, Lexeme.text, List.cons_append, List.singleton_append,
          literal_escape fits.1, Nat.add_comm]
        rfl
      | comment used =>
        obtain ⟨d, hd, mark, reads⟩ := fits.1 c _ hc
        exact ⟨d, hd, silent_comment mark reads⟩
      | sign used s => cases none
    obtain ⟨d, hd, first⟩ := step
    have none' : Lexeme.signs ps = [] := by
      cases p with
      | sign used s => cases none
      | _ => exact none
    obtain ⟨e, he, rest⟩ := ih d none' fits.2 hd
    exact ⟨e, he, fun n => (first n).trans (rest n)⟩

variable (inside) in
theorem along_cons (h : Along ss reads) :
    Along (s :: ss) fun c f => ∃ d e, Silent inside c d ∧ Marks s d e ∧ reads e f := by
  intro ps after c hps fits hc
  obtain ⟨qs, p, rs, rfl, hqs, hp, hrs⟩ := List.filterMap_eq_cons_iff.mp hps
  obtain ⟨before, fits, fits'⟩ := Lexeme.allFit_append.mp fits
  have none : Lexeme.signs qs = [] := List.filterMap_eq_nil_iff.mpr hqs
  rw [Lexeme.textAll_append, List.append_assoc] at hc
  obtain ⟨d, hd, silent⟩ := along_nil inside qs _ c none before hc
  cases p with
  | sign used s' =>
    cases hp
    rw [Lexeme.textAll_cons, List.append_assoc] at hd
    obtain ⟨e, he, marks⟩ := fits d _ hd
    obtain ⟨f, hf, hreads⟩ := h rs after e hrs fits' he
    exact ⟨f, hf, d, e, silent, marks, hreads⟩
  | _ => cases hp

/-! ## Stops -/

/-- A tag that nodes stop at. -/
def Sign.Ends : Sign → Prop
  | .brace (.otherwise _) | .brace (.closing _) | .closing _ => True
  | _ => False

theorem rest_ne_nil_of_mark (mark : beginsMarkup c.rest = true) : c.rest ≠ [] := by
  intro empty
  rw [empty] at mark
  cases mark

theorem notComment_of_braces (braces : ['\x7b', '\x7b'].isPrefixOf c.rest = true) :
    ¬ ['/', '*'].isPrefixOf c.rest = true ∧ ¬ ['<', '!', '-', '-'].isPrefixOf c.rest = true := by
  obtain ⟨more, hmore⟩ := List.isPrefixOf_iff_prefix.mp braces
  simp [← hmore, List.isPrefixOf]

theorem notBraces_of_slash (slash : ['<', '/'].isPrefixOf c.rest = true) :
    ¬ ['/', '*'].isPrefixOf c.rest = true ∧ ¬ ['<', '!', '-', '-'].isPrefixOf c.rest = true ∧
      ¬ ['\x7b', '\x7b'].isPrefixOf c.rest = true := by
  obtain ⟨more, hmore⟩ := List.isPrefixOf_iff_prefix.mp slash
  simp [← hmore, List.isPrefixOf]

theorem notSlash_of_letter (angle : c.rest.head? = some '<')
    (letter : (c.rest.drop 1).head?.any Char.isAlpha = true) :
    ¬ ['/', '*'].isPrefixOf c.rest = true ∧ ¬ ['<', '!', '-', '-'].isPrefixOf c.rest = true ∧
      ¬ ['\x7b', '\x7b'].isPrefixOf c.rest = true ∧ ¬ ['<', '/'].isPrefixOf c.rest = true := by
  obtain ⟨more, hmore⟩ := List.head?_eq_some_iff.mp angle
  rw [hmore] at letter ⊢
  cases more with
  | nil => cases letter
  | cons x more =>
    have name : ∀ y, y.isAlpha = false → x ≠ y := by
      rintro y hy rfl
      rw [List.drop_succ_cons, List.drop_zero, List.head?_cons, Option.any_some, hy] at letter
      cases letter
    simp [List.isPrefixOf, Ne.symm (name '!' rfl), Ne.symm (name '/' rfl)]

variable (inside n) in
theorem exists_stop (hs : s.Ends) (h : Marks s c d) :
    ∃ stop, stop.sign = s ∧ outcome inside n c = some ([], some (stop, d)) := by
  obtain ⟨mark, reads⟩ := h
  have rest := rest_ne_nil_of_mark mark
  have item : ∃ stop hd, stop.sign = s ∧ item n c rest = .ok (.inr stop, ⟨d, hd⟩) := by
    cases s with
    | opening tag => cases hs
    | closing name =>
      obtain ⟨slash, hread⟩ := reads
      obtain ⟨hd, hread⟩ := hread rest
      obtain ⟨h₁, h₂, h₃⟩ := notBraces_of_slash slash
      refine ⟨.tagEnd name (c.span d), hd, rfl, ?_⟩
      rw [item, if_neg h₁, if_neg h₂, if_neg h₃, if_pos slash, hread]
      rfl
    | brace tag =>
      obtain ⟨braces, hread⟩ := reads
      obtain ⟨tag', hd, hread, hbare⟩ := hread rest
      obtain ⟨h₁, h₂⟩ := notComment_of_braces braces
      cases tag' with
      | otherwise e' =>
        refine ⟨.otherwise e' (c.span d), hd, by rw [← hbare]; rfl, ?_⟩
        rw [item, if_neg h₁, if_neg h₂, if_pos braces, hread]
        rfl
      | closing name =>
        refine ⟨.blockEnd name (c.span d), hd, by rw [← hbare]; rfl, ?_⟩
        rw [item, if_neg h₁, if_neg h₂, if_pos braces, hread]
        rfl
      | output e' | ifOpening e' | eachOpening header' =>
        rw [← hbare] at hs
        cases hs
  obtain ⟨stop, hd, hstop, hitem⟩ := item
  refine ⟨stop, hstop, ?_⟩
  rw [outcome_mark mark, outcomeAt, dif_neg rest, hitem]

/-! ## Nodes that stand where they may -/

variable (inside n) in
/-- Nodes are read between two cursors, if they stand where they may. -/
structure Goes (c : Cursor) (ns : List Node) (d : Cursor) : Prop where
  placed : Node.AllPlaced n ns →
    outcome inside n c = (outcome inside n d).map fun (ms, stop) => (ns ++ ms, stop)
  unplaced : ¬ Node.AllPlaced n ns → outcome inside n c = none

variable (inside n) in
/-- Nodes are read up to a stop, if they stand where they may. -/
structure Ends (c : Cursor) (ns : List Node) (stop : Stop) (d : Cursor) : Prop where
  placed : Node.AllPlaced n ns → outcome inside n c = some (ns, some (stop, d))
  unplaced : ¬ Node.AllPlaced n ns → outcome inside n c = none

theorem Silent.goes (h : Silent inside c d) : Goes inside n c [] d where
  placed _ := by
    rw [h]
    cases outcome inside n d <;> rfl
  unplaced hn := absurd trivial hn

theorem Goes.append (h : Goes inside n c ns d) (k : Goes inside n d ms e) :
    Goes inside n c (ns ++ ms) e where
  placed hall := by
    have hall := allPlaced_iff.mp hall
    rw [h.placed (allPlaced_iff.mpr fun a ha => hall a (List.mem_append_left _ ha)),
      k.placed (allPlaced_iff.mpr fun a ha => hall a (List.mem_append_right _ ha)),
      Option.map_map]
    simp only [Function.comp_def, List.append_assoc]
  unplaced hall := by
    by_cases hns : Node.AllPlaced n ns
    · rw [h.placed hns, k.unplaced fun hms => hall (allPlaced_append hns hms)]
      rfl
    · exact h.unplaced hns

theorem Goes.ends (h : Goes inside n c ns d)
    (k : outcome inside n d = some ([], some (stop, e))) : Ends inside n c ns stop e where
  placed hns := by
    simp only [h.placed hns, k, Option.map_some, List.append_nil]
  unplaced := h.unplaced

variable (s) in
/-- Nodes before a tag that they stop at. -/
theorem along_ends (hs : s.Ends) (h : Along ss fun c d => Goes inside n c ns d)
    (k : Along ts reads) :
    Along (ss ++ s :: ts) fun c e =>
      ∃ stop d, stop.sign = s ∧ Ends inside n c ns stop d ∧ reads d e := by
  refine (h.append (along_cons inside k)).imp ?_
  rintro c f ⟨d, goes, d', e, silent, marks, hreads⟩
  obtain ⟨stop, hstop, houtcome⟩ := exists_stop inside n hs marks
  exact ⟨stop, e, hstop, goes.ends ((silent n).trans houtcome), hreads⟩

/-- One node is read where a mark begins. -/
theorem Goes.single {a' : Node} (mark : beginsMarkup c.rest = true)
    (placed : a'.Placed n → ∀ h, ∃ a hd, item n c h = .ok (.inl a, ⟨d, hd⟩) ∧
      Node.outline inside a = [a'])
    (unplaced : ¬ a'.Placed n → ∀ h, ∃ err, Template.item n c h = .error err) :
    Goes inside n c [a'] d where
  placed ha := by
    have rest := rest_ne_nil_of_mark mark
    obtain ⟨a, hd, hitem, houtline⟩ := placed ha.1 rest
    rw [outcome_mark mark, outcomeAt, dif_neg rest, hitem]
    simp only [houtline]
  unplaced ha := by
    have rest := rest_ne_nil_of_mark mark
    obtain ⟨err, hitem⟩ := unplaced (fun h => ha ⟨h, trivial⟩) rest
    rw [outcome_mark mark, outcomeAt, dif_neg rest, hitem]

/-! ## Blocks -/

variable (inside n) in
/-- The rest of an if block is read between two cursors, if it stands where it may. -/
structure IfGoes (e : Expr) (c : Cursor) (a' : Node) (d : Cursor) : Prop where
  placed : a'.Placed n → ∀ start e', e'.bare = e →
    ∃ a h, ifRest n start e' c = .ok (a, ⟨d, h⟩) ∧ Node.outline inside a = [a']
  unplaced : ¬ a'.Placed n → ∀ start e', ∃ err, ifRest n start e' c = .error err

variable (inside n) in
/-- The rest of an each block is read between two cursors, if it stands where it may. -/
structure EachGoes (header : EachHeader) (c : Cursor) (a' : Node) (d : Cursor) : Prop where
  placed : a'.Placed n → ∀ start header', header'.bare = header →
    ∃ a h, eachRest n start header' c = .ok (a, ⟨d, h⟩) ∧ Node.outline inside a = [a']
  unplaced : ¬ a'.Placed n → ∀ start header', ∃ err, eachRest n start header' c = .error err

section

variable {condition condition' : Expr} {header : EachHeader} {stop' : Stop} {a' : Node} {f : Cursor}

theorem sign_blockEnd {name : String} (h : stop.sign = .brace (.closing name)) :
    ∃ s, stop = .blockEnd name s := by
  cases stop with
  | otherwise e s => cases h
  | tagEnd name s => cases h
  | blockEnd name' s =>
    cases h
    exact ⟨s, rfl⟩

theorem sign_else (h : stop.sign = .brace (.otherwise none)) : ∃ s, stop = .otherwise none s := by
  cases stop with
  | otherwise e s =>
    cases e with
    | none => exact ⟨s, rfl⟩
    | some e => cases h
  | tagEnd name s => cases h
  | blockEnd name' s => cases h

theorem sign_elseIf (h : stop.sign = .brace (.otherwise (some condition))) :
    ∃ e s, stop = .otherwise (some e) s ∧ e.bare = condition := by
  cases stop with
  | otherwise e s =>
    cases e with
    | none => cases h
    | some e =>
      cases h
      exact ⟨e, s, rfl, rfl⟩
  | tagEnd name s => cases h
  | blockEnd name' s => cases h

theorem Ends.ifBlock (h : Ends inside n c ns stop d)
    (hstop : stop.sign = .brace (.closing "if")) :
    IfGoes inside n condition c (.ifBlock condition ns none Span.none) d where
  placed hp start e' he' := by
    obtain ⟨all, hd, hnodes, houtline⟩ := outcome_stopped.mp (h.placed hp.1)
    obtain ⟨s, rfl⟩ := sign_blockEnd hstop
    refine ⟨_, hd, by rw [ifRest, hnodes]; rfl, ?_⟩
    rw [Node.outline, outlineAll_trimBlock, houtline, he', Node.outlineOption]
  unplaced hp start e' := by
    obtain ⟨err, hnodes⟩ := outcome_none.mp (h.unplaced fun hns => hp ⟨hns, trivial⟩)
    exact ⟨err, by rw [ifRest, hnodes]; rfl⟩

theorem Ends.ifElse (h : Ends inside n c ns stop d)
    (hstop : stop.sign = .brace (.otherwise none)) (k : Ends inside n d ms stop' f)
    (hstop' : stop'.sign = .brace (.closing "if")) :
    IfGoes inside n condition c (.ifBlock condition ns (some ms) Span.none) f where
  placed hp start e' he' := by
    obtain ⟨all, hd, hnodes, houtline⟩ := outcome_stopped.mp (h.placed hp.1)
    obtain ⟨all', hf, hnodes', houtline'⟩ := outcome_stopped.mp (k.placed hp.2)
    obtain ⟨s, rfl⟩ := sign_blockEnd hstop'
    obtain ⟨s', rfl⟩ := sign_else hstop
    have hrest : ifRest n start e' c = .ok (.ifBlock e' (trimBlock all) (some (trimBlock all'))
        (Span.between start f.position), ⟨f, Nat.lt_trans hf hd⟩) := by
      rw [ifRest, hnodes]
      dsimp only [bind, Except.bind]
      rw [hnodes']
      rfl
    refine ⟨_, _, hrest, ?_⟩
    rw [Node.outline, outlineAll_trimBlock, houtline, he', Node.outlineOption,
      outlineAll_trimBlock, houtline']
  unplaced hp start e' := by
    by_cases hns : Node.AllPlaced n ns
    · obtain ⟨all, hd, hnodes, -⟩ := outcome_stopped.mp (h.placed hns)
      obtain ⟨err, hnodes'⟩ := outcome_none.mp (k.unplaced fun hms => hp ⟨hns, hms⟩)
      obtain ⟨s', rfl⟩ := sign_else hstop
      refine ⟨err, ?_⟩
      rw [ifRest, hnodes]
      dsimp only [bind, Except.bind]
      rw [hnodes']
    · obtain ⟨err, hnodes⟩ := outcome_none.mp (h.unplaced hns)
      exact ⟨err, by rw [ifRest, hnodes]; rfl⟩

theorem Ends.ifElseIf (h : Ends inside n c ns stop d)
    (hstop : stop.sign = .brace (.otherwise (some condition')))
    (k : IfGoes inside n condition' d a' f) :
    IfGoes inside n condition c (.ifBlock condition ns (some [a']) Span.none) f where
  placed hp start e' he' := by
    obtain ⟨all, hd, hnodes, houtline⟩ := outcome_stopped.mp (h.placed hp.1)
    obtain ⟨e, s, rfl, he⟩ := sign_elseIf hstop
    obtain ⟨a, hf, hrest, houtline'⟩ := k.placed hp.2.1 ⟨s.start, s.line, s.column⟩ e he
    have hrest' : ifRest n start e' c = .ok (.ifBlock e' (trimBlock all) (some [a])
        (Span.between start f.position), ⟨f, Nat.lt_trans hf hd⟩) := by
      rw [ifRest, hnodes]
      dsimp only [bind, Except.bind]
      rw [hrest]
      rfl
    refine ⟨_, _, hrest', ?_⟩
    rw [Node.outline, outlineAll_trimBlock, houtline, he', Node.outlineOption,
      Node.outlineAll_singleton, houtline']
  unplaced hp start e' := by
    by_cases hns : Node.AllPlaced n ns
    · obtain ⟨all, hd, hnodes, -⟩ := outcome_stopped.mp (h.placed hns)
      obtain ⟨e, s, rfl, he⟩ := sign_elseIf hstop
      obtain ⟨err, hrest⟩ :=
        k.unplaced (fun ha => hp ⟨hns, ha, trivial⟩) ⟨s.start, s.line, s.column⟩ e
      refine ⟨err, ?_⟩
      rw [ifRest, hnodes]
      dsimp only [bind, Except.bind]
      rw [hrest]
    · obtain ⟨err, hnodes⟩ := outcome_none.mp (h.unplaced hns)
      exact ⟨err, by rw [ifRest, hnodes]; rfl⟩

theorem Ends.eachBlock (h : Ends inside { n with inEach := true } c ns stop d)
    (hstop : stop.sign = .brace (.closing "each")) :
    EachGoes inside n header c
      (.eachBlock header.expression header.context header.index ns none Span.none) d where
  placed hp start header' hheader := by
    obtain ⟨all, hd, hnodes, houtline⟩ := outcome_stopped.mp (h.placed hp.1)
    obtain ⟨s, rfl⟩ := sign_blockEnd hstop
    refine ⟨_, hd, by rw [eachRest, hnodes]; rfl, ?_⟩
    rw [Node.outline, outlineAll_trimBlock, houtline, ← hheader, Node.outlineOption]
    rfl
  unplaced hp start header' := by
    obtain ⟨err, hnodes⟩ := outcome_none.mp (h.unplaced fun hns => hp ⟨hns, trivial⟩)
    exact ⟨err, by rw [eachRest, hnodes]; rfl⟩

theorem Ends.eachElse (h : Ends inside { n with inEach := true } c ns stop d)
    (hstop : stop.sign = .brace (.otherwise none))
    (k : Ends inside { n with inEach := true } d ms stop' f)
    (hstop' : stop'.sign = .brace (.closing "each")) :
    EachGoes inside n header c
      (.eachBlock header.expression header.context header.index ns (some ms) Span.none) f where
  placed hp start header' hheader := by
    obtain ⟨all, hd, hnodes, houtline⟩ := outcome_stopped.mp (h.placed hp.1)
    obtain ⟨all', hf, hnodes', houtline'⟩ := outcome_stopped.mp (k.placed hp.2)
    obtain ⟨s, rfl⟩ := sign_blockEnd hstop'
    obtain ⟨s', rfl⟩ := sign_else hstop
    have hrest : eachRest n start header' c = .ok (.eachBlock header'.expression header'.context
        header'.index (trimBlock all) (some (trimBlock all')) (Span.between start f.position),
          ⟨f, Nat.lt_trans hf hd⟩) := by
      rw [eachRest, hnodes]
      dsimp only [bind, Except.bind]
      rw [hnodes']
      rfl
    refine ⟨_, _, hrest, ?_⟩
    rw [Node.outline, outlineAll_trimBlock, houtline, ← hheader, Node.outlineOption,
      outlineAll_trimBlock, houtline']
    rfl
  unplaced hp start header' := by
    by_cases hns : Node.AllPlaced { n with inEach := true } ns
    · obtain ⟨all, hd, hnodes, -⟩ := outcome_stopped.mp (h.placed hns)
      obtain ⟨err, hnodes'⟩ := outcome_none.mp (k.unplaced fun hms => hp ⟨hns, hms⟩)
      obtain ⟨s', rfl⟩ := sign_else hstop
      refine ⟨err, ?_⟩
      rw [eachRest, hnodes]
      dsimp only [bind, Except.bind]
      rw [hnodes']
    · obtain ⟨err, hnodes⟩ := outcome_none.mp (h.unplaced hns)
      exact ⟨err, by rw [eachRest, hnodes]; rfl⟩

end

/-! ## Elements -/

section

variable {kind : ElementKind} {name : String} {as : List Attribute} {m : Nesting} {f : Cursor}
  {tag : Opening} {h : c.rest ≠ []} {hd : d.rest.length < c.rest.length}

theorem element_unplaced {cause : Cause} (hread : openingTag c h = .ok (tag, ⟨d, hd⟩))
    (hname : ElementKind.ofName? tag.name = some kind) (henter : kind.enter n = .error cause) :
    element n c h = .error (cause.on (c.span d)) := by
  rw [element, hread]
  dsimp only [bind, Except.bind]
  rw [hname]
  dsimp only
  rw [henter]

theorem element_closed (hread : openingTag c h = .ok (tag, ⟨d, hd⟩))
    (hname : ElementKind.ofName? tag.name = some kind) (henter : kind.enter n = .ok m)
    (closed : tag.closed = true) :
    element n c h = .ok (kind.node tag.attributes [] (c.span d), ⟨d, hd⟩) := by
  rw [element, hread]
  dsimp only [bind, Except.bind]
  rw [hname]
  dsimp only
  rw [henter]
  dsimp only
  rw [if_pos closed]
  rfl

/-- The children of an element that is not closed by itself are read before anything else
is decided. -/
theorem element_open (hread : openingTag c h = .ok (tag, ⟨d, hd⟩))
    (hname : ElementKind.ofName? tag.name = some kind) (henter : kind.enter n = .ok m)
    (notClosed : tag.closed = false) :
    (∀ err, nodes m d = .error err → element n c h = .error err) ∧
      ∀ all s he, nodes m d = .ok (all, some (.tagEnd tag.name s, ⟨e, he⟩)) →
        element n c h = .ok (kind.node tag.attributes all (c.span e), ⟨e, Nat.lt_trans he hd⟩) := by
  rw [element, hread]
  dsimp only [bind, Except.bind]
  rw [hname]
  dsimp only
  rw [henter]
  dsimp only
  rw [if_neg (by rw [notClosed]; exact Bool.false_ne_true)]
  constructor
  · intro err hnodes
    rw [hnodes]
  · intro all s he hnodes
    rw [hnodes]
    dsimp only
    rw [if_pos rfl]
    rfl

theorem placed_node_iff (hkind : kind ≠ .reference) {s : Span} :
    (kind.node as ns s).Placed n ↔ ∃ m, kind.enter n = .ok m ∧ Node.AllPlaced m ns := by
  cases kind with
  | reference => exact absurd rfl hkind
  | _ => exact Iff.rfl

/-- An element is read where its opening tag is. -/
theorem Goes.ofElement {a' : Node} (opening : Marks (.opening tag) c d)
    (placed : a'.Placed n → ∀ h tag' hd, tag'.bare = tag → openingTag c h = .ok (tag', ⟨d, hd⟩) →
      ∃ a he, element n c h = .ok (a, ⟨e, he⟩) ∧ Node.outline inside a = [a'])
    (unplaced : ¬ a'.Placed n → ∀ h tag' hd, tag'.bare = tag →
      openingTag c h = .ok (tag', ⟨d, hd⟩) → ∃ err, Template.element n c h = .error err) :
    Goes inside n c [a'] e := by
  obtain ⟨mark, ⟨angle, letter⟩, reads⟩ := opening
  obtain ⟨h₁, h₂, h₃, h₄⟩ := notSlash_of_letter angle letter
  refine .single mark (fun hp h => ?_) (fun hp h => ?_)
  all_goals
    obtain ⟨tag', hd, hread, htag⟩ := reads h
    rw [item, if_neg h₁, if_neg h₂, if_neg h₃, if_neg h₄]
  · obtain ⟨a, he, helement, houtline⟩ := placed hp h tag' hd htag hread
    rw [helement]
    exact ⟨a, he, rfl, houtline⟩
  · obtain ⟨err, helement⟩ := unplaced hp h tag' hd htag hread
    rw [helement]
    exact ⟨err, rfl⟩

theorem Goes.closedElement (opening : Marks (.opening ⟨name, as, true⟩) c d)
    (hname : ElementKind.ofName? name = some kind) (hkind : kind ≠ .reference) :
    Goes inside n c [kind.node as [] Span.none] d := by
  refine .ofElement opening (fun hp h => ?_) (fun hp h => ?_)
  · rintro ⟨name', as', closed⟩ hd htag hread
    cases htag
    obtain ⟨m, henter, -⟩ := (placed_node_iff hkind).mp hp
    refine ⟨_, hd, element_closed hread hname henter rfl, ?_⟩
    rw [outline_node hkind, Node.outlineAll]
  · rintro ⟨name', as', closed⟩ hd htag hread
    cases htag
    cases henter : kind.enter n with
    | error cause => exact ⟨_, element_unplaced hread hname henter⟩
    | ok m => exact absurd ((placed_node_iff hkind).mpr ⟨m, henter, allPlaced_iff.mpr fun _ h => by cases h⟩) hp

/-- An element with an end; where the element may not stand, what is inside it does not
matter. -/
theorem Goes.openElement (opening : Marks (.opening ⟨name, as, false⟩) c d)
    (hname : ElementKind.ofName? name = some kind) (hkind : kind ≠ .reference)
    (hm : ∀ m', kind.enter n = .ok m' → m' = m) (body : Ends inside m d ns stop e)
    (closing : stop.sign = .closing name) :
    Goes inside n c [kind.node as ns Span.none] e := by
  obtain ⟨s, rfl⟩ : ∃ s, stop = .tagEnd name s := by
    cases stop with
    | otherwise e s => cases closing
    | blockEnd name' s => cases closing
    | tagEnd name' s =>
      cases closing
      exact ⟨s, rfl⟩
  refine .ofElement opening (fun hp h => ?_) (fun hp h => ?_)
  · rintro ⟨name', as', closed⟩ hd htag hread
    cases htag
    obtain ⟨m', henter, hns⟩ := (placed_node_iff hkind).mp hp
    cases hm m' henter
    obtain ⟨all, he, hnodes, houtline⟩ := outcome_stopped.mp (body.placed hns)
    refine ⟨_, _, (element_open hread hname henter rfl).2 all s he hnodes, ?_⟩
    rw [outline_node hkind, houtline]
  · rintro ⟨name', as', closed⟩ hd htag hread
    cases htag
    cases henter : kind.enter n with
    | error cause => exact ⟨_, element_unplaced hread hname henter⟩
    | ok m' =>
      cases hm m' henter
      have hns : ¬ Node.AllPlaced m ns := fun hns =>
        hp ((placed_node_iff hkind).mpr ⟨m, henter, hns⟩)
      obtain ⟨err, hnodes⟩ := outcome_none.mp (body.unplaced hns)
      exact ⟨err, (element_open (e := e) hread hname henter rfl).1 err hnodes⟩

end

/-! ## Lexemes that write an outline -/

/-- The rest of an if block is read along tags. -/
def AlongIf (inside : List Attribute → List Node) (n : Nesting) (e : Expr) (a : Node)
    (ss : List Sign) : Prop :=
  Along ss fun c d => ∃ d', IfGoes inside n e c a d' ∧ Silent inside d' d

section

variable {condition : Expr} {alternate : Option (List Node)}

theorem along_single {a : Node} (h : Along ss reads)
    (himp : ∀ c d e, Marks s c d → reads d e → ∃ e', Goes inside n c [a] e' ∧ Silent inside e' e) :
    Along (s :: ss) fun c d => Goes inside n c [a] d := by
  refine (along_cons inside h).imp ?_
  rintro c f ⟨c', d, before, marks, hreads⟩
  obtain ⟨e, goes, after⟩ := himp c' d f marks hreads
  exact (before.goes.append goes).append after.goes

theorem along_output : Along [.brace (.output condition)] fun c d =>
    Goes inside n c [.mustache condition Span.none] d := by
  refine along_single (along_nil inside) fun c d e marks silent => ⟨d, ?_, silent⟩
  obtain ⟨mark, braces, reads⟩ := marks
  obtain ⟨h₁, h₂⟩ := notComment_of_braces braces
  refine .single mark (fun _ h => ?_) fun hp => absurd trivial hp
  obtain ⟨tag, hd, hread, htag⟩ := reads h
  cases tag with
  | output e' =>
    cases htag
    rw [item, if_neg h₁, if_neg h₂, if_pos braces, hread]
    exact ⟨_, hd, rfl, rfl⟩
  | _ => cases htag

theorem along_element {k : ElementKind} (hkind : k ≠ .reference) {as : List Attribute}
    (hall : ∀ m ss, Node.AllWritten ns ss → Along ss fun c d => Goes inside m c ns d)
    (h : k.Written as ns (Node.AllWritten ns) ss) :
    Along ss fun c d => Goes inside n c [k.node as ns Span.none] d := by
  obtain ⟨name, hname, ⟨rfl, rfl⟩ | ⟨body, hbody, rfl⟩⟩ := h
  · exact along_single (along_nil inside) fun c d e marks silent =>
      ⟨d, .closedElement marks hname hkind, silent⟩
  · obtain ⟨m, hm⟩ : ∃ m, ∀ m', k.enter n = .ok m' → m' = m := by
      cases k.enter n with
      | ok m => exact ⟨m, fun m' h => by cases h; rfl⟩
      | error cause => exact ⟨n, fun m' h => by cases h⟩
    refine along_single (along_ends (.closing name) trivial (hall m body hbody) (along_nil inside)) ?_
    rintro c d f marks ⟨stop, e, hstop, ends, silent⟩
    exact ⟨e, .openElement marks hname hkind hm ends hstop, silent⟩

theorem alongIf_ifBlock
    (hns : ∀ ss, Node.AllWritten ns ss → Along ss fun c d => Goes inside n c ns d)
    (hms : ∀ ms, alternate = some ms →
      ∀ ss, Node.AllWritten ms ss → Along ss fun c d => Goes inside n c ms d)
    (ha : ∀ a, alternate = some [a] →
      ∀ e ss, a.Written (.brace (.ifOpening e) :: ss) → AlongIf inside n e a ss)
    {e : Expr} (h : (Node.ifBlock condition ns alternate Span.none).Written
      (.brace (.ifOpening e) :: ss)) :
    AlongIf inside n e (.ifBlock condition ns alternate Span.none) ss := by
  simp only [Node.Written] at h
  obtain ⟨-, body, rest, hss, hbody, hrest⟩ := h
  obtain ⟨⟨⟩, rfl⟩ := List.cons.inj hss
  obtain ⟨rfl, rfl⟩ | ⟨other, hother, rfl⟩ | ⟨x, e', more, rfl, hx, rfl⟩ := hrest
  · refine (along_ends (.brace (.closing "if")) trivial (hns body hbody) (along_nil inside)).imp ?_
    rintro c e ⟨stop, d, hstop, ends, silent⟩
    exact ⟨d, ends.ifBlock hstop, silent⟩
  · cases alternate with
    | none => cases hother
    | some ms =>
      refine (along_ends (.brace (.otherwise none)) trivial (hns body hbody)
        (along_ends (.brace (.closing "if")) trivial (hms ms rfl other hother)
          (along_nil inside))).imp ?_
      rintro c f ⟨stop, d, hstop, ends, stop', e, hstop', ends', silent⟩
      exact ⟨e, ends.ifElse hstop ends' hstop', silent⟩
  · have hx := Node.allWritten_singleton.mp hx
    refine (along_ends (.brace (.otherwise (some e'))) trivial (hns body hbody)
      (ha x rfl e' more hx)).imp ?_
    rintro c f ⟨stop, d, hstop, ends, e, hif, silent⟩
    exact ⟨e, ends.ifElseIf hstop hif, silent⟩

theorem bare_ifOpening {tag : BraceTag} (h : tag.bare = .ifOpening condition) :
    ∃ e, tag = .ifOpening e ∧ e.bare = condition := by
  cases tag with
  | ifOpening e =>
    cases h
    exact ⟨e, rfl, rfl⟩
  | _ => cases h

theorem bare_eachOpening {tag : BraceTag} {header : EachHeader}
    (h : tag.bare = .eachOpening header) :
    ∃ header', tag = .eachOpening header' ∧ header'.bare = header := by
  cases tag with
  | eachOpening header' =>
    cases h
    exact ⟨header', rfl, rfl⟩
  | _ => cases h

/-- An if block is read where its condition is. -/
theorem along_ifBlock {a : Node} (h : AlongIf inside n condition a ss) :
    Along (.brace (.ifOpening condition) :: ss) fun c d => Goes inside n c [a] d := by
  refine along_single h ?_
  rintro c d f ⟨mark, braces, reads⟩ ⟨e, hif, silent⟩
  refine ⟨e, ?_, silent⟩
  obtain ⟨h₁, h₂⟩ := notComment_of_braces braces
  refine .single mark (fun hp h => ?_) (fun hp h => ?_)
  all_goals
    obtain ⟨tag, hd, hread, htag⟩ := reads h
    obtain ⟨e', rfl, he'⟩ := bare_ifOpening htag
    rw [item, if_neg h₁, if_neg h₂, if_pos braces, hread]
    dsimp only [bind, Except.bind]
  · obtain ⟨a', he, hrest, houtline⟩ := hif.placed hp c.position e' he'
    rw [hrest]
    exact ⟨a', Nat.lt_trans he hd, rfl, houtline⟩
  · obtain ⟨err, hrest⟩ := hif.unplaced hp c.position e'
    rw [hrest]
    exact ⟨err, rfl⟩

theorem along_eachBlock {context : String} {index : Option String}
    (hns : ∀ ss, Node.AllWritten ns ss →
      Along ss fun c d => Goes inside { n with inEach := true } c ns d)
    (hms : ∀ ms, alternate = some ms → ∀ ss, Node.AllWritten ms ss →
      Along ss fun c d => Goes inside { n with inEach := true } c ms d)
    (h : (Node.eachBlock condition context index ns alternate Span.none).Written ss) :
    Along ss fun c d =>
      Goes inside n c [.eachBlock condition context index ns alternate Span.none] d := by
  simp only [Node.Written] at h
  obtain ⟨-, body, rest, rfl, hbody, hrest⟩ := h
  have each : Along (body ++ rest) fun c d => ∃ d', EachGoes inside n ⟨condition, context, index⟩ c
      (.eachBlock condition context index ns alternate Span.none) d' ∧ Silent inside d' d := by
    obtain ⟨rfl, rfl⟩ | ⟨other, hother, rfl⟩ := hrest
    · refine (along_ends (.brace (.closing "each")) trivial (hns body hbody) (along_nil inside)).imp ?_
      rintro c e ⟨stop, d, hstop, ends, silent⟩
      exact ⟨d, ends.eachBlock hstop, silent⟩
    · cases alternate with
      | none => cases hother
      | some ms =>
        refine (along_ends (.brace (.otherwise none)) trivial (hns body hbody)
          (along_ends (.brace (.closing "each")) trivial (hms ms rfl other hother)
            (along_nil inside))).imp ?_
        rintro c f ⟨stop, d, hstop, ends, stop', e, hstop', ends', silent⟩
        exact ⟨e, ends.eachElse hstop ends' hstop', silent⟩
  refine along_single each ?_
  rintro c d f ⟨mark, braces, reads⟩ ⟨e, heach, silent⟩
  refine ⟨e, ?_, silent⟩
  obtain ⟨h₁, h₂⟩ := notComment_of_braces braces
  refine .single mark (fun hp h => ?_) (fun hp h => ?_)
  all_goals
    obtain ⟨tag, hd, hread, htag⟩ := reads h
    obtain ⟨header, rfl, hheader⟩ := bare_eachOpening htag
    rw [item, if_neg h₁, if_neg h₂, if_pos braces, hread]
    dsimp only [bind, Except.bind]
  · obtain ⟨a', he, hrest, houtline⟩ := heach.placed hp c.position header hheader
    rw [hrest]
    exact ⟨a', Nat.lt_trans he hd, rfl, houtline⟩
  · obtain ⟨err, hrest⟩ := heach.unplaced hp c.position header
    rw [hrest]
    exact ⟨err, rfl⟩

end

mutual

theorem along_node (inside : List Attribute → List Node) (n : Nesting) (a : Node)
    (ss : List Sign) (h : a.Written ss) : Along ss fun c d => Goes inside n c [a] d :=
  match a with
  | .mustache e s => by
    obtain ⟨rfl, rfl⟩ := h
    exact along_output
  | .message role as children s => by
    obtain ⟨rfl, hwritten⟩ := h
    exact along_element (k := .message role) (fun h => by cases h)
      (fun m ss => along_nodes inside m children ss) hwritten
  | .content kind as children s => by
    obtain ⟨rfl, hwritten⟩ := h
    exact along_element (k := .content kind) (fun h => by cases h)
      (fun m ss => along_nodes inside m children ss) hwritten
  | .step as children s => by
    obtain ⟨rfl, hwritten⟩ := h
    exact along_element (k := .step) (fun h => by cases h)
      (fun m ss => along_nodes inside m children ss) hwritten
  | .ifBlock e consequent alternate s => by
    have hs : s = Span.none ∧ ∃ more, ss = .brace (.ifOpening e) :: more := by
      obtain ⟨rfl, body, rest, rfl, -⟩ := h
      exact ⟨rfl, _, rfl⟩
    obtain ⟨rfl, more, rfl⟩ := hs
    refine along_ifBlock (alongIf_ifBlock (fun ss => along_nodes inside n consequent ss) ?_ ?_ h)
    · rintro ms rfl ss hms
      exact along_nodes inside n ms ss hms
    · rintro x rfl e' ss hx
      exact along_if inside n x e' ss hx
  | .eachBlock e context index body alternate s => by
    have hs : s = Span.none := h.1
    subst hs
    refine along_eachBlock (fun ss => along_nodes inside _ body ss) ?_ h
    rintro ms rfl ss hms
    exact along_nodes inside _ ms ss hms
  | .text .. | .config .. | .comment .. | .reference .. | .scoped .. | .response .. => h.elim

theorem along_if (inside : List Attribute → List Node) (n : Nesting) (a : Node) (e : Expr)
    (ss : List Sign) (h : a.Written (.brace (.ifOpening e) :: ss)) : AlongIf inside n e a ss :=
  match a with
  | .ifBlock e' consequent alternate s => by
    have hs : s = Span.none := h.1
    subst hs
    refine alongIf_ifBlock (fun ss => along_nodes inside n consequent ss) ?_ ?_ h
    · rintro ms rfl ss hms
      exact along_nodes inside n ms ss hms
    · rintro x rfl e' ss hx
      exact along_if inside n x e' ss hx
  | .mustache e s => by
    obtain ⟨-, h⟩ := h
    cases h
  | .message role as children s => by
    obtain ⟨-, name, -, ⟨-, h⟩ | ⟨body, -, h⟩⟩ := h <;> cases h
  | .content kind as children s => by
    obtain ⟨-, name, -, ⟨-, h⟩ | ⟨body, -, h⟩⟩ := h <;> cases h
  | .step as children s => by
    obtain ⟨-, name, -, ⟨-, h⟩ | ⟨body, -, h⟩⟩ := h <;> cases h
  | .eachBlock e context index body alternate s => by
    obtain ⟨-, body, rest, h, -⟩ := h
    cases h
  | .text .. | .config .. | .comment .. | .reference .. | .scoped .. | .response .. => h.elim

theorem along_nodes (inside : List Attribute → List Node) (n : Nesting) (ns : List Node)
    (ss : List Sign) (h : Node.AllWritten ns ss) : Along ss fun c d => Goes inside n c ns d :=
  match ns with
  | [] => by
    cases Node.allWritten_nil.mp h
    exact (along_nil inside).imp fun c d silent => silent.goes
  | a :: rest => by
    obtain ⟨front, back, rfl, ha, hrest⟩ := Node.allWritten_cons.mp h
    refine ((along_node inside n a front ha).append (along_nodes inside n rest back hrest)).imp ?_
    rintro c e ⟨d, goes, goes'⟩
    exact goes.append goes'

end

variable (inside) in
/-- Lexemes to the end of a text write what is read, if anything is. -/
theorem outcome_of_written {ps : List Lexeme} (h : Node.AllWritten ns (Lexeme.signs ps))
    (fits : Lexeme.AllFit [] ps) (hc : c.rest = Lexeme.textAll ps) :
    (Node.AllPlaced n ns → outcome inside n c = some (ns, none)) ∧
      (¬ Node.AllPlaced n ns → outcome inside n c = none) := by
  rw [← List.append_nil (Lexeme.textAll ps)] at hc
  obtain ⟨d, hd, goes⟩ := along_nodes inside n ns _ h ps [] c rfl fits hc
  refine ⟨fun hns => ?_, goes.unplaced⟩
  simp only [goes.placed hns, outcome_end hd, Option.map_some, List.append_nil]

end Template

end PromptTemplate
