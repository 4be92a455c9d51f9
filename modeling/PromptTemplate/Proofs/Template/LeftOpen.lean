import Mathlib.Logic.Relation
import PromptTemplate.Proofs.Template.Decomposition
import PromptTemplate.Proofs.Template.Rules
import PromptTemplate.Proofs.Template.Spans
import PromptTemplate.Proofs.Template.Unclosed

/-!
# Where a text ends too early

The reader goes over a text from place to place: past a node, into an element, or into a branch
of a block. If the text ends inside a construct at the last of these places, reading fails with
the error for that construct, and reading fails because the text has ended in no other way.
-/

namespace PromptTemplate

open Text Text.Cursor

namespace Template

/-! ## Places of the reader -/

/-- Where nodes are read. -/
structure Place where
  nesting : Nesting
  cursor : Cursor
  /-- The innermost element or block around the nodes, and where it begins. -/
  around : Option (Construct × Cursor)

/-- The nesting in the branches of a block. -/
def BlockKind.inside (n : Nesting) : BlockKind → Nesting
  | .conditional => n
  | .loop => { n with inEach := true }

/-- The kind of the block that a tag begins. -/
def BraceTag.opens? : BraceTag → Option BlockKind
  | .ifOpening _ => some .conditional
  | .eachOpening _ => some .loop
  | _ => none

/-- From where one branch of a block begins to where that branch or one after it does. -/
inductive Branch (kind : BlockKind) (n : Nesting) : Cursor → Cursor → Prop where
  | first (c : Cursor) : Branch kind n c c
  | other {c : Cursor} {d : c.Shorter} {ns : List Node} {s : Span}
      (read : nodes n c = .ok (ns, some (.otherwise none s, d))) : Branch kind n c d.1
  | elseIf {c e : Cursor} {d : c.Shorter} {ns : List Node} {x : Expr} {s : Span}
      (conditional : kind = .conditional)
      (read : nodes n c = .ok (ns, some (.otherwise (some x) s, d)))
      (later : Branch kind n d.1 e) : Branch kind n c e

/-- An opening tag begins at a cursor. -/
structure AtTag (c : Cursor) : Prop where
  angle : c.rest.head? = some '<'
  letter : (c.rest.drop 1).head?.any Char.isAlpha = true

theorem AtTag.rest_ne_nil {c : Cursor} (h : AtTag c) : c.rest ≠ [] := by
  intro empty
  have angle := h.angle
  rw [empty] at angle
  cases angle

/-- From a place to the next one, or to one inside of what is there. -/
inductive Step : Place → Place → Prop where
  | node {n : Nesting} {c : Cursor} {r : Option (Construct × Cursor)} {h : (afterText c).rest ≠ []}
      {a : Node} {d : (afterText c).Shorter} (read : item n (afterText c) h = .ok (.inl a, d)) :
      Step ⟨n, c, r⟩ ⟨n, d.1, r⟩
  | element {n inside : Nesting} {c : Cursor} {r : Option (Construct × Cursor)}
      {h : (afterText c).rest ≠ []} {o : Opening} {d : (afterText c).Shorter} {kind : ElementKind}
      (tag : AtTag (afterText c)) (read : openingTag (afterText c) h = .ok (o, d))
      (known : ElementKind.ofName? o.name = some kind) (enter : kind.enter n = .ok inside)
      (goes_on : o.closed = false) :
      Step ⟨n, c, r⟩ ⟨inside, d.1, some (.element o.name, afterText c)⟩
  | block {n : Nesting} {c e : Cursor} {r : Option (Construct × Cursor)}
      {h : (afterText c).rest ≠ []} {t : BraceTag} {d : (afterText c).Shorter} {kind : BlockKind}
      (front : ['\x7b', '\x7b'].isPrefixOf (afterText c).rest = true)
      (read : braceTag (afterText c) h = .ok (t, d)) (opens : t.opens? = some kind)
      (branch : Branch kind (kind.inside n) d.1 e) :
      Step ⟨n, c, r⟩ ⟨kind.inside n, e, some (.block kind, afterText c)⟩

/-- The marks that begin and end a comment. -/
inductive CommentMarks : List Char → List Char → Prop where
  | block : CommentMarks ['/', '*'] ['*', '/']
  | markup : CommentMarks ['<', '!', '-', '-'] ['-', '-', '>']

/-- The text ends inside a construct at a place, after the nodes there or in one that begins
after the literal text. -/
inductive EndsIn : Place → Construct → Cursor → Prop where
  | around {n : Nesting} {c f : Cursor} {k : Construct} {ns : List Node}
      (read : nodes n c = .ok (ns, none)) : EndsIn ⟨n, c, some (k, f)⟩ k f
  | comment {n : Nesting} {c : Cursor} {r : Option (Construct × Cursor)}
      {opening closing : List Char} (marks : CommentMarks opening closing)
      (front : opening.isPrefixOf (afterText c).rest = true)
      (out : ¬ closing <:+: (afterText c).rest.drop opening.length) :
      EndsIn ⟨n, c, r⟩ (.comment closing) (afterText c)
  | braces {n : Nesting} {c t : Cursor} {r : Option (Construct × Cursor)}
      (front : ['\x7b', '\x7b'].isPrefixOf (afterText c).rest = true)
      (tokens : braceTokens? (afterText c) = some t) (out : RunsOut t) :
      EndsIn ⟨n, c, r⟩ .braces (afterText c)
  | tag {n : Nesting} {c f : Cursor} {r : Option (Construct × Cursor)} {k : Construct}
      (tag : AtTag (afterText c))
      (inside : InTag (afterText c) [] (tagNamed (afterText c)) k f) : EndsIn ⟨n, c, r⟩ k f

/-- The reader comes to a place where the text ends inside a construct. -/
def Arrives (p : Place) (k : Construct) (f : Cursor) : Prop :=
  ∃ q, Relation.ReflTransGen Step p q ∧ EndsIn q k f

theorem EndsIn.arrives {p : Place} {k : Construct} {f : Cursor} (h : EndsIn p k f) :
    Arrives p k f := ⟨p, .refl, h⟩

theorem Arrives.of_step {p q : Place} {k : Construct} {f : Cursor} (step : Step p q)
    (h : Arrives q k f) : Arrives p k f := by
  obtain ⟨r, steps, ends⟩ := h
  exact ⟨r, .head step steps, ends⟩

/-! ## On a text -/

section

variable {source : List Char}

/-- A place of a text. -/
def Place.On (source : List Char) (p : Place) : Prop :=
  p.cursor.On source ∧ ∀ k f, p.around = some (k, f) → f.On source

theorem Branch.on {kind : BlockKind} {n : Nesting} {c d : Cursor} (h : Branch kind n c d)
    (hc : c.On source) : d.On source := by
  induction h with
  | first c => exact hc
  | other read =>
    obtain ⟨_, filled, stop⟩ := read_nodes _ hc _ read
    exact stop.reaches.on
  | elseIf _ read _ ih =>
    obtain ⟨_, filled, stop⟩ := read_nodes _ hc _ read
    exact ih stop.reaches.on

theorem Step.on {p q : Place} (h : Step p q) (hp : p.On source) : q.On source := by
  have text := (hp.1.skip (literal p.cursor.rest).2).on
  cases h with
  | node read => exact ⟨(read_item _ _ text _ read).holds.reaches.on, hp.2⟩
  | element _ read _ _ _ =>
    refine ⟨(holds_of_openingTag text read).reaches.on, fun k f hkf => ?_⟩
    cases hkf
    exact text
  | block _ read _ branch =>
    refine ⟨branch.on (holds_of_braceTag text read).reaches.on, fun k f hkf => ?_⟩
    cases hkf
    exact text

theorem EndsIn.on {p : Place} {k : Construct} {f : Cursor} (h : EndsIn p k f)
    (hp : p.On source) : f.On source := by
  have text := (hp.1.skip (literal p.cursor.rest).2).on
  cases h with
  | around => exact hp.2 _ _ rfl
  | comment | braces => exact text
  | tag _ inside => exact inside.on text (text.skip _).on

theorem on_of_steps {p q : Place} (h : Relation.ReflTransGen Step p q) (hp : p.On source) :
    q.On source := by
  induction h with
  | refl => exact hp
  | tail _ step ih => exact step.on ih

theorem Arrives.on {p : Place} {k : Construct} {f : Cursor} (h : Arrives p k f) (hp : p.On source) :
    f.On source := by
  obtain ⟨q, steps, ends⟩ := h
  exact ends.on (on_of_steps steps hp)

end

/-! ## What the reader comes to -/

/-- What is reported where the reader comes to the end of the text. -/
def Reported (p : Place) (e : Error) : Prop := ∃ k f, Arrives p k f ∧ e = k.unfinished f

theorem EndsIn.reported {p : Place} {k : Construct} {f : Cursor} (h : EndsIn p k f) :
    Reported p (k.unfinished f) := ⟨k, f, h.arrives, rfl⟩

theorem Reported.of_step {p q : Place} {e : Error} (step : Step p q) (h : Reported q e) :
    Reported p e := by
  obtain ⟨k, f, arrives, rfl⟩ := h
  exact ⟨k, f, arrives.of_step step, rfl⟩

theorem code_enter {n : Nesting} {kind : ElementKind} {cause : Cause}
    (h : kind.enter n = .error cause) : cause.code ≠ .unexpectedEof := by
  rw [ElementKind.enter.eq_def] at h
  split at h
  all_goals
    repeat' split at h
    all_goals cases h
    all_goals exact Code.noConfusion

/-- Only the end of the text is reported without a stop. -/
theorem eq_none_of_unexpected {wanted : String} {stop : Option Stop}
    (h : (Stop.unexpected wanted stop).code = .unexpectedEof) : stop = none := by
  rcases stop with _ | (_ | _ | _)
  · rfl
  all_goals cases h

/-- A branch that stops too early is reported because the text has ended only if it has. -/
theorem reported_of_unexpected {α : Type} (kind : BlockKind) {n : Nesting} {c f : Cursor}
    {ns : List Node} {stop : Option (Stop × c.Shorter)} {e : Error} (he : e.code = .unexpectedEof)
    (read : nodes n c = .ok (ns, stop))
    (h : (.error (Stop.unexpected (blockClosing kind.name) (stop.map (·.1))) : Except Error α) =
      .error e) : Reported ⟨n, c, some (.block kind, f)⟩ e := by
  cases h
  obtain rfl := Option.map_eq_none_iff.mp (eq_none_of_unexpected he)
  exact (EndsIn.around read).reported

section

variable {source : List Char} {e : Error}

mutual

theorem reported_nodes (he : e.code = .unexpectedEof) (n : Nesting) {c : Cursor} (hc : c.On source)
    (r : Option (Construct × Cursor)) (h : nodes n c = .error e) : Reported ⟨n, c, r⟩ e := by
  have text := (hc.skip (literal c.rest).2).on
  have shorter := length_skip_le c (literal c.rest).2
  rw [nodes] at h
  dsimp only at h
  split at h
  · cases h
  · rename_i more
    rcases bind_eq_error_iff.mp h with h | ⟨⟨a | stop, d⟩, read, h⟩
    · exact reported_item he n text r h
    · have hd := (read_item n more text _ read).holds.reaches.on
      have further := d.2
      exact (reported_nodes he n hd r (map_eq_error_iff.mp h)).of_step (.node read)
    · cases h
termination_by c.rest.length * 4 + 2

theorem reported_item (he : e.code = .unexpectedEof) (n : Nesting) {c : Cursor}
    (hc : (afterText c).On source) (r : Option (Construct × Cursor))
    {more : (afterText c).rest ≠ []} (h : item n (afterText c) more = .error e) :
    Reported ⟨n, c, r⟩ e := by
  have mark : beginsMarkup (afterText c).rest = true := by
    obtain ⟨_, -, -, -, none | mark⟩ := exists_literal c.rest
    · exact absurd none more
    · exact mark
  rw [item] at h
  split at h
  · rename_i front
    obtain ⟨out, rfl⟩ := (comment_eof_iff (by decide)).mp (map_eq_error_iff.mp h)
    exact (EndsIn.comment .block front out).reported
  · rename_i notComment
    split at h
    · rename_i front
      obtain ⟨out, rfl⟩ := (comment_eof_iff (by decide)).mp (map_eq_error_iff.mp h)
      exact (EndsIn.comment .markup front out).reported
    · rename_i notComment'
      split at h
      · rename_i front
        rcases bind_eq_error_iff.mp h with h | ⟨⟨_ | x | header | _ | _, d, hd⟩, read, h⟩
        · obtain ⟨⟨t, tokens, out⟩, rfl⟩ := (braceTag_eof_iff he).mp h
          exact (EndsIn.braces front tokens out).reported
        · cases h
        · have shorter : d.rest.length < c.rest.length - (literal c.rest).2 := by simpa using hd
          have steps {e : Cursor} (branch : Branch .conditional n d e) :
              Step ⟨n, c, r⟩ ⟨n, e, some (.block .conditional, afterText c)⟩ :=
            .block front read rfl branch
          have text := (holds_of_braceTag hc read).reaches.on
          exact reported_ifRest he steps text (map_eq_error_iff.mp h)
        · have shorter : d.rest.length < c.rest.length - (literal c.rest).2 := by simpa using hd
          have steps {e : Cursor} (branch : Branch .loop { n with inEach := true } d e) :
              Step ⟨n, c, r⟩ ⟨_, e, some (.block .loop, afterText c)⟩ :=
            .block front read rfl branch
          have text := (holds_of_braceTag hc read).reaches.on
          exact reported_eachRest he steps text (map_eq_error_iff.mp h)
        · cases h
        · cases h
      · rename_i notBraces
        split at h
        · have h := map_eq_error_iff.mp h
          rw [closingTag_eq] at h
          split at h
          · cases h
          · cases h
            cases he
        · rename_i notSlash
          obtain ⟨angle, letter⟩ := beginsOpening mark notComment notComment' notBraces notSlash
          exact reported_element he ⟨angle, letter⟩ hc r (map_eq_error_iff.mp h)
termination_by (afterText c).rest.length * 4 + 1

/-- The branches of an if block are places that the reader goes to from where it is. -/
theorem reported_ifRest (he : e.code = .unexpectedEof) {p : Place} {n : Nesting} {f c : Cursor}
    {start : Position} {x : Expr}
    (steps : ∀ {d}, Branch .conditional n c d → Step p ⟨n, d, some (.block .conditional, f)⟩)
    (hc : c.On source) (h : ifRest n start x c = .error e) : Reported p e := by
  rw [ifRest] at h
  rcases bind_eq_error_iff.mp h with h | ⟨⟨body, stop⟩, read, h⟩
  · exact (reported_nodes he n hc _ h).of_step (steps (.first c))
  · obtain ⟨_, -, reads⟩ := read_nodes n hc _ read
    dsimp only at h reads
    split at h
    · cases h
    · rename_i d hd
      have step := steps (.other read)
      rcases bind_eq_error_iff.mp h with h | ⟨⟨other, stop⟩, read, h⟩
      · exact (reported_nodes he n reads.reaches.on _ h).of_step step
      · dsimp only at h
        split at h
        · cases h
        · exact (reported_of_unexpected .conditional he read h).of_step step
    · rename_i d hd
      exact reported_ifRest he (fun branch => steps (.elseIf rfl read branch)) reads.reaches.on
        (map_eq_error_iff.mp h)
    · exact (reported_of_unexpected .conditional he read h).of_step (steps (.first c))
termination_by c.rest.length * 4 + 3

theorem reported_eachRest (he : e.code = .unexpectedEof) {p : Place} {n : Nesting} {f c : Cursor}
    {start : Position} {header : EachHeader}
    (steps : ∀ {d}, Branch .loop { n with inEach := true } c d →
      Step p ⟨{ n with inEach := true }, d, some (.block .loop, f)⟩)
    (hc : c.On source) (h : eachRest n start header c = .error e) : Reported p e := by
  rw [eachRest] at h
  rcases bind_eq_error_iff.mp h with h | ⟨⟨body, stop⟩, read, h⟩
  · exact (reported_nodes he _ hc _ h).of_step (steps (.first c))
  · obtain ⟨_, -, reads⟩ := read_nodes _ hc _ read
    dsimp only at h reads
    split at h
    · cases h
    · rename_i d hd
      have step := steps (.other read)
      rcases bind_eq_error_iff.mp h with h | ⟨⟨other, stop⟩, read, h⟩
      · exact (reported_nodes he _ reads.reaches.on _ h).of_step step
      · dsimp only at h
        split at h
        · cases h
        · exact (reported_of_unexpected .loop he read h).of_step step
    · cases h
      cases he
    · exact (reported_of_unexpected .loop he read h).of_step (steps (.first c))
termination_by c.rest.length * 4 + 3

theorem reported_element (he : e.code = .unexpectedEof) {n : Nesting} {c : Cursor}
    (tag : AtTag (afterText c)) (hc : (afterText c).On source) (r : Option (Construct × Cursor))
    {more : (afterText c).rest ≠ []} (h : element n (afterText c) more = .error e) :
    Reported ⟨n, c, r⟩ e := by
  rw [element] at h
  rcases bind_eq_error_iff.mp h with h | ⟨⟨o, d, hd⟩, read, h⟩
  · obtain ⟨k, f, inside, rfl⟩ := (openingTag_eof_iff hc he).mp h
    exact (EndsIn.tag tag inside).reported
  · dsimp only at h
    split at h
    · cases h
      cases he
    · rename_i kind known
      split at h
      · rename_i refused
        cases h
        exact absurd he (code_enter refused)
      · rename_i inside enter
        split at h
        · cases h
        · rename_i goes_on
          have shorter : d.rest.length < c.rest.length - (literal c.rest).2 := by simpa using hd
          have step : Step ⟨n, c, r⟩ ⟨inside, d, some (.element o.name, afterText c)⟩ :=
            .element tag read known enter (Bool.eq_false_iff.mpr goes_on)
          rcases bind_eq_error_iff.mp h with h | ⟨⟨children, stop⟩, read', h⟩
          · have text := (holds_of_openingTag hc read).reaches.on
            exact (reported_nodes he inside text _ h).of_step step
          · dsimp only at h
            split at h
            · split at h
              · cases h
              · cases h
                cases he
            · cases h
              exact (EndsIn.around read').reported.of_step step
            · rename_i ended
              cases h
              exact absurd (Option.map_eq_none_iff.mp (eq_none_of_unexpected he)) ended
termination_by (afterText c).rest.length * 4

end

end

/-! ## What follows from what the reader comes to -/

/-- Reading fails at a place, or after it because what is around it does not end. -/
def Fails (p : Place) (e : Error) : Prop :=
  nodes p.nesting p.cursor = .error e ∨
    ∃ ns k f, nodes p.nesting p.cursor = .ok (ns, none) ∧ p.around = some (k, f) ∧
      e = k.unfinished f

section

variable {n : Nesting} {c d : Cursor} {r : Option (Construct × Cursor)} {e : Error}

theorem fails_of_item {h : (afterText c).rest ≠ []} (fails : item n (afterText c) h = .error e) :
    Fails ⟨n, c, r⟩ e := by
  left
  rw [nodes]
  dsimp only
  rw [dif_neg h, fails]
  rfl

theorem fails_of_node {h : (afterText c).rest ≠ []} {a : Node} {d : (afterText c).Shorter}
    (read : item n (afterText c) h = .ok (.inl a, d)) (fails : Fails ⟨n, d.1, r⟩ e) :
    Fails ⟨n, c, r⟩ e := by
  rcases fails with fails | ⟨ns, k, f, ended, around, rfl⟩
  · left
    rw [nodes]
    dsimp only
    rw [dif_neg h, read]
    exact map_eq_error_iff.mpr fails
  · have later : listed n d.1 = .ok (ns, none) := by
      rw [listed, ended]
      rfl
    exact .inr ⟨_, k, f, nodes_of_listed_ended (listed_node read later), around, rfl⟩

/-- Whoever reads the nodes inside a construct reports that it does not end. -/
theorem bind_of_fails {α : Type} {k : Construct} {f : Cursor}
    {g : List Node × Option (Stop × c.Shorter) → Except Error α}
    (fails : Fails ⟨n, c, some (k, f)⟩ e)
    (unfinished : ∀ ns, g (ns, none) = .error (k.unfinished f)) : (nodes n c >>= g) = .error e := by
  rcases fails with fails | ⟨ns, k, f, ended, around, rfl⟩
  · rw [fails]
    rfl
  · cases around
    rw [ended]
    exact unfinished ns

theorem rest_ne_nil_of_isPrefixOf {mark : Char} {marks : List Char}
    (front : (mark :: marks).isPrefixOf c.rest = true) : c.rest ≠ [] := by
  intro empty
  rw [empty] at front
  cases front

theorem item_of_comment {h : c.rest ≠ []} {opening closing : List Char}
    (marks : CommentMarks opening closing) (front : opening.isPrefixOf c.rest = true)
    (out : ¬ closing <:+: c.rest.drop opening.length) :
    item n c h = .error ((Construct.comment closing).unfinished c) := by
  cases marks with
  | block =>
    rw [item, if_pos front, map_eq_error_iff]
    exact (comment_eof_iff (by decide)).mpr ⟨out, rfl⟩
  | markup =>
    have other : ¬ ['/', '*'].isPrefixOf c.rest = true := by
      obtain ⟨more, hmore⟩ := List.isPrefixOf_iff_prefix.mp front
      simp [← hmore, List.isPrefixOf]
    rw [item, if_neg other, if_pos front, map_eq_error_iff]
    exact (comment_eof_iff (by decide)).mpr ⟨out, rfl⟩

theorem item_of_braceTag {h : c.rest ≠ []} (front : ['\x7b', '\x7b'].isPrefixOf c.rest = true)
    (fails : braceTag c h = .error e) : item n c h = .error e := by
  obtain ⟨h₁, h₂⟩ := notComment_of_braces front
  rw [item, if_neg h₁, if_neg h₂, if_pos front, fails]
  rfl

theorem item_of_element {h : c.rest ≠ []} (tag : AtTag c) (fails : element n c h = .error e) :
    item n c h = .error e := by
  obtain ⟨h₁, h₂, h₃, h₄⟩ := notSlash_of_letter tag.angle tag.letter
  rw [item, if_neg h₁, if_neg h₂, if_neg h₃, if_neg h₄, fails]
  rfl

theorem element_of_fails {inside : Nesting} {h : c.rest ≠ []} {o : Opening} {d : c.Shorter}
    {kind : ElementKind} (read : openingTag c h = .ok (o, d))
    (known : ElementKind.ofName? o.name = some kind) (enter : kind.enter n = .ok inside)
    (goes_on : o.closed = false) (fails : Fails ⟨inside, d.1, some (.element o.name, c)⟩ e) :
    element n c h = .error e := by
  rw [element, read]
  simp only [bind, Except.bind, known, enter, goes_on, Bool.false_eq_true, if_false]
  exact bind_of_fails fails fun _ => rfl

theorem ifRest_of_fails {f : Cursor} (branch : Branch .conditional n c d)
    (fails : Fails ⟨n, d, some (.block .conditional, f)⟩ e) (start : Position) (x : Expr) :
    ifRest n start x c = .error e := by
  induction branch generalizing start x with
  | first c =>
    rw [ifRest]
    exact bind_of_fails fails fun _ => rfl
  | other read =>
    rw [ifRest, read]
    change (nodes n _ >>= _) = _
    exact bind_of_fails fails fun _ => rfl
  | elseIf _ read _ ih =>
    rw [ifRest, read]
    exact map_eq_error_iff.mpr (ih fails _ _)

theorem eachRest_of_fails {f : Cursor} (branch : Branch .loop { n with inEach := true } c d)
    (fails : Fails ⟨{ n with inEach := true }, d, some (.block .loop, f)⟩ e) (start : Position)
    (header : EachHeader) : eachRest n start header c = .error e := by
  cases branch with
  | first =>
    rw [eachRest]
    exact bind_of_fails fails fun _ => rfl
  | other read =>
    rw [eachRest, read]
    change (nodes _ _ >>= _) = _
    exact bind_of_fails fails fun _ => rfl
  | elseIf conditional _ _ => cases conditional

end

variable {p q : Place} {e : Error}

theorem fails_of_step (step : Step p q) (fails : Fails q e) : Fails p e := by
  cases step with
  | node read => exact fails_of_node read fails
  | element tag read known enter goes_on =>
    exact fails_of_item (item_of_element tag (element_of_fails read known enter goes_on fails))
  | @block n c e' r h t d kind front read opens branch =>
    obtain ⟨h₁, h₂⟩ := notComment_of_braces front
    refine fails_of_item (h := h) ?_
    rw [item, if_neg h₁, if_neg h₂, if_pos front, read]
    cases t with
    | ifOpening x =>
      cases opens
      exact map_eq_error_iff.mpr (ifRest_of_fails branch fails _ x)
    | eachOpening header =>
      cases opens
      exact map_eq_error_iff.mpr (eachRest_of_fails branch fails _ header)
    | output | otherwise | closing => cases opens

theorem fails_of_endsIn {k : Construct} {f : Cursor} {source : List Char} (h : EndsIn p k f)
    (hp : p.cursor.On source) : Fails p (k.unfinished f) := by
  have code := k.code_unfinished f
  have text := (hp.skip (literal p.cursor.rest).2).on
  cases h with
  | around read => exact .inr ⟨_, _, _, read, rfl, rfl⟩
  | @comment n c r opening closing marks front out =>
    have nonempty : (afterText c).rest ≠ [] := by
      cases marks <;> exact rest_ne_nil_of_isPrefixOf front
    exact fails_of_item (h := nonempty) (item_of_comment marks front out)
  | @braces n c t r front tokens out =>
    have nonempty := rest_ne_nil_of_isPrefixOf front
    have tag := (braceTag_eof_iff (h := nonempty) code).mpr ⟨⟨t, tokens, out⟩, rfl⟩
    exact fails_of_item (item_of_braceTag front tag)
  | tag tag inside =>
    have opening :=
      (openingTag_eof_iff (h := tag.rest_ne_nil) text code).mpr ⟨_, _, inside, rfl⟩
    refine fails_of_item (item_of_element (h := tag.rest_ne_nil) tag ?_)
    rw [element, opening]
    rfl

/-- Reading fails where it leads to a place at which it does. -/
theorem fails_of_steps (steps : Relation.ReflTransGen Step p q) (fails : Fails q e) :
    Fails p e := by
  induction steps using Relation.ReflTransGen.head_induction_on with
  | refl => exact fails
  | head step _ ih => exact fails_of_step step ih

/-! ## Whole texts -/

/-- The construct that a text ends inside of, and where it begins. -/
inductive LeftOpen (source : List Char) : Construct → Cursor → Prop where
  | config (out : OpenConfig (start source).skipBlank) :
      LeftOpen source .config (start source).skipBlank
  | nodes {config : Option Node} {c f : Cursor} {k : Construct}
      (front : configBlock (start source) = .ok (config, c))
      (arrives : Arrives ⟨Nesting.none, c, none⟩ k f) : LeftOpen source k f

variable {source : List Char}

theorem on_of_configBlock {config : Option Node} {c : Cursor}
    (h : configBlock (start source) = .ok (config, c)) : c.On source := by
  have read := read_configBlock (on_start source) _ h
  cases config with
  | none =>
    obtain rfl : c = start source := read
    exact on_start source
  | some a => exact read.2.holds.reaches.on

theorem LeftOpen.on {k : Construct} {f : Cursor} (h : LeftOpen source k f) : f.On source := by
  cases h with
  | config => exact (on_start source).skipBlank.on
  | nodes front arrives => exact arrives.on ⟨on_of_configBlock front, fun k f hkf => by cases hkf⟩

/-- Nothing is missing where nothing has been written. -/
theorem read_nil (e : Error) : read [] ≠ .error e := by
  have front : configBlock (start []) = .ok (none, start []) := rfl
  have after : (afterText (start [])).rest = [] := List.drop_nil
  have ended := nodes_of_listed_ended (listed_ended (n := Nesting.none) after)
  rw [read, front]
  dsimp only [bind, Except.bind]
  rw [ended]
  rintro ⟨⟩

theorem read_eof_iff (he : e.code = .unexpectedEof) :
    read source = .error e ↔ ∃ k c, LeftOpen source k c ∧ e = k.unfinished c := by
  rw [read]
  constructor
  · intro h
    rcases bind_eq_error_iff.mp h with h | ⟨⟨config, c⟩, front, h⟩
    · obtain ⟨out, rfl⟩ := (configBlock_eof_iff he).mp h
      exact ⟨_, _, .config out, rfl⟩
    · rcases bind_eq_error_iff.mp h with h | ⟨⟨children, _ | stop⟩, -, h⟩
      · obtain ⟨k, f, arrives, rfl⟩ := reported_nodes he _ (on_of_configBlock front) none h
        exact ⟨k, f, .nodes front arrives, rfl⟩
      · cases h
      · cases h
        cases eq_none_of_unexpected he
  · rintro ⟨k, f, opened, rfl⟩
    cases opened with
    | config out =>
      rw [(configBlock_eof_iff he).mpr ⟨out, rfl⟩]
      rfl
    | nodes front arrives =>
      obtain ⟨q, steps, ends⟩ := arrives
      have first : Place.On source ⟨Nesting.none, _, none⟩ :=
        ⟨on_of_configBlock front, fun k f hkf => by cases hkf⟩
      have hq := on_of_steps steps first
      obtain fails | ⟨_, _, _, _, around, _⟩ := fails_of_steps steps (fails_of_endsIn ends hq.1)
      · rw [front]
        dsimp only [bind, Except.bind]
        rw [fails]
      · cases around

end Template

/-- From the beginning of a construct, or from the end of the text, to the end of the text, with
the line and the column of where that starts. -/
structure Span.ToEnd (source : List Char) (c : Cursor) (s : Span) : Prop where
  start : s.start = c.offset ∨ s.start = byteLength source
  stop : s.stop = byteLength source
  located : Position.ofOffset source s.start = ⟨s.start, s.line, s.column⟩

theorem Span.ToEnd.between {source : List Char} {c : Cursor} {p : Position} (hp : p.In source)
    (start : p.offset = c.offset ∨ p.offset = byteLength source) :
    (Span.between p (Position.first.advance source)).ToEnd source c where
  start := start
  stop := by
    rw [Span.between, Position.offset_advance]
    exact Nat.zero_add _
  located := hp.ofOffset

theorem Template.LeftOpen.toEnd_place_iff {source : List Char} {k : Construct} {c : Cursor}
    (h : LeftOpen source k c) :
    (k.place source c).ToEnd source c ↔ ∀ kind, k ≠ .block kind := by
  have last : (Position.first.advance source).In source := ⟨source, [], by simp, rfl⟩
  have at_end : (Position.first.advance source).offset = byteLength source := by
    rw [Position.offset_advance]
    exact Nat.zero_add _
  have here := h.on.position
  cases k with
  | block kind =>
    refine iff_of_false (fun place => ?_) (fun other => other kind rfl)
    -- A text that ends where it begins has no block in it.
    obtain rfl : source = [] := eq_nil_of_byteLength place.stop.symm
    exact read_nil _ ((read_eof_iff (Construct.code_unfinished _ c)).mpr ⟨_, _, h, rfl⟩)
  | tag => exact iff_of_true (.between last (.inr at_end)) (fun _ => Construct.noConfusion)
  | config | comment | braces | quote | value | element =>
    exact iff_of_true (.between here (.inl rfl)) (fun _ => Construct.noConfusion)

namespace Fragment

open Template

/-- A text is refused because it has ended exactly if something in it is left open. The error is
the one for that. It has the place of what is left open, up to the end of the text, unless that is
an if block or an each block. -/
theorem ofText_eof_iff (source : String) (e : Error) :
    ofText source = .error e ∧ e.code = .unexpectedEof ↔
      ∃ k c, LeftOpen source.toList k c ∧ c.On source.toList ∧
        e = ⟨.endOfInput k.wanted, k.place source.toList c⟩ ∧
          (e.span.ToEnd source.toList c ↔ ∀ kind, k ≠ .block kind) := by
  have located {k : Construct} {c : Cursor} (opened : LeftOpen source.toList k c) :=
    Construct.locate_unfinished opened.on k
  rw [ofText]
  constructor
  · rintro ⟨h, he⟩
    split at h
    · cases h
    · rename_i err read
      cases h
      obtain ⟨k, c, opened, rfl⟩ := (read_eof_iff (e := err) he).mp read
      rw [located opened]
      exact ⟨k, c, opened, opened.on, rfl, opened.toEnd_place_iff⟩
  · rintro ⟨k, c, opened, -, rfl, -⟩
    rw [(read_eof_iff (k.code_unfinished c)).mpr ⟨k, c, opened, rfl⟩]
    exact ⟨congrArg Except.error (located opened), rfl⟩

theorem ofText_eof_iff_comment :
    ∃ source k c, source = "a<user>\n\x7b\x7b#each [b] as c\x7d\x7d\n<!-- d" ∧
      LeftOpen source.toList k c ∧ c.On source.toList ∧ k.wanted = "'-->'" ∧
      k.place source.toList c = ⟨27, 33, 3, 1⟩ := by
  have fails : (ofText "a<user>\n\x7b\x7b#each [b] as c\x7d\x7d\n<!-- d").map (fun _ => ()) =
      .error ⟨.endOfInput "'-->'", ⟨27, 33, 3, 1⟩⟩ := by
    decide +kernel
  obtain ⟨k, c, opened, on, he, -⟩ := (ofText_eof_iff _ _).mp ⟨map_eq_error_iff.mp fails, rfl⟩
  obtain ⟨cause, span⟩ := Error.mk.inj he
  exact ⟨_, k, c, rfl, opened, on, (Cause.endOfInput.inj cause).symm, span.symm⟩

/-- An if block that is left open is not where the error for it is. -/
theorem nowhere_of_open_block :
    ∃ e, ofText "a\x7b\x7b#if b\x7d\x7dc" = .error e ∧ e.code = .unexpectedEof ∧
      e.span.stop ≠ byteLength "a\x7b\x7b#if b\x7d\x7dc".toList ∧
      e.span.start ≠ byteLength "a\x7b\x7b#if b\x7d\x7dc".toList ∧
      e.span.start ≠ byteLength "a".toList := by
  have fails : (ofText "a\x7b\x7b#if b\x7d\x7dc").map (fun _ => ()) =
      .error ⟨.endOfInput (blockClosing "if"), Span.none⟩ := by
    decide +kernel
  exact ⟨_, map_eq_error_iff.mp fails, rfl, by decide, by decide, by decide⟩

end Fragment

end PromptTemplate
