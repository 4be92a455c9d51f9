import PromptTemplate.Proofs.Template.Boundaries
import PromptTemplate.Proofs.Template.Joining
import PromptTemplate.Proofs.Template.Rules
import PromptTemplate.Proofs.Template.Trimming
import PromptTemplate.Proofs.Token.Alone

/-!
# A mark put into literal text

Two texts are read side by side that are the same but for a mark, which stands in one of them
after a blank of literal text. Up to the mark they have the same lexemes, and after it nothing but
places differs.
-/

namespace PromptTemplate

open Text Text.Cursor

namespace Template

/-! ## Marks -/

/-- A comment or a tag, of which a sign is told, stands between two cursors. -/
def Marked (c d : Cursor) : Option Sign → Prop
  | none => beginsMarkup c.rest = true ∧ ReadsComment c d
  | some s => Marks s c d

theorem length_htmlOpening_pos : 0 < ['<', '!', '-', '-'].length := by decide

/-- The mark at a cursor, if it can be read, and the cursor after it. -/
def mark? (c : Cursor) (h : c.rest ≠ []) : Option (Option Sign × Cursor) :=
  if ['/', '*'].isPrefixOf c.rest then
    (comment ['/', '*'] ['*', '/'] c h Nat.two_pos).toOption.map fun r => (none, r.2.1)
  else if ['<', '!', '-', '-'].isPrefixOf c.rest then
    (comment ['<', '!', '-', '-'] ['-', '-', '>'] c h length_htmlOpening_pos).toOption.map fun r =>
      (none, r.2.1)
  else if ['\x7b', '\x7b'].isPrefixOf c.rest then
    (braceTag c h).toOption.map fun r => (some (.brace r.1.bare), r.2.1)
  else if ['<', '/'].isPrefixOf c.rest then
    (closingTag c h).toOption.map fun r => (some (.closing r.1), r.2.1)
  else (openingTag c h).toOption.map fun r => (some (.opening r.1.bare), r.2.1)

variable {c c' d : Cursor} {t : Option Sign}

theorem Marked.begins (h : Marked c d t) : beginsMarkup c.rest = true := by
  cases t with
  | none => exact h.1
  | some s => exact h.1

/-- There is one way to read a mark. -/
theorem Marked.mark? (h : Marked c d t) (hc : c.rest ≠ []) : mark? c hc = some (t, d) := by
  rw [Template.mark?]
  cases t with
  | none =>
    obtain ⟨-, ⟨front, reads⟩ | ⟨front, reads⟩⟩ := h
    · obtain ⟨data, codes, s, hd, read⟩ := reads hc (by decide)
      rw [if_pos front, read]
      rfl
    · obtain ⟨data, codes, s, hd, read⟩ := reads hc (by decide)
      have other : ¬ ['/', '*'].isPrefixOf c.rest = true := by
        obtain ⟨more, hmore⟩ := List.isPrefixOf_iff_prefix.mp front
        simp [← hmore, List.isPrefixOf]
      rw [if_neg other, if_pos front, read]
      rfl
  | some s =>
    obtain ⟨-, reads⟩ := h
    cases s with
    | brace tag =>
      obtain ⟨braces, reads⟩ := reads
      obtain ⟨tag', hd, read, rfl⟩ := reads hc
      obtain ⟨h₁, h₂⟩ := notComment_of_braces braces
      rw [if_neg h₁, if_neg h₂, if_pos braces, read]
      rfl
    | closing name =>
      obtain ⟨slash, reads⟩ := reads
      obtain ⟨hd, read⟩ := reads hc
      obtain ⟨h₁, h₂, h₃⟩ := notBraces_of_slash slash
      rw [if_neg h₁, if_neg h₂, if_neg h₃, if_pos slash, read]
      rfl
    | opening tag =>
      obtain ⟨⟨angle, letter⟩, reads⟩ := reads
      obtain ⟨tag', hd, read, rfl⟩ := reads hc
      obtain ⟨h₁, h₂, h₃, h₄⟩ := notSlash_of_letter angle letter
      rw [if_neg h₁, if_neg h₂, if_neg h₃, if_neg h₄, read]
      rfl

theorem Piecewise.marked {used : List Char} {reads : Cursor → Cursor → Prop}
    (h : Piecewise used reads)
    (himp : ∀ c d, beginsMarkup c.rest = true → reads c d → Marked c d t) :
    Piecewise used fun c d => Marked c d t := by
  intro c more hc
  obtain ⟨d, hd, mark, hreads⟩ := h c more hc
  exact ⟨d, hd, mark, himp c d mark hreads⟩

/-- A mark is read in one piece. -/
theorem Marked.exists_used (h : Marked c d t) :
    ∃ used, c.Takes used d ∧ Piecewise used fun c d => Marked c d t := by
  have some := rest_ne_nil_of_mark h.begins
  cases t with
  | none =>
    obtain ⟨mark, ⟨front, reads⟩ | ⟨front, reads⟩⟩ := h
    all_goals obtain ⟨data, codes, s, hd, read⟩ := reads some (by decide)
    · obtain ⟨used, takes, piecewise⟩ := exists_comment (.inl ⟨rfl, rfl⟩) front read
      exact ⟨used, takes, piecewise.marked fun _ _ => And.intro⟩
    · obtain ⟨used, takes, piecewise⟩ := exists_comment (.inr ⟨rfl, rfl⟩) front read
      exact ⟨used, takes, piecewise.marked fun _ _ => And.intro⟩
  | some s =>
    obtain ⟨mark, reads⟩ := h
    cases s with
    | brace tag =>
      obtain ⟨braces, reads⟩ := reads
      obtain ⟨tag', hd, read, rfl⟩ := reads some
      obtain ⟨used, takes, piecewise⟩ := exists_brace braces read
      exact ⟨used, takes, piecewise.marked fun _ _ => And.intro⟩
    | closing name =>
      obtain ⟨slash, reads⟩ := reads
      obtain ⟨hd, read⟩ := reads some
      obtain ⟨used, takes, piecewise⟩ := exists_closing mark slash read
      exact ⟨used, takes, piecewise.marked fun _ _ => And.intro⟩
    | opening tag =>
      obtain ⟨⟨angle, letter⟩, reads⟩ := reads
      obtain ⟨tag', hd, read, rfl⟩ := reads some
      obtain ⟨used, takes, piecewise⟩ := exists_opening angle letter read
      exact ⟨used, takes, piecewise.marked fun _ _ => And.intro⟩

/-! ## Lexemes before the mark -/

/-- A lexeme of literal text with the character that it stands for. -/
def Lexeme.literal? : Lexeme → Option Char
  | .char x | .escape x => some x
  | _ => none

open Lexeme

variable {ps : List Lexeme} {following : List Char}

theorem Lexeme.Fits.begins {p : Lexeme} {x : Char} (h : p.Fits following)
    (plain : p.literal? = some x) : beginsMarkup (p.text ++ following) = false := by
  cases p with
  | char y =>
    rw [Fits, beginsMark, Bool.or_eq_false_iff] at h
    exact h.1
  | escape y => simp [text, beginsMarkup, List.isPrefixOf]
  | _ => cases plain

/-- A lexeme that is not literal text is a mark. -/
theorem Lexeme.Fits.marked {p : Lexeme} (h : p.Fits following) (mark : p.literal? = none) :
    ∃ t, Piecewise p.text fun c d => Marked c d t := by
  cases p with
  | comment used => exact ⟨none, Piecewise.marked (t := none) h fun _ _ => And.intro⟩
  | sign used s => exact ⟨some s, Piecewise.marked (t := some s) h fun _ _ => And.intro⟩
  | _ => cases mark

/-- Lexemes of literal text are read as their characters. -/
theorem literal_lexemes (plain : ∀ p ∈ ps, p.literal? ≠ none) (fits : AllFit following ps) :
    literal (textAll ps ++ following) =
      (ps.filterMap literal? ++ (literal following).1,
        (textAll ps).length + (literal following).2) := by
  induction ps with
  | nil => simp
  | cons p ps ih =>
    obtain ⟨first, rest⟩ := List.forall_mem_cons.mp plain
    have later := ih rest fits.2
    rw [textAll_cons, List.append_assoc]
    cases p with
    | char x =>
      rw [text, List.singleton_append, literal_char fits.1, later]
      simp [literal?, Nat.add_right_comm]
    | escape x =>
      rw [text, List.cons_append, List.singleton_append, literal_escape fits.1, later]
      simp [literal?, Nat.add_right_comm]
    | _ => exact absurd rfl first

theorem Lexeme.AllFit.begins {p : Lexeme} (h : AllFit following (p :: ps))
    (mark : p.literal? = none) : beginsMarkup (textAll (p :: ps) ++ following) = true := by
  obtain ⟨t, piecewise⟩ := h.1.marked mark
  obtain ⟨-, -, begins, -⟩ := piecewise (Cursor.start (textAll (p :: ps) ++ following))
    (textAll ps ++ following) (by rw [textAll_cons, List.append_assoc]; rfl)
  exact begins

/-- Literal text goes on up to a mark. -/
theorem afterText_lexemes (hc : c.rest = textAll ps ++ following)
    (plain : ∀ p ∈ ps, p.literal? ≠ none) (fits : AllFit following ps)
    (mark : beginsMarkup following = true) :
    (literal c.rest).1 = ps.filterMap literal? ∧ (afterText c).rest = following ∧
      (afterText c).offset = c.offset + byteLength (textAll ps) := by
  have read := literal_lexemes plain fits
  rw [← hc, literal_markup mark, List.append_nil, Nat.add_zero] at read
  refine ⟨by rw [read], ?_, ?_⟩
  · rw [afterText, rest_skip, read, hc, List.drop_left]
  · rw [afterText, (Takes.skip c _).offset, read, hc, List.take_left]

/-- Lexemes begin with some of literal text, after which there is a mark or the end. -/
theorem exists_literal_front (ps : List Lexeme) :
    ∃ front more, ps = front ++ more ∧ (∀ p ∈ front, p.literal? ≠ none) ∧
      ∀ p ∈ more.head?, p.literal? = none := by
  refine ⟨ps.takeWhile (·.literal?.isSome), ps.dropWhile (·.literal?.isSome),
    List.takeWhile_append_dropWhile.symm, fun p hp => ?_, fun p hp => ?_⟩
  · exact Option.isSome_iff_ne_none.mp (List.all_eq_true.mp List.all_takeWhile p hp)
  · have stopped := List.head?_dropWhile_not (·.literal?.isSome) ps
    rw [Option.mem_def.mp hp] at stopped
    simpa using stopped

theorem isAlpha_eq_false_of_blank {x : Char} (hx : isBlank x = true) : x.isAlpha = false := by
  have none : ∀ n ∈ blankCodes, (Char.ofNat n).isAlpha = false := by decide +kernel
  have plain := none x.toNat (toNat_mem_of_blank hx)
  rwa [Char.ofNat_toNat] at plain

theorem isEscapable_eq_false_of_blank {x : Char} (hx : isBlank x = true) :
    isEscapable x = false := by
  refine Bool.eq_false_iff.mpr fun escaped => ?_
  simp only [isEscapable, Bool.or_eq_true, beq_iff_eq] at escaped
  rcases escaped with (((rfl | rfl) | rfl) | rfl) | rfl <;> cases hx

/-- No mark and no escape goes over a blank. -/
theorem beginsMark_blank {x : Char} (hx : isBlank x = true) (cs rest : List Char) :
    beginsMark (cs ++ x :: rest) = beginsMark cs := by
  have other (y : Char) (hy : isBlank y = false) : x ≠ y := by
    rintro rfl
    rw [hx] at hy
    cases hy
  have outside (mark : List Char) (plain : mark.all (!isBlank ·) = true) :
      mark.isPrefixOf (cs ++ x :: rest) = mark.isPrefixOf cs := by
    refine Token.isPrefixOf_stop (fun hmark => ?_) rest
    simpa [hx] using List.all_eq_true.mp plain x hmark
  have slash := outside ['/', '*'] (by decide)
  have angle := outside ['<', '!', '-', '-'] (by decide)
  have braces := outside ['\x7b', '\x7b'] (by decide)
  have letter := isAlpha_eq_false_of_blank hx
  rw [beginsMark, beginsMark, beginsMarkup, beginsMarkup, slash, angle, braces]
  cases cs with
  | nil => simp [other '<' rfl, other '\\' rfl]
  | cons y cs =>
    have escape : (cs ++ x :: rest).head?.any isEscapable = cs.head?.any isEscapable :=
      Token.any_head?_stop (isEscapable_eq_false_of_blank hx) cs rest
    have tag : beginsTag (cs ++ x :: rest) = beginsTag cs := by
      cases cs with
      | nil => simp [beginsTag, other '/' rfl, letter]
      | cons z cs =>
        by_cases hz : z = '/'
        · subst hz
          exact Token.any_head?_stop letter cs rest
        · simp [beginsTag, hz]
    rw [List.cons_append, List.drop_succ_cons, List.drop_zero, List.drop_succ_cons, List.drop_zero,
      escape, tag]
    rfl

/-- Lexemes that end with a blank are read whatever follows them. -/
theorem Lexeme.AllFit.blank {x : Char} {following' : List Char} (h : AllFit following ps)
    (last : ps.getLast? = some (.char x)) (hx : isBlank x = true) : AllFit following' ps := by
  refine h.apart fun s hs some mark => ?_
  obtain ⟨front, rfl⟩ := List.getLast?_eq_some_iff.mp last
  rw [textAll_append, textAll_cons, textAll_nil, List.append_nil, text] at hs
  have ends : s.getLast? = Option.some x := by
    obtain ⟨more, hmore⟩ := hs
    have same := congrArg List.getLast? hmore
    rwa [List.getLast?_append_of_ne_nil _ some, List.getLast?_concat] at same
  obtain ⟨s, rfl⟩ := List.getLast?_eq_some_iff.mp ends
  rw [List.append_assoc, List.singleton_append, beginsMark_blank hx] at mark
  rw [← List.append_nil (s ++ [x]), List.append_assoc, List.singleton_append, beginsMark_blank hx]
  exact mark

/-! ## Cursors side by side -/

/-- Two cursors before the same lexemes, which end with a blank. In the second text something is
put in after them, at an offset. -/
structure Facing (inserted following : List Char) (offset : Nat) (ps : List Lexeme)
    (c c' : Cursor) : Prop where
  rest : c.rest = textAll ps ++ following
  rest' : c'.rest = textAll ps ++ (inserted ++ following)
  fits : AllFit following ps
  last : ∃ x, ps.getLast? = some (.char x) ∧ isBlank x = true
  place : c'.offset + byteLength (textAll ps) = offset

/-- Two cursors with the same text after them, or before what is put in, if that is to come. -/
def Beside (coming : Prop) (inserted following : List Char) (offset : Nat) (c c' : Cursor) : Prop :=
  c'.rest = c.rest ∨ coming ∧ ∃ ps, Facing inserted following offset ps c c'

variable {coming : Prop} {inserted : List Char} {offset : Nat}

theorem Facing.ne_nil (h : Facing inserted following offset ps c c') : ps ≠ [] := by
  rintro rfl
  obtain ⟨x, last, -⟩ := h.last
  cases last

theorem Facing.fits' (h : Facing inserted following offset ps c c') :
    AllFit (inserted ++ following) ps := by
  obtain ⟨x, last, blank⟩ := h.last
  exact h.fits.blank last blank

/-- The first lexeme is the mark at the cursors, if there is one. -/
theorem Facing.marked {p : Lexeme} (h : Facing inserted following offset (p :: ps) c c')
    (mark : Marked c d t) :
    ∃ d', Marked c' d' t ∧ Facing inserted following offset ps d d' := by
  have rest := h.rest
  have rest' := h.rest'
  rw [textAll_cons, List.append_assoc] at rest rest'
  have solid : p.literal? = none := by
    by_contra plain
    obtain ⟨x, plain⟩ := Option.ne_none_iff_exists'.mp plain
    have none := h.fits.1.begins plain
    rw [← rest, mark.begins] at none
    cases none
  -- the lexeme is a mark at both cursors, and at the first one there is no other mark
  obtain ⟨t', piecewise⟩ := h.fits.1.marked solid
  obtain ⟨e, he, -, mark'⟩ := piecewise c _ rest
  obtain ⟨d', hd', -, mark''⟩ := piecewise c' _ rest'
  obtain ⟨rfl, rfl⟩ : t' = t ∧ e = d := by
    have nonempty := rest_ne_nil_of_mark mark.begins
    have same := (mark'.mark? nonempty).symm.trans (mark.mark? nonempty)
    simpa using same
  refine ⟨d', mark'', he, hd', h.fits.2, ?_, ?_⟩
  · obtain ⟨x, last, blank⟩ := h.last
    refine ⟨x, ?_, blank⟩
    cases ps with
    | nil =>
      cases last
      cases solid
    | cons p' ps => rwa [List.getLast?_cons_cons] at last
  · obtain ⟨used, takes, -⟩ := mark''.exists_used
    have same : used = p.text := by
      have whole := takes.rest
      rw [rest', hd'] at whole
      exact (List.append_cancel_right whole).symm
    rw [takes.offset, same, Nat.add_assoc, ← byteLength_append, ← textAll_cons]
    exact h.place

/-- The same mark is read at both cursors, and what follows it is side by side again. -/
theorem Beside.marked (h : Beside coming inserted following offset c c') (mark : Marked c d t) :
    ∃ d', Marked c' d' t ∧ Beside coming inserted following offset d d' := by
  rcases h with same | ⟨come, ps, h⟩
  · obtain ⟨used, takes, piecewise⟩ := mark.exists_used
    obtain ⟨d', hd', -, mark'⟩ := piecewise c' d.rest (same.trans takes.rest)
    exact ⟨d', mark', .inl hd'⟩
  · cases ps with
    | nil => exact absurd rfl h.ne_nil
    | cons p ps =>
      obtain ⟨d', mark', next⟩ := h.marked mark
      exact ⟨d', mark', .inr ⟨come, ps, next⟩⟩

/-- What is put in stands in the literal text at the cursors. -/
structure Meets (inserted following : List Char) (offset : Nat) (c c' : Cursor) : Prop where
  text : ∃ u, u ≠ [] ∧ (literal c.rest).1 = u ++ (literal following).1 ∧ (literal c'.rest).1 = u
  rest : (afterText c).rest = following.drop (literal following).2
  rest' : (afterText c').rest = inserted ++ following
  place : (afterText c').offset = offset

/-- What is put in comes right after the literal text. -/
theorem Facing.meets (h : Facing inserted following offset ps c c')
    (plain : ∀ p ∈ ps, p.literal? ≠ none) (begins : beginsMarkup (inserted ++ following) = true) :
    Meets inserted following offset c c' := by
  have read := literal_lexemes plain h.fits
  rw [← h.rest] at read
  obtain ⟨text', rest', place⟩ := afterText_lexemes h.rest' plain h.fits' begins
  refine ⟨⟨ps.filterMap literal?, ?_, by rw [read], text'⟩, ?_, rest', place.trans h.place⟩
  · obtain ⟨x, last, -⟩ := h.last
    obtain ⟨front, rfl⟩ := List.getLast?_eq_some_iff.mp last
    simp [List.filterMap_append, literal?]
  · rw [afterText, rest_skip, read, h.rest, List.drop_length_add_append]

/-- The literal text is over before what is put in. -/
theorem Facing.passes {front : List Lexeme} {p : Lexeme}
    (h : Facing inserted following offset (front ++ p :: ps) c c')
    (plain : ∀ q ∈ front, q.literal? ≠ none) (mark : p.literal? = none) :
    (literal c'.rest).1 = (literal c.rest).1 ∧
      Facing inserted following offset (p :: ps) (afterText c) (afterText c') := by
  obtain ⟨fits, later⟩ := allFit_append.mp h.fits
  obtain ⟨fits', later'⟩ := allFit_append.mp h.fits'
  have rest := h.rest
  have rest' := h.rest'
  rw [textAll_append, List.append_assoc] at rest rest'
  obtain ⟨text, after, -⟩ := afterText_lexemes rest plain fits (later.begins mark)
  obtain ⟨text', after', place⟩ := afterText_lexemes rest' plain fits' (later'.begins mark)
  refine ⟨text'.trans text.symm, after, after', later, ?_, ?_⟩
  · obtain ⟨x, last, blank⟩ := h.last
    exact ⟨x, by rwa [List.getLast?_append_of_ne_nil _ (List.cons_ne_nil _ _)] at last, blank⟩
  · rw [place, Nat.add_assoc, ← byteLength_append, ← textAll_append]
    exact h.place

/-- The same literal text is read at both cursors, if nothing is put into it. -/
theorem Beside.text (h : Beside coming inserted following offset c c')
    (begins : beginsMarkup (inserted ++ following) = true) :
    coming ∧ Meets inserted following offset c c' ∨ ((literal c'.rest).1 = (literal c.rest).1 ∧
      Beside coming inserted following offset (afterText c) (afterText c') ∧
        ((afterText c).rest = [] → (afterText c').rest = [])) := by
  rcases h with same | ⟨come, ps, h⟩
  · have rest : (afterText c').rest = (afterText c).rest := by
      rw [rest_skip, rest_skip, same]
    exact .inr ⟨by rw [same], .inl rest, rest.trans⟩
  · obtain ⟨front, more, rfl, plain, marks⟩ := exists_literal_front ps
    cases more with
    | nil =>
      rw [List.append_nil] at h
      exact .inl ⟨come, h.meets plain begins⟩
    | cons p more =>
      have mark := marks p rfl
      obtain ⟨same, next⟩ := h.passes plain mark
      refine .inr ⟨same, .inr ⟨come, p :: more, next⟩, fun none => ?_⟩
      have begins := next.fits.begins mark
      rw [← next.rest] at begins
      exact absurd none (rest_ne_nil_of_mark begins)

end Template

end PromptTemplate
