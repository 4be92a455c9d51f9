import PromptTemplate.Proofs.Template.Fences
import PromptTemplate.Proofs.Template.Stretches
import PromptTemplate.Reference
import Mathlib.Data.List.Infix

/-!
# Texts put into each other

Where a text is put in the place of a reference tag, a mark or an escape can begin in one text
and be completed by the other. If none does, the lexemes of both are read as before.
-/

namespace PromptTemplate

open Text Text.Cursor Template

/-! ## Edges between texts -/

namespace Template

theorem isPrefixOf_append {mark s : List Char} (h : mark.isPrefixOf s = true) (t : List Char) :
    mark.isPrefixOf (s ++ t) = true :=
  List.isPrefixOf_iff_prefix.mpr ((List.isPrefixOf_iff_prefix.mp h).trans (List.prefix_append s t))

theorem any_head?_append {fits : Char → Bool} {s : List Char} (h : s.head?.any fits = true)
    (t : List Char) : (s ++ t).head?.any fits = true := by
  cases s with
  | nil => cases h
  | cons x s => exact h

theorem beginsTag_append {s : List Char} (h : beginsTag s = true) (t : List Char) :
    beginsTag (s ++ t) = true := by
  cases s with
  | nil => cases h
  | cons x s =>
    by_cases slash : x = '/'
    · subst slash
      exact any_head?_append h t
    · simpa [beginsTag, slash] using h

/-- What begins in a text begins in it with anything after it. -/
theorem beginsMark_append {s : List Char} (h : beginsMark s = true) (t : List Char) :
    beginsMark (s ++ t) = true := by
  cases s with
  | nil => cases h
  | cons x s =>
    simp only [beginsMark, beginsMarkup, Bool.or_eq_true, Bool.and_eq_true] at h ⊢
    rcases h with (((h | h) | h) | ⟨angle, h⟩) | ⟨backslash, h⟩
    · exact .inl (.inl (.inl (.inl (isPrefixOf_append h t))))
    · exact .inl (.inl (.inl (.inr (isPrefixOf_append h t))))
    · exact .inl (.inl (.inr (isPrefixOf_append h t)))
    · exact .inl (.inr ⟨angle, beginsTag_append h t⟩)
    · exact .inr ⟨backslash, any_head?_append h t⟩

/-- Whether no mark and no escape begins in a text that is completed by what follows it. -/
def Apart (front back : List Char) : Prop :=
  ∀ s, s <:+ front → s ≠ [] → beginsMark (s ++ back) = true → beginsMark s = true

instance (front back : List Char) : Decidable (Apart front back) :=
  decidable_of_iff (∀ s ∈ front.tails, s ≠ [] → beginsMark (s ++ back) = true → beginsMark s = true)
    (by simp only [Apart, List.mem_tails])

theorem Apart.suffix {front front' back : List Char} (h : Apart front back)
    (suffix : front' <:+ front) : Apart front' back := fun s hs => h s (hs.trans suffix)

variable {ps : List Lexeme} {following back : List Char}

/-- Lexemes are read as before where nothing is completed by what follows them. -/
theorem Lexeme.AllFit.apart (h : AllFit following ps) (apart : Apart (textAll ps) back) :
    AllFit back ps := by
  induction ps with
  | nil => trivial
  | cons p ps ih =>
    obtain ⟨fits, rest⟩ := h
    refine ⟨?_, ih rest (apart.suffix ⟨p.text, rfl⟩)⟩
    cases p with
    | char x =>
      have inside : beginsMark (x :: textAll ps) ≠ true := by
        intro mark
        have mark := beginsMark_append mark following
        rw [List.cons_append, show beginsMark _ = false from fits] at mark
        cases mark
      refine Bool.eq_false_iff.mpr fun mark => inside ?_
      exact apart _ (List.suffix_refl _) (List.cons_ne_nil _ _) mark
    | escape x => exact fits
    | comment used => exact fits
    | sign used s => exact fits

/-! ## First characters -/

theorem mark_of_piecewise {used : List Char} {reads : Cursor → Cursor → Prop}
    (h : Piecewise used reads) : beginsMarkup used = true := by
  obtain ⟨-, -, mark, -⟩ := h (Cursor.start used) [] (List.append_nil used).symm
  exact mark

/-- A mark does not begin with a blank. -/
theorem exists_cons_of_mark {cs : List Char} (mark : beginsMarkup cs = true) :
    ∃ x rest, cs = x :: rest ∧ isBlank x = false := by
  cases cs with
  | nil => cases mark
  | cons x rest =>
    refine ⟨x, rest, rfl, Bool.eq_false_iff.mpr fun blank => ?_⟩
    have other (y : Char) (hy : isBlank y = false) : y ≠ x := by
      rintro rfl
      rw [hy] at blank
      cases blank
    simp [beginsMarkup, List.isPrefixOf, other '/' rfl, other '<' rfl, other '\x7b' rfl,
      (other '<' rfl).symm] at mark

theorem Lexeme.text_ne_nil {p : Lexeme} (h : p.Fits following) : p.text ≠ [] := by
  cases p with
  | char x => exact List.cons_ne_nil _ _
  | escape x => exact List.cons_ne_nil _ _
  | comment used | sign used =>
    obtain ⟨x, rest, hused, -⟩ := exists_cons_of_mark (mark_of_piecewise h)
    rw [text, hused]
    exact List.cons_ne_nil _ _

/-- The blanks at the beginning of a text are lexemes. -/
theorem Lexeme.exists_trimStart (h : AllFit following ps) :
    ∃ qs, textAll qs = trimStart (textAll ps) ∧ AllFit following qs ∧ signs qs = signs ps := by
  have stay {p : Lexeme} {qs : List Lexeme} {x : Char} {rest : List Char} (hp : p.text = x :: rest)
      (hx : isBlank x = false) : textAll (p :: qs) = trimStart (textAll (p :: qs)) := by
    rw [textAll_cons, hp, List.cons_append, trimStart, List.dropWhile_cons_of_neg (by simp [hx])]
  induction ps with
  | nil => exact ⟨[], rfl, trivial, rfl⟩
  | cons p ps ih =>
    cases p with
    | char x =>
      cases blank : isBlank x with
      | true =>
        obtain ⟨qs, text, fits, same⟩ := ih h.2
        refine ⟨qs, ?_, fits, same⟩
        rw [text, textAll_cons, Lexeme.text, List.singleton_append, trimStart, trimStart,
          List.dropWhile_cons_of_pos blank]
      | false => exact ⟨_, stay rfl blank, h, rfl⟩
    | escape x => exact ⟨_, stay rfl rfl, h, rfl⟩
    | comment used | sign used =>
      obtain ⟨x, rest, hused, hx⟩ := exists_cons_of_mark (mark_of_piecewise h.1)
      exact ⟨_, stay hused hx, h, rfl⟩

end Template

namespace Reference

/-- Whether the pieces of a text from an offset on, and what is put between them, are apart from
what follows each. -/
def Seams (source : List Char) (offset : Nat) : List Splice → Prop
  | [] => True
  | s :: rest =>
    Apart ((slice? source offset s.start).getD []) (s.body ++ spliceFrom source s.stop rest) ∧
      Apart s.body (spliceFrom source s.stop rest) ∧ Seams source s.stop rest

instance decidableSeams (source : List Char) :
    ∀ (offset : Nat) (ss : List Splice), Decidable (Seams source offset ss)
  | _, [] => isTrue trivial
  | _, s :: rest =>
    have := decidableSeams source s.stop rest
    inferInstanceAs (Decidable (_ ∧ _ ∧ _))

end Reference

/-! ## Stretches with lexemes in the place of reference tags -/

namespace Template.Stretch

open Reference

/-- What is put in the places of the reference tags of stretches. -/
def splices (body : List Attribute → List Char) (ss : List Stretch) : List Splice :=
  (tags ss).map fun (as, s) => ⟨s.start, s.stop, body as⟩

variable {source front before : List Char} {ps : List Lexeme} {ss : List Stretch} {p : Position}
  {body : List Attribute → List Char} {lexemes : List Attribute → List Lexeme}

variable (body lexemes) in
/-- Stretches that come after some text and some lexemes: the rest of the text with the bodies
in it is the text of the lexemes with others in the place of each reference tag, and they are
read as before if nothing is completed at an edge. -/
theorem spliceFrom_splices
    (htext : source = front ++ (before ++ Lexeme.textAll ps ++ textAll ss))
    (hlocated : Located p ss) (hp : p.offset = byteLength (front ++ (before ++ Lexeme.textAll ps)))
    (hbody : ∀ tag ∈ tags ss, body tag.1 = Lexeme.textAll (lexemes tag.1)) :
    spliceFrom source (byteLength front) (splices body ss) =
      before ++ Lexeme.textAll (ps ++ fillAll lexemes ss) ∧
    (Lexeme.AllFit (textAll ss) ps → AllFit [] ss →
      (∀ tag ∈ tags ss, Lexeme.AllFit [] (lexemes tag.1)) →
      Seams source (byteLength front) (splices body ss) →
        Lexeme.AllFit [] (ps ++ fillAll lexemes ss)) := by
  induction ss generalizing front before ps p with
  | nil =>
    subst htext
    constructor
    · rw [splices, tags_nil, List.map_nil, spliceFrom, cut?_append]
      simp [fillAll]
    · intro fits _ _ _
      simpa [fillAll] using fits
  | cons s ss ih =>
    cases s with
    | kept q =>
      have htext' : source = front ++ (before ++ Lexeme.textAll (ps ++ [q]) ++ textAll ss) := by
        rw [htext]
        simp [text]
      have hp' : (p.advance q.text).offset =
          byteLength (front ++ (before ++ Lexeme.textAll (ps ++ [q]))) := by
        rw [Position.offset_advance, hp]
        simp [byteLength_append, Nat.add_assoc]
      have next := ih htext' hlocated hp' hbody
      have fill : ps ++ fillAll lexemes (.kept q :: ss) = ps ++ [q] ++ fillAll lexemes ss := by
        rw [List.append_assoc]
        rfl
      rw [fill]
      refine ⟨next.1, fun fits hfits hlexemes seams => next.2 ?_ hfits.2 hlexemes seams⟩
      refine Lexeme.allFit_append.mpr ⟨?_, ?_, trivial⟩
      · simpa [text] using fits
      · simpa using hfits.1
    | reference used as s =>
      obtain ⟨⟨-, -, rfl⟩, hlocated⟩ := hlocated
      obtain ⟨hthis, hbody⟩ := List.forall_mem_cons.mp hbody
      have piece : slice? source (byteLength front) p.offset =
          some (before ++ Lexeme.textAll ps) := by
        rw [htext, hp]
        exact slice?_append _ _ _
      have stop : (p.advance used).offset = byteLength (front ++ (before ++ Lexeme.textAll ps ++ used)) := by
        rw [Position.offset_advance, hp, ← byteLength_append, List.append_assoc]
      have htext' : source = front ++ (before ++ Lexeme.textAll ps ++ used) ++
          ([] ++ Lexeme.textAll [] ++ textAll ss) := by
        rw [htext]
        simp [text]
      have hp' : (p.advance used).offset =
          byteLength (front ++ (before ++ Lexeme.textAll ps ++ used) ++
            ([] ++ Lexeme.textAll [])) := by
        rw [stop, Lexeme.textAll_nil, List.append_nil, List.append_nil]
      have next := ih htext' hlocated hp' hbody
      have all : splices body (.reference used as (Span.between p (p.advance used)) :: ss) =
          ⟨p.offset, byteLength (front ++ (before ++ Lexeme.textAll ps ++ used)), body as⟩ ::
            splices body ss := by
        rw [← stop]
        rfl
      have fill : fillAll lexemes (.reference used as (Span.between p (p.advance used)) :: ss) =
          lexemes as ++ fillAll lexemes ss := rfl
      rw [List.nil_append, List.nil_append] at next
      rw [all, fill, spliceFrom, piece, Option.getD_some, next.1, hthis]
      refine ⟨by simp, fun fits hfits hlexemes seams => ?_⟩
      obtain ⟨hlexeme, hlexemes⟩ := List.forall_mem_cons.mp hlexemes
      rw [Seams, piece, Option.getD_some, next.1] at seams
      obtain ⟨edge, edge', seams⟩ := seams
      refine Lexeme.allFit_append.mpr ⟨?_, Lexeme.allFit_append.mpr ⟨?_, ?_⟩⟩
      · rw [Lexeme.textAll_append, List.append_nil]
        exact fits.apart (edge.suffix ⟨before, rfl⟩)
      · rw [List.append_nil]
        exact Lexeme.AllFit.apart hlexeme edge'
      · exact next.2 trivial hfits hlexemes seams

variable (lexemes) in
/-- A line that ends before stretches ends before them with anything in the place of reference
tags. -/
theorem endsLine_fillAll {following : List Char} (fits : AllFit following ss)
    (hlocated : Located p ss) (h : EndsLine (textAll ss)) :
    EndsLine (Lexeme.textAll (fillAll lexemes ss)) := by
  cases ss with
  | nil => exact h
  | cons s ss =>
    cases s with
    | kept q =>
      intro x hx
      refine h x ?_
      cases htext : q.text with
      | nil => exact absurd htext (Lexeme.text_ne_nil fits.1)
      | cons y rest =>
        rw [show fillAll lexemes (.kept q :: ss) = q :: fillAll lexemes ss from rfl,
          Lexeme.textAll_cons, htext] at hx
        rw [textAll_cons, text, htext]
        exact hx
    | reference used as s =>
      obtain ⟨rest, rfl⟩ := List.head?_eq_some_iff.mp hlocated.1.1
      cases h '<' rfl

end Template.Stretch

end PromptTemplate
