import PromptTemplate.Proofs.Template.Locality
import PromptTemplate.Template.Parser

/-!
# The parts of a template

A template is a list of parts: literal characters, escaped ones, comments and tags. What a
part is does not depend on what stands around it, except that a literal character must not
begin a mark or an escape together with what follows it.
-/

namespace PromptTemplate

open Text Text.Cursor

namespace Template

/-! ## Literal text -/

/-- Whether a mark or an escape begins. -/
def beginsMark (cs : List Char) : Bool :=
  beginsMarkup cs || (cs.head? == some '\\' && (cs.drop 1).head?.any isEscapable)

theorem literal_char {x : Char} {cs : List Char} (h : beginsMark (x :: cs) = false) :
    literal (x :: cs) = (x :: (literal cs).1, (literal cs).2 + 1) := by
  rw [beginsMark, Bool.or_eq_false_iff] at h
  have plain : ¬ (x = '\\' ∧ cs.head?.any isEscapable = true) := by
    rintro ⟨rfl, escaped⟩
    simp [escaped] at h
  rw [literal, if_neg plain, if_neg (by simp [h.1])]

theorem literal_escape {y : Char} (h : isEscapable y = true) (cs : List Char) :
    literal ('\\' :: y :: cs) = (y :: (literal cs).1, (literal cs).2 + 2) := by
  rw [literal, if_pos ⟨rfl, h⟩]
  rfl

theorem literal_markup {cs : List Char} (h : beginsMarkup cs = true) : literal cs = ([], 0) := by
  cases cs with
  | nil => rw [literal]
  | cons x cs =>
    have plain : ¬ (x = '\\' ∧ cs.head?.any isEscapable = true) := by
      rintro ⟨rfl, -⟩
      simp [beginsMarkup, List.isPrefixOf] at h
    rw [literal, if_neg plain, if_pos h]

/-! ## Marks -/

/-- A tag, without the places that it was read from. -/
inductive Sign where
  | brace (tag : BraceTag)
  | opening (tag : Opening)
  | closing (name : String)

/-- The tag of a stop. -/
def Stop.sign : Stop → Sign
  | .otherwise e _ => .brace (.otherwise (e.map Expr.bare))
  | .blockEnd name _ => .brace (.closing name)
  | .tagEnd name _ => .closing name

/-- A tag is read between two cursors. -/
def Sign.Reads (c d : Cursor) : Sign → Prop
  | .brace tag => ['\x7b', '\x7b'].isPrefixOf c.rest = true ∧
      ∀ hc, ∃ tag' h, braceTag c hc = .ok (tag', ⟨d, h⟩) ∧ tag'.bare = tag
  | .closing name => ['<', '/'].isPrefixOf c.rest = true ∧
      ∀ hc, ∃ h, closingTag c hc = .ok (name, ⟨d, h⟩)
  | .opening tag => (c.rest.head? = some '<' ∧ (c.rest.drop 1).head?.any Char.isAlpha = true) ∧
      ∀ hc, ∃ tag' h, openingTag c hc = .ok (tag', ⟨d, h⟩) ∧ tag'.bare = tag

/-- A comment is read between two cursors. -/
def ReadsComment (c d : Cursor) : Prop :=
  (['/', '*'].isPrefixOf c.rest = true ∧ ∀ hc ho, ∃ data codes s h,
      comment ['/', '*'] ['*', '/'] c hc ho = .ok (.comment data codes s, ⟨d, h⟩)) ∨
    (['<', '!', '-', '-'].isPrefixOf c.rest = true ∧ ∀ hc ho, ∃ data codes s h,
      comment ['<', '!', '-', '-'] ['-', '-', '>'] c hc ho = .ok (.comment data codes s, ⟨d, h⟩))

/-- A text is read in one piece, whatever follows it. -/
def Piecewise (used : List Char) (reads : Cursor → Cursor → Prop) : Prop :=
  ∀ c more, c.rest = used ++ more → ∃ d, d.rest = more ∧ beginsMarkup c.rest = true ∧ reads c d

/-! ## Lexemes -/

/-- A part of a text that is read in one piece. -/
inductive Lexeme where
  | char (x : Char)
  | escape (x : Char)
  | comment (used : List Char)
  | sign (used : List Char) (s : Sign)

namespace Lexeme

def text : Lexeme → List Char
  | char x => [x]
  | escape x => ['\\', x]
  | comment used | sign used _ => used

def sign? : Lexeme → Option Sign
  | sign _ s => some s
  | _ => none

/-- Whether a part is read as itself before a text. -/
def Fits (following : List Char) : Lexeme → Prop
  | char x => beginsMark (x :: following) = false
  | escape x => isEscapable x = true
  | comment used => Piecewise used ReadsComment
  | sign used s => Piecewise used fun c d => s.Reads c d

def textAll (ps : List Lexeme) : List Char := ps.flatMap text

def signs (ps : List Lexeme) : List Sign := ps.filterMap sign?

/-- Whether parts are read one after another before a text. -/
def AllFit (following : List Char) : List Lexeme → Prop
  | [] => True
  | p :: rest => p.Fits (textAll rest ++ following) ∧ AllFit following rest

variable {ps qs : List Lexeme} {following : List Char}

@[simp] theorem textAll_nil : textAll [] = [] := rfl

@[simp] theorem textAll_cons (p : Lexeme) (ps : List Lexeme) :
    textAll (p :: ps) = p.text ++ textAll ps := rfl

@[simp] theorem textAll_append (ps qs : List Lexeme) :
    textAll (ps ++ qs) = textAll ps ++ textAll qs := List.flatMap_append

theorem allFit_append :
    AllFit following (ps ++ qs) ↔ AllFit (textAll qs ++ following) ps ∧ AllFit following qs := by
  induction ps with
  | nil => simp [AllFit]
  | cons p ps ih => simp [AllFit, ih, and_assoc]

end Lexeme

open Lexeme

/-- The lexemes of literal text. -/
theorem exists_literal (cs : List Char) :
    ∃ ps, textAll ps = cs.take (literal cs).2 ∧ signs ps = [] ∧
      AllFit (cs.drop (literal cs).2) ps ∧
      (cs.drop (literal cs).2 = [] ∨ beginsMarkup (cs.drop (literal cs).2) = true) := by
  induction n : cs.length using Nat.strongRecOn generalizing cs with
  | ind n ih =>
    cases cs with
    | nil => exact ⟨[], by simp, rfl, trivial, .inl (by simp)⟩
    | cons x cs =>
      cases mark : beginsMarkup (x :: cs) with
      | true =>
        rw [literal_markup mark]
        exact ⟨[], rfl, rfl, trivial, .inr mark⟩
      | false =>
        cases escaped : (x == '\\' && cs.head?.any isEscapable) with
        | true =>
          obtain ⟨rfl, y, rest, rfl, hy⟩ : x = '\\' ∧ ∃ y rest, cs = y :: rest ∧ isEscapable y := by
            cases cs <;> simp_all
          obtain ⟨ps, text, none, fits, stops⟩ := ih rest.length (by rw [← n, List.length_cons, List.length_cons]; omega) rest rfl
          rw [literal_escape hy]
          refine ⟨.escape y :: ps, ?_, none, ⟨hy, fits⟩, stops⟩
          rw [textAll_cons, text]
          rfl
        | false =>
          have plain : beginsMark (x :: cs) = false := by
            simpa [beginsMark, mark] using escaped
          obtain ⟨ps, text, none, fits, stops⟩ := ih cs.length (by simp [← n]) cs rfl
          rw [literal_char plain]
          refine ⟨.char x :: ps, ?_, none, ⟨?_, fits⟩, stops⟩
          · rw [textAll_cons, text]
            rfl
          · rw [text, List.drop_succ_cons, List.take_append_drop]
            exact plain

/-! ## Tags -/

variable {c d : Cursor}

theorem exists_piecewise {reads reads' : Cursor → Cursor → Prop} (h : Local c d reads)
    (himp : ∀ c' d', reads c' d' → beginsMarkup c'.rest = true ∧ reads' c' d') :
    ∃ used, c.Takes used d ∧ Piecewise used reads' := by
  obtain ⟨used, -, takes, again⟩ := h
  refine ⟨used, takes, fun c' more hc' => ?_⟩
  obtain ⟨d', hd', hreads⟩ := again c' more hc'
  exact ⟨d', hd', himp c' d' hreads⟩

theorem exists_brace {tag : BraceTag} {hc : c.rest ≠ []} {h : d.rest.length < c.rest.length}
    (braces : ['\x7b', '\x7b'].isPrefixOf c.rest = true)
    (hread : braceTag c hc = .ok (tag, ⟨d, h⟩)) :
    ∃ used, c.Takes used d ∧ Piecewise used fun c' d' => (Sign.brace tag.bare).Reads c' d' := by
  refine exists_piecewise (local_braceTag hread) ?_
  rintro c' d' ⟨front, reads⟩
  rw [isPrefixOf_pair, ← front, ← isPrefixOf_pair] at braces
  refine ⟨?_, braces, reads⟩
  simp [beginsMarkup, braces]

/-- The first character of a name is as far as it goes in both texts. -/
theorem any_alpha_of_takeWhile {cs cs' : List Char}
    (h : cs'.takeWhile isTagNamePart = cs.takeWhile isTagNamePart)
    (letter : cs.head?.any Char.isAlpha = true) : cs'.head?.any Char.isAlpha = true := by
  cases cs with
  | nil => cases letter
  | cons x cs =>
    have part : isTagNamePart x = true := by
      simp only [List.head?_cons, Option.any_some] at letter
      simp [isTagNamePart, Char.isAlphanum, letter]
    rw [List.takeWhile_cons_of_pos part] at h
    rw [head?_of_takeWhile h]
    exact letter

theorem exists_closing {name : String} {hc : c.rest ≠ []} {h : d.rest.length < c.rest.length}
    (mark : beginsMarkup c.rest = true) (slash : ['<', '/'].isPrefixOf c.rest = true)
    (hread : closingTag c hc = .ok (name, ⟨d, h⟩)) :
    ∃ used, c.Takes used d ∧ Piecewise used fun c' d' => (Sign.closing name).Reads c' d' := by
  obtain ⟨rest, hrest⟩ := List.isPrefixOf_iff_prefix.mp slash
  have letter : (c.rest.drop 2).head?.any Char.isAlpha = true := by
    rw [← hrest] at mark ⊢
    simpa [beginsMarkup, beginsTag, List.isPrefixOf] using mark
  refine exists_piecewise (local_closingTag hread) ?_
  rintro c' d' ⟨front, letters, reads⟩
  have letter' := any_alpha_of_takeWhile letters letter
  rw [isPrefixOf_pair, ← front, ← isPrefixOf_pair] at slash
  refine ⟨?_, slash, reads⟩
  obtain ⟨rest', hrest'⟩ := List.isPrefixOf_iff_prefix.mp slash
  rw [← hrest'] at letter' ⊢
  simpa [beginsMarkup, beginsTag, List.isPrefixOf] using letter'

theorem exists_opening {tag : Opening} {hc : c.rest ≠ []} {h : d.rest.length < c.rest.length}
    (angle : c.rest.head? = some '<') (letter : (c.rest.drop 1).head?.any Char.isAlpha = true)
    (hread : openingTag c hc = .ok (tag, ⟨d, h⟩)) :
    ∃ used, c.Takes used d ∧ Piecewise used fun c' d' => (Sign.opening tag.bare).Reads c' d' := by
  refine exists_piecewise (local_openingTag hread) ?_
  rintro c' d' ⟨front, letters, reads⟩
  have letter' := any_alpha_of_takeWhile letters letter
  have angle' := (head?_of_take front).trans angle
  refine ⟨?_, ⟨angle', letter'⟩, reads⟩
  obtain ⟨rest', hrest'⟩ := List.head?_eq_some_iff.mp angle'
  rw [hrest'] at letter' ⊢
  cases rest' with
  | nil => cases letter'
  | cons x rest' =>
    have name : x ≠ '/' := by
      rintro rfl
      cases letter'
    simp_all [beginsMarkup, beginsTag]

theorem exists_comment {a : Node} {hc : c.rest ≠ []} {h : d.rest.length < c.rest.length}
    {opening closing : List Char} {ho : 0 < opening.length}
    (hmark : opening = ['/', '*'] ∧ closing = ['*', '/'] ∨
      opening = ['<', '!', '-', '-'] ∧ closing = ['-', '-', '>'])
    (front : opening.isPrefixOf c.rest = true)
    (hread : comment opening closing c hc ho = .ok (a, ⟨d, h⟩)) :
    ∃ used, c.Takes used d ∧ Piecewise used ReadsComment := by
  have prefixed (cs : List Char) :
      opening.isPrefixOf cs = true ↔ cs.take opening.length = opening := by
    rw [List.isPrefixOf_iff_prefix, List.prefix_iff_eq_take, eq_comm]
  have some : 0 < closing.length := by
    rcases hmark with ⟨-, rfl⟩ | ⟨-, rfl⟩ <;> decide
  refine exists_piecewise (local_comment some hread) ?_
  rintro c' d' ⟨front', reads⟩
  rw [prefixed, ← front', ← prefixed] at front
  rcases hmark with ⟨rfl, rfl⟩ | ⟨rfl, rfl⟩
  · exact ⟨by simp [beginsMarkup, front], .inl ⟨front, fun hc _ => reads hc⟩⟩
  · exact ⟨by simp [beginsMarkup, front], .inr ⟨front, fun hc _ => reads hc⟩⟩

end Template

end PromptTemplate
