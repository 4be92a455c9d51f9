import PromptTemplate.Proofs.Expr.Places
import PromptTemplate.Proofs.Token.Shielding

/-!
# Texts in braces

Between the braces of a tag a text has the tokens that it has alone, as long as no brace in it
closes the tag. They only stand further on in the text.
-/

namespace PromptTemplate

open Text

/-! ## Further on in the first line -/

/-- The place of a text where it begins further on in its first line. -/
def Position.shift (n : Nat) (p : Position) : Position :=
  ⟨p.offset + n, p.line, if p.line = 1 then p.column + n else p.column⟩

/-- The piece of a text where it begins further on in its first line. -/
def Span.shift (n : Nat) (s : Span) : Span :=
  ⟨s.start + n, s.stop + n, s.line, if s.line = 1 then s.column + n else s.column⟩

namespace Position

variable {p : Position}

theorem line_advance (h : 1 ≤ p.line) (cs : List Char) : 1 ≤ (p.advance cs).line := by
  induction cs generalizing p with
  | nil => exact h
  | cons c cs ih =>
    refine ih ?_
    unfold next
    split
    · exact Nat.le_add_left 1 p.line
    · exact h

/-- A line feed leaves the first line, after which columns are as before. -/
theorem shift_next (n : Nat) (h : 1 ≤ p.line) (c : Char) :
    (p.shift n).next c = (p.next c).shift n := by
  by_cases newline : c = '\n'
  · simp [next, shift, newline]
    omega
  · by_cases line : p.line = 1
    · simp [next, shift, newline, line]
      omega
    · simp [next, shift, newline, line]
      omega

theorem shift_advance (n : Nat) (h : 1 ≤ p.line) (cs : List Char) :
    (p.shift n).advance cs = (p.advance cs).shift n := by
  induction cs generalizing p with
  | nil => rfl
  | cons c cs ih =>
    rw [advance_cons, advance_cons, shift_next n h]
    exact ih (line_advance h [c])

end Position

/-- Moving pieces further on. -/
def Span.shifting (n : Nat) : Span.Moving where
  map := Span.shift n
  covers a b := by
    simp only [shift, cover, Nat.add_min_add_right, Nat.add_max_add_right]
    rfl

/-! ## Braces -/

namespace Token

/-- How many braces are open after some tokens. A brace that none has opened would close a tag
around the tokens, and a terminator is none of them. -/
def levelAfter? (level : Nat) : List Token → Option Nat
  | [] => some level
  | t :: ts =>
    if t.kind.isTerminator ∨ (t.kind = .mark .rightBrace ∧ level = 0) then none
    else levelAfter? (depthAfter level t.kind) ts

theorem levelAfter?_cons {level m : Nat} {t : Token} {ts : List Token}
    (h : levelAfter? level (t :: ts) = some m) :
    t.kind.isTerminator = false ∧ ¬ (t.kind = .mark .rightBrace ∧ level = 0) ∧
      levelAfter? (depthAfter level t.kind) ts = some m := by
  rw [levelAfter?] at h
  split at h
  · cases h
  · rename_i inside
    rw [not_or] at inside
    exact ⟨Bool.eq_false_iff.mpr inside.1, inside.2, h⟩

theorem isTerminator_of_isEnd {k : Kind} (h : k.isEnd = true) : k.isTerminator = true := by
  cases k <;> first | rfl | cases h

theorem scan_rightBrace (depth : Nat) (more : List Char) :
    (scan .alone depth '}' more).1 = .mark .rightBrace := by
  have closing : Closing '}' := .inl rfl
  have mark : markAt ('}' :: more) = some .rightBrace := rfl
  simp [scan, closing.isDigit, closing.isIdentifierStart, mark]

/-- A token of a text that stands alone is read in a tag, too, unless it closes the tag. -/
theorem scan_tag {depth : Nat} {c : Char} {taken left : List Char} {k : Kind}
    (h : scan .alone depth c (taken ++ left) = (k, left)) (more : k.isTerminator = false)
    (inside : ¬ (k = .mark .rightBrace ∧ depth = 0)) (rest : List Char) :
    scan .tag depth c (taken ++ (left ++ '}' :: rest)) = (k, left ++ '}' :: rest) := by
  have goes_on : ¬ (c = '}' ∧ Mode.tag = .tag ∧ depth = 0) := by
    rintro ⟨rfl, -, rfl⟩
    have brace := scan_rightBrace 0 (taken ++ left)
    rw [h] at brace
    exact inside ⟨brace, rfl⟩
  have alone (us : List Char) : scan .tag depth c us = scan .alone depth c us := by
    have other : ¬ (c = '}' ∧ Mode.alone = .tag ∧ depth = 0) := by simp
    rw [scan, scan, if_neg goes_on, if_neg other]
  rw [alone]
  exact scan_closing (.inl rfl) h more rest

/-- The tokens of a text that stands alone are those of a tag with the text in it, if all braces
in the text are closed there. The induction is on the length of the text. -/
theorem scanAll_tag (n : Nat) {depth : Nat} {p : Position} (line : 1 ≤ p.line) {cs : List Char}
    {body : List Token} {last : Token} (h : (scanAll .alone depth p cs).1 = body ++ [last])
    (level : levelAfter? depth body = some 0) (ends : last.kind.isEnd = true)
    (rest : List Char) :
    ∃ s, scanAll .tag depth (p.shift n) (cs ++ '}' :: '}' :: rest) =
      (body.map (mapSpan (Span.shift n)) ++ [⟨.tagEnd, s⟩],
        (p.shift n).advance (cs ++ ['}', '}']), rest) := by
  induction length : cs.length using Nat.strongRecOn generalizing depth p cs body with
  | ind len ih =>
    rcases blank_or_token .alone depth cs with
      blank | ⟨blanks, c, taken, left, k, rfl, hblanks, hc, first, shorter⟩
    · rw [scanAll_blank blank] at h
      obtain ⟨rfl, -⟩ := List.append_eq_singleton_iff.mp h.symm |>.resolve_right (by simp)
      obtain rfl : depth = 0 := Option.some.inj level
      rw [scanAll_braces blank]
      exact ⟨_, rfl⟩
    · cases terminates : k.isTerminator with
      | true =>
        rw [scanAll_token hblanks hc, first] at h
        simp only [terminates, if_true] at h
        obtain ⟨-, found⟩ := List.append_eq_singleton_iff.mp h.symm |>.resolve_right (by simp)
        obtain rfl := List.singleton_inj.mp found
        have read : (scan .alone depth c (taken ++ left)).1.isEnd = true := by
          rw [first]
          exact ends
        obtain ⟨-, tagged, -⟩ := eq_braces_of_scan read
        cases tagged
      | false =>
        rw [scanAll_next hblanks hc first terminates] at h
        cases body with
        | nil =>
          obtain ⟨rfl, -⟩ := List.cons.inj h
          rw [isTerminator_of_isEnd ends] at terminates
          cases terminates
        | cons t body =>
          obtain ⟨rfl, after⟩ := List.cons.inj h
          obtain ⟨-, inside, later⟩ := levelAfter?_cons level
          have stop := Position.line_advance line (blanks ++ c :: taken)
          obtain ⟨s, reads⟩ := ih left.length (length ▸ shorter) stop after later rfl
          have again := scan_tag first terminates inside ('}' :: rest)
          have moved := Position.shift_advance n line
          have place : ((p.advance (blanks ++ c :: taken)).shift n).advance (left ++ ['}', '}']) =
              (p.shift n).advance (blanks ++ c :: (taken ++ left) ++ ['}', '}']) := by
            rw [← moved, ← Position.advance_append]
            simp
          have text : blanks ++ c :: (taken ++ left) ++ '}' :: '}' :: rest =
              blanks ++ c :: (taken ++ (left ++ '}' :: '}' :: rest)) := by simp
          rw [place] at reads
          refine ⟨s, ?_⟩
          rw [text, scanAll_next hblanks hc again terminates, moved, moved, reads]
          rfl

end Token

end PromptTemplate
