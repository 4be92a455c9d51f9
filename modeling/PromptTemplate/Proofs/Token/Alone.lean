import PromptTemplate.Proofs.Expr.Printing
import PromptTemplate.Proofs.Token.Braces

/-!
# The kinds of the tokens of a text

What the tokens of a text that stands alone are does not depend on where the text stands, so
they can be told piece by piece: a text in parentheses has the tokens that it has alone between
two marks, and a name after it is one more token.
-/

namespace PromptTemplate

open Text

/-- A property can be named after a point by any word, keywords included. -/
def isName (s : String) : Bool :=
  s.toList.head?.any isIdentifierStart && s.toList.all isIdentifierPart

/-- A letter is none of the characters of a list without letters, told by their codes. -/
theorem toNat_not_mem_of_start {c : Char} (h : isIdentifierStart c = true) {codes : List Nat}
    (none : ∀ n ∈ codes, isIdentifierStart (Char.ofNat n) = false) : c.toNat ∉ codes := by
  intro code
  have letter := none c.toNat code
  rw [Char.ofNat_toNat, h] at letter
  cases letter

theorem isDigit_eq_false_of_start {c : Char} (h : isIdentifierStart c = true) :
    c.isDigit = false := by
  apply Bool.eq_false_iff.mpr
  intro digit
  have none : ∀ n ∈ List.range' 48 10, isIdentifierStart (Char.ofNat n) = false := by
    decide +kernel
  apply toNat_not_mem_of_start h none
  simp only [Char.isDigit, Bool.and_eq_true, decide_eq_true_eq, UInt32.le_iff_toNat_le,
    ge_iff_le] at digit
  have range : 48 ≤ c.toNat ∧ c.toNat ≤ 57 := digit
  exact List.mem_range'_1.mpr ⟨range.1, by omega⟩

/-- The codes of the blank characters: there are few of them. -/
def blankCodes : List Nat :=
  List.range' 0x9 5 ++ List.range' 0x2000 11 ++
    [0x20, 0x85, 0xA0, 0x1680, 0x2028, 0x2029, 0x202F, 0x205F, 0x3000]

theorem toNat_mem_of_blank {c : Char} (blank : isBlank c = true) : c.toNat ∈ blankCodes := by
  simp only [isBlank, Bool.or_eq_true, Bool.and_eq_true, decide_eq_true_eq, beq_iff_eq] at blank
  simp only [blankCodes, List.mem_append, List.mem_range'_1, List.mem_cons, List.not_mem_nil,
    or_false]
  omega

/-- No blank character is a letter. -/
theorem isBlank_eq_false_of_start {c : Char} (h : isIdentifierStart c = true) :
    isBlank c = false := by
  apply Bool.eq_false_iff.mpr
  intro blank
  exact toNat_not_mem_of_start h (by decide +kernel) (toNat_mem_of_blank blank)

namespace Token

/-- The kinds of the tokens of a text that stands alone. -/
def kinds (cs : List Char) : List Kind := (ofText cs).map (·.kind)

theorem scan_alone (depth depth' : Nat) (c : Char) (cs : List Char) :
    scan .alone depth c cs = scan .alone depth' c cs := by
  simp [scan]

/-- Neither the place of a text nor the braces before it matter for its tokens. -/
theorem kinds_scanAll (depth : Nat) (p : Position) (cs : List Char) :
    (scanAll .alone depth p cs).1.map (·.kind) = kinds cs := by
  suffices ∀ depth' q, (scanAll .alone depth p cs).1.map (·.kind) =
      (scanAll .alone depth' q cs).1.map (·.kind) from this 0 Position.first
  induction length : cs.length using Nat.strongRecOn generalizing depth p cs with
  | ind n ih =>
    intro depth' q
    rcases blank_or_token .alone depth cs with
      blank | ⟨blanks, c, taken, left, k, rfl, hblanks, hc, first, shorter⟩
    · rw [scanAll_blank blank, scanAll_blank blank]
      rfl
    · have first' : scan .alone depth' c (taken ++ left) = (k, left) := by
        rw [scan_alone depth' depth, first]
      cases last : k.isTerminator with
      | true =>
        rw [kinds_last hblanks hc (by rw [first]; exact last),
          kinds_last hblanks hc (by rw [first']; exact last), first, first']
      | false =>
        rw [(kinds_next hblanks hc first last p).1, (kinds_next hblanks hc first' last q).1]
        rw [ih left.length (length ▸ shorter) _ _ left rfl]

theorem kinds_blank {cs : List Char} (h : ∀ x ∈ cs, isBlank x = true) :
    kinds cs = [.inputEnd] := by
  rw [kinds, ofText, scanAll_blank h]
  rfl

section

variable {blanks : List Char} (hblanks : ∀ x ∈ blanks, isBlank x = true)

include hblanks

theorem kinds_first {c : Char} {taken left : List Char} {k : Kind} (hc : isBlank c = false)
    (h : scan .alone 0 c (taken ++ left) = (k, left)) :
    kinds (blanks ++ c :: (taken ++ left)) =
      if k.isTerminator then [k] else k :: kinds left := by
  rw [← kinds_scanAll 0 Position.first]
  cases last : k.isTerminator with
  | true =>
    rw [kinds_last hblanks hc (by rw [h]; exact last), h]
    rfl
  | false =>
    rw [(kinds_next hblanks hc h last _).1, kinds_scanAll]
    rfl

theorem kinds_blanks (cs : List Char) : kinds (blanks ++ cs) = kinds cs := by
  rcases blank_or_token .alone 0 cs with
    blank | ⟨blanks', c, taken, left, k, rfl, hblanks', hc, first, -⟩
  · rw [kinds_blank blank, kinds_blank (List.forall_mem_append.mpr ⟨hblanks, blank⟩)]
  · have all := List.forall_mem_append.mpr ⟨hblanks, hblanks'⟩
    rw [← List.append_assoc, kinds_first all hc first, kinds_first hblanks' hc first]

end

theorem kinds_token {c : Char} {taken left : List Char} {k : Kind} (hc : isBlank c = false)
    (h : scan .alone 0 c (taken ++ left) = (k, left)) (more : k.isTerminator = false) :
    kinds (c :: (taken ++ left)) = k :: kinds left := by
  have first := kinds_first (List.forall_mem_nil _) hc h
  rwa [more] at first

/-- A text is read to its end in front of a closing sign, too. The induction is on the length
of the text. -/
theorem kinds_closing {x : Char} (hx : Closing x) {cs : List Char} {body : List Kind} {last : Kind}
    (h : kinds cs = body ++ [last]) (ends : last.isEnd = true) (rest : List Char) :
    kinds (cs ++ x :: rest) = body ++ kinds (x :: rest) := by
  induction length : cs.length using Nat.strongRecOn generalizing cs body with
  | ind n ih =>
    rcases blank_or_token .alone 0 cs with
      blank | ⟨blanks, c, taken, left, k, rfl, hblanks, hc, first, shorter⟩
    · rw [kinds_blank blank] at h
      obtain ⟨rfl, -⟩ | ⟨-, nothing⟩ := List.append_eq_singleton_iff.mp h.symm
      · exact kinds_blanks blank (x :: rest)
      · cases nothing
    · rw [kinds_first hblanks hc first] at h
      cases more : k.isTerminator with
      | true =>
        -- Only the end of the text is an end here, and no character is read as that.
        rw [more, if_pos rfl] at h
        obtain ⟨rfl, same⟩ | ⟨-, nothing⟩ := List.append_eq_singleton_iff.mp h.symm
        · obtain rfl := List.singleton_inj.mp same
          have read : (scan .alone 0 c (taken ++ left)).1.isEnd = true := by
            rw [first]
            exact ends
          obtain ⟨-, tagged, -⟩ := eq_braces_of_scan read
          cases tagged
        · cases nothing
      | false =>
        rw [more, if_neg Bool.false_ne_true] at h
        cases body with
        | nil =>
          obtain ⟨rfl, -⟩ := List.cons.inj h
          rw [isTerminator_of_isEnd ends] at more
          cases more
        | cons k' body =>
          obtain ⟨rfl, after⟩ := List.cons.inj h
          have text : blanks ++ c :: (taken ++ left) ++ x :: rest =
              blanks ++ c :: (taken ++ (left ++ x :: rest)) := by simp
          rw [text, kinds_first hblanks hc (scan_closing hx first more rest), more,
            if_neg Bool.false_ne_true, ih left.length (length ▸ shorter) after rfl]
          rfl

/-! ## Marks and words -/

/-- What a mark begins with begins no other token, an arrow included. -/
theorem Mark.chars_eq_cons (m : Mark) :
    ∃ c taken, m.chars = c :: taken ∧ isBlank c = false ∧ c.isDigit = false ∧ c ≠ '"' ∧
      c ≠ '\'' ∧ isIdentifierStart c = false ∧ c ≠ '`' ∧
      taken.head?.any Char.isDigit = false ∧
      (c = '=' → taken.head?.any (· == '>') = false) := by
  cases m <;> exact ⟨_, _, rfl, by decide +kernel⟩

/-- A mark is read if it is the longest one and neither a number nor an arrow begins with it. -/
theorem scan_mark_apart (m : Mark) {rest : List Char} (read : markAt (m.chars ++ rest) = some m)
    (apart : ∀ c taken, m.chars = c :: taken →
      (c = '.' → (taken ++ rest).head?.any Char.isDigit = false) ∧
        (c = '=' → (taken ++ rest).head? ≠ some '>')) :
    ∃ c taken, m.chars = c :: taken ∧ isBlank c = false ∧
      scan .alone 0 c (taken ++ rest) = (.mark m, rest) := by
  obtain ⟨c, taken, chars, blank, digit, double, single, letter, tick, -⟩ := Mark.chars_eq_cons m
  obtain ⟨point, arrow⟩ := apart c taken chars
  refine ⟨c, taken, chars, blank, ?_⟩
  have number : ¬ (c.isDigit = true ∨ c = '.' ∧ (taken ++ rest).head?.any Char.isDigit = true) := by
    rintro (h | ⟨dot, h⟩)
    · rw [digit] at h
      cases h
    · rw [point dot] at h
      cases h
  rw [chars, List.cons_append] at read
  have left : (c :: (taken ++ rest)).drop m.chars.length = rest := by
    rw [chars, ← List.cons_append, List.drop_left]
  rw [scan, if_neg (by simp), if_neg number, if_neg (not_or.mpr ⟨double, single⟩),
    if_neg (Bool.eq_false_iff.mp letter), if_neg fun h => arrow h.1 h.2, if_neg tick, read]
  exact congrArg (Kind.mark m, ·) left

theorem kinds_mark (m : Mark) {rest : List Char} (read : markAt (m.chars ++ rest) = some m)
    (apart : ∀ c taken, m.chars = c :: taken →
      (c = '.' → (taken ++ rest).head?.any Char.isDigit = false) ∧
        (c = '=' → (taken ++ rest).head? ≠ some '>')) :
    kinds (m.chars ++ rest) = .mark m :: kinds rest := by
  obtain ⟨c, taken, chars, blank, read⟩ := scan_mark_apart m read apart
  rw [chars]
  exact kinds_token blank read rfl

theorem kinds_leftParen (cs : List Char) : kinds ('(' :: cs) = .mark .leftParen :: kinds cs := by
  refine kinds_mark .leftParen rfl ?_
  rintro c taken ⟨⟩
  exact ⟨fun h => absurd h (by decide), fun h => absurd h (by decide)⟩

theorem kinds_rightParen (cs : List Char) : kinds (')' :: cs) = .mark .rightParen :: kinds cs := by
  refine kinds_mark .rightParen rfl ?_
  rintro c taken ⟨⟩
  exact ⟨fun h => absurd h (by decide), fun h => absurd h (by decide)⟩

theorem kinds_dot {cs : List Char} (h : cs.head?.any Char.isDigit = false) :
    kinds ('.' :: cs) = .mark .dot :: kinds cs := by
  refine kinds_mark .dot rfl ?_
  rintro c taken ⟨⟩
  exact ⟨fun _ => h, fun h => absurd h (by decide)⟩

/-- A name is read to its end. -/
theorem scan_name {s : String} (h : isName s = true) {rest : List Char}
    (ends : rest.head?.any isIdentifierPart = false) :
    ∃ c cs, s.toList = c :: cs ∧ isBlank c = false ∧
      scan .alone 0 c (cs ++ rest) = (.ofName s, rest) := by
  rw [isName, Bool.and_eq_true] at h
  obtain ⟨begins, parts⟩ := h
  cases hs : s.toList with
  | nil => simp [hs] at begins
  | cons c cs =>
    rw [hs] at begins parts
    have start : isIdentifierStart c = true := begins
    refine ⟨c, cs, rfl, isBlank_eq_false_of_start start, ?_⟩
    have other {d : Char} (hd : isIdentifierStart d = false) : c ≠ d := by
      rintro rfl
      rw [start] at hd
      cases hd
    have plain : c ≠ '.' ∧ c ≠ '"' ∧ c ≠ '\'' :=
      ⟨other (by decide +kernel), other (by decide +kernel), other (by decide +kernel)⟩
    have none : rest.takeWhile isIdentifierPart = [] ∧ rest.dropWhile isIdentifierPart = rest := by
      cases rest with
      | nil => exact ⟨rfl, rfl⟩
      | cons d rest => exact ⟨List.takeWhile_cons_of_neg (by simpa using ends),
          List.dropWhile_cons_of_neg (by simpa using ends)⟩
    have fits := List.all_eq_true.mp parts
    have taken : (c :: (cs ++ rest)).takeWhile isIdentifierPart = c :: cs := by
      rw [← List.cons_append, List.takeWhile_append_of_pos fits, none.1, List.append_nil]
    have left : (c :: (cs ++ rest)).dropWhile isIdentifierPart = rest := by
      rw [← List.cons_append, List.dropWhile_append_of_pos fits, none.2]
    have whole : word (c :: (cs ++ rest)) = (.ofName s, rest) := by
      have name : String.ofList (c :: cs) = s := by rw [← hs, String.ofList_toList]
      cases keyword : Keyword.ofWord? (c :: cs) <;>
        simp [word, Kind.ofName, hs, keyword, taken, left, name]
    rw [scan]
    simp only [reduceCtorEq, false_and, and_false, if_false, isDigit_eq_false_of_start start,
      plain, Bool.false_eq_true, or_self, start, if_true]
    exact whole

theorem isTerminator_ofName (s : String) : (Kind.ofName s).isTerminator = false := by
  rw [Kind.ofName]
  split <;> rfl

theorem kinds_name {s : String} (h : isName s = true) :
    kinds s.toList = [.ofName s, .inputEnd] := by
  have ends : ([] : List Char).head?.any isIdentifierPart = false := rfl
  obtain ⟨c, cs, hs, hc, read⟩ := scan_name h ends
  have first := kinds_token hc read (isTerminator_ofName s)
  rw [List.append_nil] at first
  rw [hs, first, kinds_blank (List.forall_mem_nil _)]

/-- The tokens of a text in parentheses with a point and a name after it. -/
theorem kinds_member {s p : String} {body : List Kind} {last : Kind}
    (h : kinds s.toList = body ++ [last]) (ends : last.isEnd = true) (name : isName p = true) :
    kinds ("(" ++ s ++ ")." ++ p).toList =
      .mark .leftParen :: (body ++ .mark .rightParen :: .mark .dot :: [.ofName p, .inputEnd]) := by
  have text : ("(" ++ s ++ ")." ++ p).toList = '(' :: (s.toList ++ ')' :: '.' :: p.toList) := by
    simp
  have letter : p.toList.head?.any Char.isDigit = false := by
    rw [isName, Bool.and_eq_true] at name
    cases hp : p.toList with
    | nil => rfl
    | cons c cs =>
      rw [hp] at name
      exact isDigit_eq_false_of_start name.1
  rw [text, kinds_leftParen, kinds_closing (.inr rfl) h ends, kinds_rightParen, kinds_dot letter,
    kinds_name name]

end Token

end PromptTemplate
