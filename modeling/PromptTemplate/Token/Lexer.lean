import PromptTemplate.Number.Reading
import PromptTemplate.Text.Letter
import PromptTemplate.Token.Basic

/-!
# Reading tokens

A token is read off the front of a text, after its blank characters; the reader sees
its first character and what follows, and returns the token with the rest. In a tag
the reader stops at two closing braces that no brace inside the tag has opened, so
that object literals can stand in tags. Of two marks that fit, the longer is read.
-/

namespace PromptTemplate.Token

open Text

/-- What a text is read as: an expression alone, or the inside of a tag. -/
inductive Mode where
  | alone
  | tag
deriving DecidableEq, Repr

/-! ## Numbers -/

/-- Digits after a point, with the point. -/
def fraction : List Char → List Char × List Char
  | '.' :: cs => ('.' :: cs.takeWhile Char.isDigit, cs.dropWhile Char.isDigit)
  | cs => ([], cs)

/-- An exponent, if one with a digit follows. -/
def exponent : List Char → List Char × List Char
  | [] => ([], [])
  | e :: cs =>
    if e = 'e' ∨ e = 'E' then
      match cs with
      | [] => ([], [e])
      | c :: more =>
        if c.isDigit then (e :: cs.takeWhile Char.isDigit, cs.dropWhile Char.isDigit)
        else if (c = '+' ∨ c = '-') ∧ more.head?.any Char.isDigit then
          (e :: c :: more.takeWhile Char.isDigit, more.dropWhile Char.isDigit)
        else ([], e :: cs)
    else ([], e :: cs)

/-- The longest decimal literal at the front, which may lack digits on one side of its
point. -/
def decimal (cs : List Char) : List Char × List Char :=
  let whole := cs.takeWhile Char.isDigit
  let (part, rest) := fraction (cs.dropWhile Char.isDigit)
  let (power, rest) := exponent rest
  (whole ++ part ++ power, rest)

/-- An integer of an announced base, or a decimal literal. A decimal literal is not
directly followed by a letter; other bases simply end. -/
def number (cs : List Char) : Kind × List Char :=
  match Number.announcedBase cs with
  | some base =>
    let digits := (cs.drop 2).takeWhile (Number.isDigitOf base)
    let rest := (cs.drop 2).dropWhile (Number.isDigitOf base)
    match Number.natural? base (Nat.pow 2 64) digits with
    | some n => (.number (Float.ofNat n), rest)
    | none => (.invalid (.invalidNumber (String.ofList (cs.take 2 ++ digits))), rest)
  | none =>
    let (literal, rest) := decimal cs
    let invalid : Kind := .invalid (.invalidNumber (String.ofList literal))
    if rest.head?.any isIdentifierStart then (invalid, rest.drop 1)
    else
      match Number.decimal? literal with
      | some x => (.number x, rest)
      | none => (invalid, rest)

/-! ## Strings -/

/-- The text that an escaped character other than a number stands for. -/
def escaped (c : Char) : List Char :=
  match c with
  | 'n' => ['\n']
  | 't' => ['\t']
  | 'r' => ['\r']
  | 'b' => [Char.ofNat 8]
  | 'f' => [Char.ofNat 12]
  | 'v' => [Char.ofNat 11]
  | '0' => [Char.ofNat 0]
  | '\n' => []
  | c => [c]

/-- The character of a code point. -/
def scalar? (n : Nat) : Option Char :=
  if h : n.isValidChar then some (Char.ofNatAux n h) else none

/-- The character of an escape by number: four digits, or any number of them in
braces. -/
def numbered : List Char → Option Char × List Char
  | '{' :: cs =>
    let digits := cs.takeWhile (· ≠ '}')
    ((Number.natural? 16 (Nat.pow 2 32) digits).bind scalar?, (cs.dropWhile (· ≠ '}')).drop 1)
  | cs =>
    if cs.length < 4 then (none, [])
    else ((Number.natural? 16 (Nat.pow 2 32) (cs.take 4)).bind scalar?, cs.drop 4)

theorem length_numbered_le (cs : List Char) : (numbered cs).2.length ≤ cs.length := by
  unfold numbered
  split
  · rename_i cs
    have := (List.dropWhile_suffix (l := cs) fun c => decide (c ≠ '}')).length_le
    simp only [List.length_drop, List.length_cons]
    omega
  · split <;> simp

/-- The rest of a string literal after its opening quote. -/
def stringBody (quote : Char) : List Char → Except LexicalFault (List Char) × List Char
  | [] => (.error .unterminatedString, [])
  | c :: cs =>
    if c = '\n' then (.error .unterminatedString, c :: cs)
    else if c = quote then (.ok [], cs)
    else if c = '\\' then
      match cs with
      | [] => (.error .unterminatedString, [])
      | d :: more =>
        if d = 'u' then
          match (numbered more).1 with
          | some x =>
            let tail := stringBody quote (numbered more).2
            (tail.1.map (x :: ·), tail.2)
          | none => (.error .invalidEscape, (numbered more).2)
        else
          let tail := stringBody quote more
          (tail.1.map (escaped d ++ ·), tail.2)
    else
      let tail := stringBody quote cs
      (tail.1.map (c :: ·), tail.2)
termination_by cs => cs.length
decreasing_by
  · have := length_numbered_le more
    simp only [List.length_cons]
    omega
  · simp only [List.length_cons]; omega
  · simp

def string (quote : Char) (cs : List Char) : Kind × List Char :=
  match stringBody quote cs with
  | (.ok body, rest) => (.string (String.ofList body), rest)
  | (.error fault, rest) => (.invalid fault, rest)

/-! ## Words and marks -/

def word (cs : List Char) : Kind × List Char :=
  let name := cs.takeWhile isIdentifierPart
  let kind : Kind :=
    match Keyword.ofWord? name with
    | some k => .keyword k
    | none => .identifier (String.ofList name)
  (kind, cs.dropWhile isIdentifierPart)

/-- Between a question mark and a digit a point belongs to the digit. -/
def markAt (cs : List Char) : Option Mark :=
  match Mark.longest? cs with
  | some .questionDot =>
    if (cs.drop 2).head?.any Char.isDigit then some .question else some .questionDot
  | m => m

/-- Reads the token that begins with a character. -/
def scan (mode : Mode) (depth : Nat) (c : Char) (cs : List Char) : Kind × List Char :=
  if c = '}' ∧ mode = .tag ∧ depth = 0 then
    if cs.head? = some '}' then (.tagEnd, cs.drop 1)
    else (.invalid (.unexpectedCharacter c), cs)
  else if c.isDigit ∨ (c = '.' ∧ cs.head?.any Char.isDigit) then number (c :: cs)
  else if c = '"' ∨ c = '\'' then string c cs
  else if isIdentifierStart c then word (c :: cs)
  else if c = '=' ∧ cs.head? = some '>' then (.invalid .arrowFunction, cs.drop 1)
  else if c = '`' then (.invalid .templateLiteral, cs)
  else
    match markAt (c :: cs) with
    | some m => (.mark m, (c :: cs).drop m.chars.length)
    | none => (.invalid (.unexpectedCharacter c), cs)

/-! ## Progress -/

theorem length_fraction_le (cs : List Char) : (fraction cs).2.length ≤ cs.length := by
  unfold fraction
  split
  · exact Nat.le_succ_of_le (List.dropWhile_suffix _).length_le
  · exact Nat.le_refl _

theorem length_exponent_le (cs : List Char) : (exponent cs).2.length ≤ cs.length := by
  unfold exponent
  split
  · exact Nat.le_refl _
  · rename_i e cs
    split
    · split
      · simp
      · rename_i c more
        split
        · exact Nat.le_succ_of_le (List.dropWhile_suffix _).length_le
        · split
          · exact Nat.le_succ_of_le (Nat.le_succ_of_le (List.dropWhile_suffix _).length_le)
          · exact Nat.le_refl _
    · exact Nat.le_refl _

theorem length_decimal_le {c : Char} {cs : List Char} (h : c.isDigit = true ∨ c = '.') :
    (decimal (c :: cs)).2.length ≤ cs.length := by
  have powers := length_exponent_le (fraction ((c :: cs).dropWhile Char.isDigit)).2
  refine Nat.le_trans powers ?_
  by_cases digit : c.isDigit = true
  · rw [List.dropWhile_cons_of_pos digit]
    exact Nat.le_trans (length_fraction_le _) (List.dropWhile_suffix _).length_le
  · obtain rfl : c = '.' := h.resolve_left digit
    rw [List.dropWhile_cons_of_neg digit]
    exact (List.dropWhile_suffix _).length_le

theorem length_number_le {c : Char} {cs : List Char} (h : c.isDigit = true ∨ c = '.') :
    (number (c :: cs)).2.length ≤ cs.length := by
  have body : (decimal (c :: cs)).2.length ≤ cs.length := length_decimal_le h
  unfold number
  split
  · rename_i base _
    have rest := (List.dropWhile_suffix (l := (c :: cs).drop 2) (Number.isDigitOf base)).length_le
    have two : ((c :: cs).drop 2).length ≤ cs.length := by simp
    dsimp only
    split <;> exact Nat.le_trans rest two
  · dsimp only
    split
    · simp only [List.length_drop]; omega
    · split <;> exact body

theorem length_stringBody_le (quote : Char) (cs : List Char) :
    (stringBody quote cs).2.length ≤ cs.length := by
  fun_induction stringBody quote cs with
  | case1 | case2 | case3 | case4 => simp
  | case5 more x _ tail _ _ ih =>
    have := length_numbered_le more
    simp only [List.length_cons]
    exact Nat.le_trans ih (by omega)
  | case6 more =>
    have := length_numbered_le more
    simp only [List.length_cons]
    omega
  | case7 d more _ tail _ _ ih => exact Nat.le_trans ih (by simp only [List.length_cons]; omega)
  | case8 c more _ _ _ tail ih => exact Nat.le_trans ih (by simp)

theorem length_string_le (quote : Char) (cs : List Char) :
    (string quote cs).2.length ≤ cs.length := by
  have body := length_stringBody_le quote cs
  unfold string
  split <;> simp_all

theorem length_word_le {c : Char} {cs : List Char} (h : isIdentifierStart c = true) :
    (word (c :: cs)).2.length ≤ cs.length := by
  have part : isIdentifierPart c = true := by simp [isIdentifierPart, h]
  simp only [word, List.dropWhile_cons_of_pos part]
  exact (List.dropWhile_suffix _).length_le

/-- A token takes at least its first character off the text. -/
theorem length_scan_le (mode : Mode) (depth : Nat) (c : Char) (cs : List Char) :
    (scan mode depth c cs).2.length ≤ cs.length := by
  unfold scan
  split
  · split <;> simp
  · split
    · rename_i h
      exact length_number_le (h.imp_right And.left)
    · split
      · exact length_string_le c cs
      · split
        · rename_i h
          exact length_word_le h
        · split
          · simp
          · split
            · exact Nat.le_refl _
            · split
              · rename_i m _
                have := List.length_pos_iff.2 m.chars_ne_nil
                simp only [List.length_drop, List.length_cons]
                omega
              · exact Nat.le_refl _

/-! ## Token lists -/

/-- How many braces are open after a token. -/
def depthAfter (depth : Nat) : Kind → Nat
  | .mark .leftBrace => depth + 1
  | .mark .rightBrace => depth - 1
  | _ => depth

/-- The tokens of a text that begins at a place, up to and with the terminator, and
the place and the text after it. -/
def scanAll (mode : Mode) (depth : Nat) (p : Position) (cs : List Char) :
    List Token × Position × List Char :=
  let start := p.advance (cs.takeWhile isBlank)
  match _h : cs.dropWhile isBlank with
  | [] => ([⟨.inputEnd, Span.between start start⟩], start, [])
  | c :: more =>
    let scanned := scan mode depth c more
    let stop := start.advance (c :: more.take (more.length - scanned.2.length))
    let token : Token := ⟨scanned.1, Span.between start stop⟩
    if scanned.1.isTerminator then ([token], stop, scanned.2)
    else
      let (tokens, after) := scanAll mode (depthAfter depth scanned.1) stop scanned.2
      (token :: tokens, after)
termination_by cs.length
decreasing_by
  have blanks := (List.dropWhile_suffix (l := cs) isBlank).length_le
  have token := length_scan_le mode depth c more
  simp_all only [List.length_cons]
  omega

/-- The tokens of an expression that stands alone. -/
def ofText (cs : List Char) : List Token :=
  (scanAll .alone 0 Position.first cs).1

/-- The tokens inside a tag, from just after its opening braces. -/
def ofTag (p : Position) (cs : List Char) : List Token × Position × List Char :=
  scanAll .tag 0 p cs

theorem length_scanAll_le (mode : Mode) (depth : Nat) (p : Position) (cs : List Char) :
    (scanAll mode depth p cs).2.2.length ≤ cs.length := by
  fun_induction scanAll mode depth p cs with
  | case1 => simp
  | case2 depth p cs start c more h scanned =>
    have blanks := (List.dropWhile_suffix (l := cs) isBlank).length_le
    have token : scanned.2.length ≤ more.length := length_scan_le mode depth c more
    rw [h, List.length_cons] at blanks
    exact Nat.le_trans token (Nat.le_of_lt blanks)
  | case3 depth p cs start c more h scanned stop token _ tokens after heq ih =>
    have blanks := (List.dropWhile_suffix (l := cs) isBlank).length_le
    have token : scanned.2.length ≤ more.length := length_scan_le mode depth c more
    rw [h, List.length_cons] at blanks
    rw [heq] at ih
    exact Nat.le_trans (Nat.le_trans ih token) (Nat.le_of_lt blanks)

theorem length_ofTag_le (p : Position) (cs : List Char) :
    (ofTag p cs).2.2.length ≤ cs.length :=
  length_scanAll_le .tag 0 p cs

end PromptTemplate.Token
