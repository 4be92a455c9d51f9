import PromptTemplate.Json.Basic
import PromptTemplate.Number.Reading

/-!
# Reading JSON text

Each reader takes what it reads off the front and returns the rest. A reader of values
shows that its rest is shorter, which bounds the readers of lists. Lists and
objects may be nested less than `nestingLimit` deep. A number without a fraction
and an exponent is an integer as long as it is in range and no minus stands before
a zero; any other number is a double, and one too large for the doubles is refused.
-/

namespace PromptTemplate.Json

def nestingLimit : Nat := 128

def isSpace (c : Char) : Bool :=
  c == ' ' || c == '\n' || c == '\t' || c == '\r'

def skipSpace (cs : List Char) : List Char := cs.dropWhile isSpace

/-- What is left of a text from which something has been taken. -/
abbrev Shorter (cs : List Char) := { rest : List Char // rest.length < cs.length }

theorem length_skipSpace_le (cs : List Char) : (skipSpace cs).length ≤ cs.length :=
  (List.dropWhile_suffix _).length_le

/-- Takes a fixed word off the front. -/
def expect? : List Char → List Char → Option (List Char)
  | [], cs => some cs
  | w :: ws, c :: cs => if w = c then expect? ws cs else none
  | _ :: _, [] => none

theorem length_expect? {word cs rest : List Char} (h : expect? word cs = some rest) :
    rest.length + word.length = cs.length := by
  fun_induction expect? word cs <;> simp_all
  omega

/-- The value of a fixed word. -/
def word? (word : String) (a : Json) (cs : List Char) : Option (Json × List Char) :=
  (expect? word.toList cs).map fun rest => (a, rest)

/-! ## Strings -/

/-- The number of exactly four hexadecimal digits. -/
def fourDigits? : List Char → Option (Nat × List Char)
  | a :: b :: c :: d :: rest =>
    if [a, b, c, d].all (Number.isDigitOf 16) then some (Number.ofDigits 16 [a, b, c, d], rest)
    else none
  | _ => none

theorem length_fourDigits? {cs rest : List Char} {n : Nat}
    (h : fourDigits? cs = some (n, rest)) : rest.length < cs.length := by
  unfold fourDigits? at h
  split at h
  · split at h
    · obtain ⟨rfl, rfl⟩ := Prod.mk.injEq .. ▸ Option.some.inj h
      simp only [List.length_cons]; omega
    · simp at h
  · simp at h

/-- The character of an escape by number. A number from the lower half of the
surrogates has to be followed by one from the upper half. -/
def numbered? (cs : List Char) : Option (Char × List Char) :=
  match fourDigits? cs with
  | none => none
  | some (n, rest) =>
    if 0xD800 ≤ n ∧ n < 0xDC00 then
      match rest with
      | '\\' :: 'u' :: more =>
        match fourDigits? more with
        | some (m, rest) =>
          if 0xDC00 ≤ m ∧ m < 0xE000 then
            some (Char.ofNat (0x10000 + (n - 0xD800) * 0x400 + (m - 0xDC00)), rest)
          else none
        | none => none
      | _ => none
    else if 0xDC00 ≤ n ∧ n < 0xE000 then none
    else some (Char.ofNat n, rest)

theorem length_numbered? {cs rest : List Char} {c : Char}
    (h : numbered? cs = some (c, rest)) : rest.length < cs.length := by
  unfold numbered? at h
  grind [→ length_fourDigits?]

def simpleEscape? (c : Char) : Option Char :=
  match c with
  | '"' => some '"'
  | '\\' => some '\\'
  | '/' => some '/'
  | 'b' => some (Char.ofNat 8)
  | 'f' => some (Char.ofNat 12)
  | 'n' => some '\n'
  | 'r' => some '\r'
  | 't' => some '\t'
  | _ => none

/-- The next character of a string, or none at its closing quote. -/
def stringStep? : List Char → Option (Option Char × List Char)
  | '"' :: rest => some (none, rest)
  | '\\' :: 'u' :: rest => (numbered? rest).map fun (c, r) => (some c, r)
  | '\\' :: c :: rest => (simpleEscape? c).map fun d => (some d, rest)
  | c :: rest => if c.toNat < 32 ∨ c = '\\' then none else some (some c, rest)
  | [] => none

theorem length_stringStep? {cs rest : List Char} {c : Option Char}
    (h : stringStep? cs = some (c, rest)) : rest.length < cs.length := by
  unfold stringStep? at h
  grind [→ length_numbered?, = Option.map_eq_some_iff]

/-- The rest of a string after its opening quote. -/
def stringBody? (cs : List Char) : Option (List Char × List Char) :=
  match _h : stringStep? cs with
  | none => none
  | some (none, rest) => some ([], rest)
  | some (some c, rest) => (stringBody? rest).map fun (s, r) => (c :: s, r)
termination_by cs.length
decreasing_by exact length_stringStep? _h

theorem length_stringBody? {cs rest s : List Char} (h : stringBody? cs = some (s, rest)) :
    rest.length < cs.length := by
  fun_induction stringBody? cs generalizing s with
  | case1 => simp at h
  | case2 => grind [→ length_stringStep?, = Option.map_eq_some_iff]
  | case3 => grind [→ length_stringStep?, = Option.map_eq_some_iff]

def string? : List Char → Option (String × List Char)
  | '"' :: rest => (stringBody? rest).map fun (s, r) => (String.ofList s, r)
  | _ => none

theorem length_string? {cs rest : List Char} {s : String} (h : string? cs = some (s, rest)) :
    rest.length < cs.length := by
  unfold string? at h
  grind [→ length_stringBody?, = Option.map_eq_some_iff]

/-! ## Numbers -/

/-- A whole part has no zero before its other digits. -/
def wholeDigits? (cs : List Char) : Option (List Char × List Char) :=
  let ds := cs.takeWhile Char.isDigit
  if ds.isEmpty || (ds.head? == some '0' && 1 < ds.length) then none
  else some (ds, cs.dropWhile Char.isDigit)

theorem length_wholeDigits? {cs ds rest : List Char}
    (h : wholeDigits? cs = some (ds, rest)) : rest.length < cs.length := by
  simp only [wholeDigits?] at h
  split at h
  · simp at h
  · rename_i hd
    obtain ⟨rfl, rfl⟩ := Prod.mk.injEq .. ▸ Option.some.inj h
    have hne : 0 < (cs.takeWhile Char.isDigit).length := by
      simp only [Bool.or_eq_true, not_or, List.isEmpty_iff] at hd
      exact List.length_pos_iff.2 hd.1
    have := congrArg List.length (List.takeWhile_append_dropWhile (p := Char.isDigit) (l := cs))
    simp only [List.length_append] at this
    omega

def fractionDigits? : List Char → Option (List Char × List Char)
  | '.' :: rest =>
    let ds := rest.takeWhile Char.isDigit
    if ds.isEmpty then none else some (ds, rest.dropWhile Char.isDigit)
  | cs => some ([], cs)

theorem length_fractionDigits? {cs ds rest : List Char}
    (h : fractionDigits? cs = some (ds, rest)) : rest.length ≤ cs.length := by
  unfold fractionDigits? at h
  split at h
  · rename_i tail
    have := (List.dropWhile_suffix (l := tail) Char.isDigit).length_le
    grind
  · grind

def power? (cs : List Char) : Option (Option Int × List Char) :=
  match cs with
  | c :: rest =>
    if c = 'e' ∨ c = 'E' then
      let (negative, body) := Number.signed rest
      let ds := body.takeWhile Char.isDigit
      if ds.isEmpty then none
      else
        let n : Int := Number.ofDigits 10 ds
        some (some (if negative then -n else n), body.dropWhile Char.isDigit)
    else some (none, cs)
  | [] => some (none, cs)

theorem length_power? {cs rest : List Char} {n : Option Int}
    (h : power? cs = some (n, rest)) : rest.length ≤ cs.length := by
  unfold power? at h
  split at h
  · rename_i tail
    have := (List.dropWhile_suffix (l := (Number.signed tail).2) Char.isDigit).length_le
    have := Number.length_signed_le tail
    grind
  · grind

def number? (cs : List Char) : Option (Json × List Char) := do
  let negative := cs.head? == some '-'
  let (whole, rest) ← wholeDigits? (if negative then cs.drop 1 else cs)
  let (fraction, rest) ← fractionDigits? rest
  let (power, rest) ← power? rest
  let n : Int := Number.ofDigits 10 whole
  let n := if negative then -n else n
  if fraction.isEmpty && power.isNone && isInteger n && !(negative && n == 0) then
    return (.integer n, rest)
  else
    let d : Number.Decimal :=
      ⟨Number.ofDigits 10 (whole ++ fraction), power.getD 0 - fraction.length⟩
    let x := if negative then -d.toFloat else d.toFloat
    if x.isFinite then return (.double x, rest) else none

theorem length_number? {cs rest : List Char} {j : Json}
    (h : number? cs = some (j, rest)) : rest.length < cs.length := by
  simp only [number?, Option.bind_eq_bind, Option.bind_eq_some_iff, Prod.exists] at h
  obtain ⟨_, _, hw, _, _, hf, _, _, hp, h⟩ := h
  have := length_wholeDigits? hw
  have := length_fractionDigits? hf
  have := length_power? hp
  have : (if cs.head? == some '-' then cs.drop 1 else cs).length ≤ cs.length := by
    split <;> simp
  grind

/-! ## Lists and objects -/

/-- A value that holds no others. -/
def scalar? (cs : List Char) : Option (Json × List Char) :=
  match cs.head? with
  | some '"' => (string? cs).map fun (s, rest) => (.string s, rest)
  | some 'n' => word? "null" .null cs
  | some 't' => word? "true" (.bool true) cs
  | some 'f' => word? "false" (.bool false) cs
  | _ => number? cs

theorem length_scalar? {cs rest : List Char} {j : Json}
    (h : scalar? cs = some (j, rest)) : rest.length < cs.length := by
  unfold scalar? at h
  grind [→ length_string?, → length_expect?, → length_number?, word?, = Option.map_eq_some_iff]

/-- One or more items with commas between them, up to the closing character. -/
def separated? {α : Type} (item : (cs : List Char) → Option (α × Shorter cs)) (closing : Char)
    (cs : List Char) : Option (List α × Shorter cs) :=
  match item cs with
  | none => none
  | some (a, ⟨rest, shorter⟩) =>
    match h : skipSpace rest with
    | [] => none
    | c :: tail =>
      have less : tail.length < cs.length := by
        have := length_skipSpace_le rest
        simp only [h, List.length_cons] at this
        omega
      if c = closing then some ([a], ⟨tail, less⟩)
      else if c = ',' then
        (separated? item closing tail).map fun (as, r) => (a :: as, ⟨r, Nat.lt_trans r.2 less⟩)
      else none
termination_by cs.length

/-- The items after an opening bracket, of which there may be none. -/
def listed? {α : Type} (item : (cs : List Char) → Option (α × Shorter cs)) (closing : Char)
    (cs : List Char) : Option (List α × Shorter cs) :=
  match h : skipSpace cs with
  | [] => none
  | c :: rest =>
    if c = closing then
      some ([], ⟨rest, by
        have := length_skipSpace_le cs
        simp only [h, List.length_cons] at this
        omega⟩)
    else separated? item closing cs

def member (value : (cs : List Char) → Option (Json × Shorter cs)) (cs : List Char) :
    Option ((String × Json) × Shorter cs) :=
  match hkey : string? (skipSpace cs) with
  | none => none
  | some (key, rest) =>
    match hcolon : skipSpace rest with
    | ':' :: tail =>
      (value tail).map fun (a, r) => ((key, a), ⟨r, by
        have := length_skipSpace_le cs
        have := length_skipSpace_le rest
        have := length_string? hkey
        simp only [hcolon, List.length_cons] at *
        have := r.2
        omega⟩)
    | _ => none

/-- One value, in which lists and objects are nested less deep than the limit. -/
def value? : Nat → (cs : List Char) → Option (Json × Shorter cs)
  | 0, _ => none
  | depth + 1, cs =>
    match h : skipSpace cs with
    | [] => none
    | c :: rest =>
      have less : rest.length < cs.length := by
        have := length_skipSpace_le cs
        simp only [h, List.length_cons] at this
        omega
      if c = '[' then
        if depth = 0 then none
        else
          (listed? (value? depth) ']' rest).map fun (as, r) =>
            (.array as, ⟨r, Nat.lt_trans r.2 less⟩)
      else if c = '\x7b' then
        if depth = 0 then none
        else
          (listed? (member (value? depth)) '\x7d' rest).map fun (as, r) =>
            (.object (Dictionary.ofList as), ⟨r, Nat.lt_trans r.2 less⟩)
      else
        match hs : scalar? (c :: rest) with
        | none => none
        | some (j, r) => some (j, ⟨r, by
            have := length_scalar? hs
            have := length_skipSpace_le cs
            simp only [h, List.length_cons] at *
            omega⟩)

/-- The value that a text holds, alone but for space around it. -/
def read? (s : String) : Option Json :=
  match value? nestingLimit s.toList with
  | some (j, rest) => if (skipSpace rest).isEmpty then some j else none
  | none => none

end PromptTemplate.Json
