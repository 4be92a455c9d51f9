import PromptTemplate.Text.Blank
import PromptTemplate.Number.Decimal

/-!
# Reading numbers

`decimal?` reads a decimal literal that takes up the whole of its input: digits
with a point among them, and an exponent after them. `ofText` reads the text of a
number in the wider sense of a conversion: blank ends are ignored, an empty text
is zero, and integers in three other bases are understood. `double?` knows names of
infinities, too, but of those a conversion understands only one.
-/

namespace PromptTemplate.Number

def digitValue (c : Char) : Nat :=
  if c.isDigit then c.toNat - '0'.toNat
  else if 'a' ≤ c ∧ c ≤ 'z' then c.toNat - 'a'.toNat + 10
  else if 'A' ≤ c ∧ c ≤ 'Z' then c.toNat - 'A'.toNat + 10
  else 36

def isDigitOf (base : Nat) (c : Char) : Bool :=
  digitValue c < base

/-- The value of digits, the most significant first. -/
def ofDigits (base : Nat) (cs : List Char) : Nat :=
  cs.foldl (fun n c => n * base + digitValue c) 0

/-- Reads digits of a base, after a plus sign if there is one, that name a number
below the limit. -/
def natural? (base limit : Nat) (cs : List Char) : Option Nat :=
  let ds := if cs.head? = some '+' then cs.drop 1 else cs
  if ds.isEmpty || !ds.all (isDigitOf base) then none
  else
    let n := ofDigits base ds
    if n < limit then some n else none

/-- Takes a sign off the front. -/
def signed : List Char → Bool × List Char
  | '-' :: cs => (true, cs)
  | '+' :: cs => (false, cs)
  | cs => (false, cs)

theorem length_signed_le (cs : List Char) : (signed cs).2.length ≤ cs.length := by
  unfold signed
  split <;> simp

/-- Reads an exponent that takes up the whole of its input; no input is exponent
zero. -/
def exponent? : List Char → Option Int
  | [] => some 0
  | c :: cs =>
    if c = 'e' ∨ c = 'E' then
      let (negative, ds) := signed cs
      if ds.isEmpty || !ds.all Char.isDigit then none
      else some (if negative then -(ofDigits 10 ds) else ofDigits 10 ds)
    else none

/-- Reads an unsigned decimal literal. -/
def unsignedDecimal? (cs : List Char) : Option Decimal :=
  let whole := cs.takeWhile Char.isDigit
  let rest := cs.dropWhile Char.isDigit
  let (fraction, tail) :=
    match rest with
    | '.' :: r => (r.takeWhile Char.isDigit, r.dropWhile Char.isDigit)
    | _ => ([], rest)
  if whole.isEmpty && fraction.isEmpty then none
  else (exponent? tail).map fun e => ⟨ofDigits 10 (whole ++ fraction), e - fraction.length⟩

/-- Reads a decimal literal with an optional sign. -/
def decimal? (cs : List Char) : Option Float :=
  let (negative, body) := signed cs
  (unsignedDecimal? body).map fun d => if negative then -d.toFloat else d.toFloat

/-- An infinity or no number, named in letters of either case. -/
def named? (cs : List Char) : Option Float :=
  let name := cs.map Char.toLower
  if name = "inf".toList ∨ name = "infinity".toList then some (infinity false)
  else if name = "nan".toList then some nan
  else none

/-- Reads a decimal literal or a name, with an optional sign. -/
def double? (cs : List Char) : Option Float :=
  let (negative, body) := signed cs
  (((unsignedDecimal? body).map Decimal.toFloat).or (named? body)).map
    fun x => if negative then -x else x

/-- The characters of decimal literals. -/
def isDecimalPart (c : Char) : Bool :=
  c.isDigit || c = '.' || c = 'e' || c = 'E' || c = '+' || c = '-'

/-- The base that a literal announces with a zero and a letter. -/
def announcedBase : List Char → Option Nat
  | '0' :: c :: _ =>
    if c = 'x' ∨ c = 'X' then some 16
    else if c = 'o' ∨ c = 'O' then some 8
    else if c = 'b' ∨ c = 'B' then some 2
    else none
  | _ => none

/-- The number that a text names, nothing if it names none. -/
def ofText (s : String) : Float :=
  let cs := Text.trim s.toList
  let (negative, body) := signed cs
  if cs.isEmpty then 0
  else if body = "Infinity".toList then infinity negative
  else
    match announcedBase body with
    | some base =>
      if body.length ≠ cs.length then nan
      else
        match natural? base (Nat.pow 2 64) (body.drop 2) with
        | some n => Float.ofNat n
        | none => nan
    | none => if body.all isDecimalPart then (double? cs).getD nan else nan

end PromptTemplate.Number
