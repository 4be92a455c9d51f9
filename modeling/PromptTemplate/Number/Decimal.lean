import PromptTemplate.Number.Binary

/-!
# Decimal digits of a number

`shortest` finds the fewest decimal digits that read back as the same double, and
of those the nearest to it; of two equally near, a rule decides. A double stands
for every real between the midpoints to its neighbours, the midpoints themselves
included exactly when its mantissa is even. If a point of a decimal grid lies
there, so does one of the two grid points next to the double, so only those two
are tried on each grid, from the coarsest grid on.
-/

namespace PromptTemplate.Number

/-- A coefficient times a power of ten. -/
structure Decimal where
  coefficient : Nat
  exponent : Int
deriving DecidableEq, Repr

namespace Decimal

def digits (n : Nat) : List Char := Nat.toDigits 10 n

/-- The number of decimal digits before the point of a positive ratio; it is
negative or zero for a ratio below one. -/
def magnitude (numerator denominator : Nat) : Int :=
  if denominator ≤ numerator then (digits (numerator / denominator)).length
  else 1 - (digits ((denominator - 1) / numerator)).length

/-- Which of two grid points is taken that are equally near. -/
inductive TieRule where
  | upper
  | even
deriving DecidableEq, Repr

/-- The nearer one of a number and its successor, from twice the distance to the number
and the sum of both distances. -/
def TieRule.nearer (rule : TieRule) (floor twice step : Nat) : Nat :=
  if twice < step then floor
  else if twice = step ∧ rule = .even ∧ floor % 2 = 0 then floor
  else floor + 1

/-- The point of the grid of the given power of ten that stands for a double, if
one does. -/
def onGrid? (rule : TieRule) (mantissa : Nat) (exponent : Int) (power : Int) : Option Nat :=
  let value := 4 * mantissa
  let below := if mantissa = Nat.pow 2 52 ∧ -1074 < exponent then 1 else 2
  let above := 2
  let unit := Nat.pow 2 (exponent - 2).toNat * Nat.pow 10 (-power).toNat
  let step := Nat.pow 10 power.toNat * Nat.pow 2 (2 - exponent).toNat
  let floor := value * unit / step
  let inside (p q : Nat) : Bool := if mantissa % 2 = 0 then p ≤ q else p < q
  let lower := 0 < floor && inside ((value - below) * unit) (floor * step)
  let upper := inside ((floor + 1) * step) ((value + above) * unit)
  match lower, upper with
  | true, true =>
    some (rule.nearer floor (2 * (value * unit - floor * step)) step)
  | true, false => some floor
  | false, true => some (floor + 1)
  | false, false => none

/-- The same decimal without zeros at the end of its coefficient. -/
def dropZeros : Nat → Decimal → Decimal
  | 0, d => d
  | fuel + 1, d =>
    if d.coefficient ≠ 0 ∧ d.coefficient % 10 = 0 then
      dropZeros fuel ⟨d.coefficient / 10, d.exponent + 1⟩
    else d

/-- The shortest decimal of a positive finite double. -/
def shortest (rule : TieRule) (mantissa : Nat) (exponent : Int) : Decimal :=
  let size := magnitude (mantissa * Nat.pow 2 exponent.toNat) (Nat.pow 2 (-exponent).toNat)
  let grids := (List.range' 1 17).map fun count : Nat => size - count
  let found := grids.findSome? fun power =>
    (onGrid? rule mantissa exponent power).map fun c => Decimal.mk c power
  let plain := found.getD ⟨mantissa * Nat.pow 2 exponent.toNat, 0⟩
  dropZeros (digits plain.coefficient).length plain

/-- Digits with a point and as many zeros as needed, and no exponent. -/
def positional (d : Decimal) : List Char :=
  let ds := digits d.coefficient
  let point := (ds.length : Int) + d.exponent
  if 0 ≤ d.exponent then ds ++ List.replicate d.exponent.toNat '0'
  else if 0 < point then ds.take point.toNat ++ '.' :: ds.drop point.toNat
  else '0' :: '.' :: List.replicate (-point).toNat '0' ++ ds

/-- One digit before the point, the others after it, and an exponent, whose plus
sign is written on request. -/
def scientific (plus : Bool) (d : Decimal) : List Char :=
  let ds := digits d.coefficient
  let power := (ds.length : Int) + d.exponent - 1
  let fraction := if ds.length ≤ 1 then [] else '.' :: ds.drop 1
  let sign := if power < 0 then ['-'] else if plus then ['+'] else []
  ds.take 1 ++ fraction ++ 'e' :: sign ++ digits power.natAbs

/-- The value of a decimal, rounded to the nearest double. A decimal too large for
the doubles is infinite and one too small is zero. -/
def toFloat (d : Decimal) : Float :=
  let size := (digits d.coefficient).length + d.exponent
  if d.coefficient = 0 ∨ size < -400 then 0
  else if 400 < size then infinity false
  else if 0 ≤ d.exponent then Float.ofScientific d.coefficient false d.exponent.toNat
  else Float.ofScientific d.coefficient true (-d.exponent).toNat

end Decimal

/-- How the text of a number is laid out: which places of the point are written
without an exponent, how an exponent is signed, whether a whole number shows its
point, the spellings of zero and the infinities, and which digits a tie gets. -/
structure Layout where
  lowest : Int
  highest : Option Int
  plus : Bool
  wholePoint : Bool
  negativeZero : Bool
  infinity : String
  tie : Decimal.TieRule

namespace Layout

/-- Values are written with an exponent outside the range from 1e-6 up to 1e21. -/
def value : Layout := ⟨-5, some 21, true, false, false, "Infinity", .upper⟩

/-- Number literals show all their digits and never an exponent. -/
def literal : Layout := ⟨-400, none, false, false, true, "inf", .upper⟩

/-- Doubles in documents always show a point or an exponent. -/
def document : Layout := ⟨-4, some 16, true, true, true, "null", .even⟩

/-- The digits of a nonzero finite number. -/
def digits (l : Layout) (d : Decimal) : List Char :=
  let point := ((Decimal.digits d.coefficient).length : Int) + d.exponent
  if l.lowest ≤ point ∧ l.highest.all (point ≤ ·) then
    if l.wholePoint ∧ 0 ≤ d.exponent then d.positional ++ ['.', '0'] else d.positional
  else d.scientific l.plus

/-- The text of a number. -/
def write (l : Layout) (x : Float) : String :=
  match Binary.ofFloat x with
  | .nan => "NaN"
  | .infinite negative => if negative then "-" ++ l.infinity else l.infinity
  | .finite negative mantissa exponent =>
    if mantissa = 0 then
      let body := if l.wholePoint then "0.0" else "0"
      if negative && l.negativeZero then "-" ++ body else body
    else
      let body := l.digits (Decimal.shortest l.tie mantissa exponent)
      String.ofList (if negative then '-' :: body else body)

end Layout

/-- The text of a number as a value. Both zeros are written without a sign. -/
def text (x : Float) : String := Layout.value.write x

end PromptTemplate.Number
