/-!
# The binary form of a number

A number is a double: nothing, an infinity, or a signed integer times a power
of two. The second view is exact, so whole parts and remainders are computed on
integers and rounded nowhere.
-/

namespace PromptTemplate.Number

/-- The parts of a double. A finite one is its mantissa times two to its exponent,
with the sign kept for zero too. -/
inductive Binary where
  | nan
  | infinite (negative : Bool)
  | finite (negative : Bool) (mantissa : Nat) (exponent : Int)
deriving DecidableEq, Repr

def Binary.ofFloat (x : Float) : Binary :=
  let bits := x.toBits.toNat
  let negative := bits / Nat.pow 2 63 == 1
  let exponent : Nat := bits / Nat.pow 2 52 % Nat.pow 2 11
  let fraction : Nat := bits % Nat.pow 2 52
  if exponent = 2047 then
    if fraction = 0 then .infinite negative else .nan
  else if exponent = 0 then .finite negative fraction (-1074)
  else .finite negative (fraction + Nat.pow 2 52) ((exponent : Int) - 1075)

def nan : Float := 0 / 0

def infinity (negative : Bool) : Float :=
  if negative then -1 / 0 else 1 / 0

/-- The double with the given sign, mantissa and exponent. It is exact when the
mantissa is below two to the 53 and the exponent at least -1074 and in range. -/
def ofParts (negative : Bool) (mantissa : Nat) (exponent : Int) : Float :=
  let sign := if negative then Nat.pow 2 63 else 0
  if mantissa = 0 then Float.ofBits (UInt64.ofNat sign)
  else
    let shift := min (52 - mantissa.log2) (exponent + 1074).toNat
    let scaled := mantissa * Nat.pow 2 shift
    let raised := (exponent - shift + 1075).toNat
    if scaled < Nat.pow 2 52 then Float.ofBits (UInt64.ofNat (sign + scaled))
    else Float.ofBits (UInt64.ofNat (sign + raised * Nat.pow 2 52 + (scaled - Nat.pow 2 52)))

/-- The integer part of mantissa times two to the exponent. -/
def wholePart (mantissa : Nat) (exponent : Int) : Nat :=
  if 0 ≤ exponent then mantissa * Nat.pow 2 exponent.toNat
  else mantissa / Nat.pow 2 (-exponent).toNat

/-- The integer that a number is, if it is one. -/
def integer? (x : Float) : Option Int :=
  match Binary.ofFloat x with
  | .finite negative mantissa exponent =>
    let whole := wholePart mantissa exponent
    if exponent < 0 ∧ whole * Nat.pow 2 (-exponent).toNat ≠ mantissa then none
    else some (if negative then -whole else whole)
  | _ => none

/-- A number cut to its integer part and reduced modulo two to the 32; nothing and
the infinities give zero. -/
def toUInt32 (x : Float) : UInt32 :=
  match Binary.ofFloat x with
  | .finite negative mantissa exponent =>
    let whole : Int := wholePart mantissa exponent
    UInt32.ofNat ((if negative then -whole else whole) % Nat.pow 2 32).toNat
  | _ => 0

def toInt32 (x : Float) : Int32 :=
  (toUInt32 x).toInt32

/-- The remainder of a division that rounds its quotient toward zero. It has the
sign of the dividend, and it is exact. -/
def remainder (x y : Float) : Float :=
  match Binary.ofFloat x, Binary.ofFloat y with
  | .finite negative m e, .finite _ n f =>
    if n = 0 then nan
    else
      let low := min e f
      ofParts negative (m * Nat.pow 2 (e - low).toNat % (n * Nat.pow 2 (f - low).toNat)) low
  | .finite .., .infinite _ => x
  | _, _ => nan

/-- One number raised to the power of another. One and minus one to an infinite
power are nothing, and so is everything to the power of nothing. -/
def power (base exponent : Float) : Float :=
  if exponent.isNaN || (base.abs == 1 && exponent.isInf) then nan
  else base.pow exponent

end PromptTemplate.Number
