import PromptTemplate.Token.Lexer
import Mathlib

/-!
# Numbers that texts can name

Not a number is the result of some operations on doubles, but no literal names it.
-/

open Float.Model Float.Model.UnpackedFloat

namespace PromptTemplate.Number

/-! ## Packing and rounding -/

theorem isNaN_unpack_of_mantissa {b : BitVec (Format.numBits .binary64)}
    (h : unpackMantissa b = 0#52) : (UnpackedFloat.unpack .binary64 b).isNaN = false := by
  simp only [UnpackedFloat.unpack, h, ↓reduceIte, ↓reduceDIte]
  split
  · rfl
  · split <;> rfl

theorem isNaN_unpack_of_exponent {b : BitVec (Format.numBits .binary64)}
    (h : unpackExponent b ≠ -1#11) : (UnpackedFloat.unpack .binary64 b).isNaN = false := by
  simp only [UnpackedFloat.unpack, h, ↓reduceIte]
  split
  · split <;> rfl
  · rfl

/-- Packing makes no number undefined. -/
theorem isNaN_unpack_pack {u : UnpackedFloat} (h : u.isNaN = false) :
    (Float.Model.pack u).unpack.isNaN = false := by
  change (UnpackedFloat.unpack .binary64 (UnpackedFloat.pack .binary64 u)).isNaN = false
  fun_cases UnpackedFloat.pack .binary64 u with
  | case1 => exact h
  | case2 s => exact isNaN_unpack_of_mantissa unpackMantissa_packComponents
  | case3 s => exact isNaN_unpack_of_mantissa unpackMantissa_packComponents
  | case4 s => exact isNaN_unpack_of_mantissa unpackMantissa_packComponents
  | case5 s m e hm bits biased small =>
    refine isNaN_unpack_of_exponent ?_
    rw [unpackExponent_packComponents]
    intro largest
    have := congrArg BitVec.toNat largest
    rw [BitVec.toNat_ofNat, show (-1#11).toNat = 2047 from rfl] at this
    change ¬ 2 ^ 11 ≤ biased + 1 at small
    change biased % 2 ^ 11 = 2047 at this
    omega
  | case6 s m e hm =>
    refine isNaN_unpack_of_exponent ?_
    rw [unpackExponent_packComponents]
    decide

theorem isNaN_roundWithAccuracy (sign : Sign) (m : Nat) (e : Int) (a : Accuracy) :
    (roundWithAccuracy .binary64 sign m e a).isNaN = false := by
  simp only [roundWithAccuracy]
  split <;> rfl

theorem isNaN_ofInt (i : Int) : (UnpackedFloat.ofInt .binary64 i).isNaN = false := by
  unfold UnpackedFloat.ofInt UnpackedFloat.normalize
  split
  · exact isNaN_roundWithAccuracy ..
  · rfl
  · exact isNaN_roundWithAccuracy ..

/-! ## Products and quotients -/

/-- Neither zero nor infinite nor undefined. -/
def isOrdinary : UnpackedFloat → Bool
  | .finite .. => true
  | _ => false

variable {u v : UnpackedFloat}

theorem isNaN_mul (hu : u.isNaN = false) (hv : isOrdinary v = true) :
    (UnpackedFloat.mul .binary64 u v).isNaN = false := by
  cases v with
  | finite =>
    cases u with
    | notANumber => exact hu
    | infinity => rfl
    | zero => rfl
    | finite => exact isNaN_roundWithAccuracy ..
  | _ => cases hv

theorem isNaN_div (hu : u.isNaN = false) (hv : isOrdinary v = true) :
    (UnpackedFloat.div .binary64 u v).isNaN = false := by
  cases v with
  | finite =>
    cases u with
    | notANumber => exact hu
    | infinity => rfl
    | zero => rfl
    | finite => exact isNaN_roundWithAccuracy ..
  | _ => cases hv

theorem isOrdinary_powersOfTen : ∀ e, (h : e < 23) →
    isOrdinary (getElem Float.exactlyRepresentablePowersOfTen e h).toModel.unpack = true := by
  decide +kernel

theorem isNaN_ofScientific (m : Nat) (e : Int) :
    (UnpackedFloat.ofScientific .binary64 m e).isNaN = false := by
  simp only [UnpackedFloat.ofScientific]
  split
  · rfl
  split
  · rfl
  split
  · rfl
  split
  · exact isNaN_roundWithAccuracy ..
  · exact isNaN_roundWithAccuracy ..

/-! ## Literals -/

theorem isNaN_floatOfScientific (m : Nat) (below : Bool) (e : Nat) :
    (Float.ofScientific m below e).isNaN = false := by
  have converted : (Float.Model.ofUInt64 m.toUInt64).unpack.isNaN = false :=
    isNaN_unpack_pack (isNaN_ofInt _)
  rw [Float.ofScientific]
  split
  · rename_i h
    have power := isOrdinary_powersOfTen e (Nat.lt_succ_of_le h.2)
    cases below with
    | false => exact isNaN_unpack_pack (isNaN_mul converted power)
    | true => exact isNaN_unpack_pack (isNaN_div converted power)
  · exact isNaN_unpack_pack (isNaN_ofScientific m _)

theorem isNaN_ofNat (n : Nat) : (Float.ofNat n).isNaN = false := isNaN_floatOfScientific n false 0

theorem isNaN_neg {x : Float} (h : x.isNaN = false) : (-x).isNaN = false := by
  refine isNaN_unpack_pack ?_
  change x.toModel.unpack.isNaN = false at h
  cases hx : x.toModel.unpack with
  | notANumber => simp [hx, UnpackedFloat.isNaN] at h
  | _ => rfl

theorem isNaN_toFloat (d : Decimal) : d.toFloat.isNaN = false := by
  unfold Decimal.toFloat
  dsimp only
  split
  · exact isNaN_ofNat 0
  split
  · decide +kernel
  split
  · exact isNaN_floatOfScientific ..
  · exact isNaN_floatOfScientific ..

theorem isNaN_of_decimal? {cs : List Char} {x : Float} (h : decimal? cs = some x) :
    x.isNaN = false := by
  rcases hs : signed cs with ⟨negative, body⟩
  rw [decimal?, hs] at h
  obtain ⟨d, -, rfl⟩ := Option.map_eq_some_iff.mp h
  cases negative with
  | false => exact isNaN_toFloat d
  | true => exact isNaN_neg (isNaN_toFloat d)

end PromptTemplate.Number
