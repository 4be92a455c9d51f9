import PromptTemplate.Number.Reading
import Mathlib

/-!
# Whole numbers among the doubles

A whole number below two to the 53 that comes from a double is the same double again, the
negative zero apart. A double is packed from a sign, an exponent and a mantissa of 53 bits,
and the arithmetic of small whole numbers moves bits without losing any.
-/

open Float.Model Float.Model.UnpackedFloat

namespace PromptTemplate.Number

/-! ## Packing -/

theorem toNat_append {v w : Nat} (a : BitVec v) (b : BitVec w) :
    (a ++ b).toNat = a.toNat * 2 ^ w + b.toNat := by
  rw [BitVec.toNat_append, ← Nat.shiftLeft_add_eq_or_of_lt b.isLt, Nat.shiftLeft_eq]

section

variable {sign : Sign} {m : Nat} {e : Int} {hm : 0 < m}

/-- A mantissa of 53 bits with an exponent in range is kept. -/
theorem pack_normal (hlog : m.log2 = 52) (low : -1074 ≤ e) (high : e ≤ 971) :
    UnpackedFloat.pack .binary64 (.finite sign m e hm) =
      packComponents .binary64 sign (BitVec.ofNat 11 (e + 1075).toNat) (BitVec.ofNat 52 m) := by
  have bias : (e + (Format.exponentBias .binary64 : Nat) + (52 : Nat)) = e + 1075 := by
    simp [Format.exponentBias, Int.add_assoc]
  have small : ¬ 2 ^ 11 ≤ (e + 1075).toNat + 1 := by omega
  simp only [UnpackedFloat.pack, bias, small, hlog, Format.mantissaBits, ↓reduceIte]

theorem unpack_pack_normal (hlog : m.log2 = 52) (low : -1074 ≤ e) (high : e ≤ 971) :
    (Float.Model.pack (.finite sign m e hm)).unpack = .finite sign m e hm := by
  have bounds := (Nat.log2_eq_iff (Nat.ne_of_gt hm)).mp hlog
  have raised : (BitVec.ofNat 11 (e + 1075).toNat).toNat = (e + 1075).toNat :=
    Nat.mod_eq_of_lt (by omega)
  have notLargest : BitVec.ofNat 11 (e + 1075).toNat ≠ -1#11 := by
    intro h
    have := congrArg BitVec.toNat h
    rw [raised, show (-1#11).toNat = 2047 from rfl] at this
    omega
  have notLeast : BitVec.ofNat 11 (e + 1075).toNat ≠ 0#11 := by
    intro h
    have := congrArg BitVec.toNat h
    rw [raised, show (0#11).toNat = 0 from rfl] at this
    omega
  have mantissa : (1#1 ++ BitVec.ofNat 52 m).toNat = m := by
    rw [toNat_append, BitVec.toNat_ofNat, BitVec.toNat_ofNat]
    omega
  have exponent : ((BitVec.ofNat 11 (e + 1075).toNat).toNat : Int) -
      ((Format.exponentBias .binary64 : Nat) + (52 : Nat)) = e := by
    rw [raised, show Format.exponentBias .binary64 = 1023 from rfl]
    omega
  simp only [Float.Model.unpack, Float.Model.pack, pack_normal hlog low high,
    UnpackedFloat.unpack, unpackExponent_packComponents, unpackMantissa_packComponents,
    unpackSign_packComponents, notLargest, notLeast, ↓reduceIte, mantissa, exponent,
    Sign.ofBitVec_toBitVec]

/-- The bits of such a double. -/
theorem toNat_toBits_pack (hlog : m.log2 = 52) (low : -1074 ≤ e) (high : e ≤ 971) :
    (Float.Model.pack (.finite sign m e hm)).toBits.toNat =
      sign.toBitVec.toNat * 2 ^ 63 + (e + 1075).toNat * 2 ^ 52 + (m - 2 ^ 52) := by
  have bounds := (Nat.log2_eq_iff (Nat.ne_of_gt hm)).mp hlog
  have raised : (BitVec.ofNat 11 (e + 1075).toNat).toNat = (e + 1075).toNat :=
    Nat.mod_eq_of_lt (by omega)
  simp only [Float.Model.pack, pack_normal hlog low high, packComponents]
  change BitVec.toNat (_ ++ _) = _
  rw [toNat_append, toNat_append, raised, BitVec.toNat_ofNat]
  omega

/-! ## Rounding -/

theorem log2_mul_two_pow {m : Nat} (h : m ≠ 0) (k : Nat) : (m * 2 ^ k).log2 = m.log2 + k := by
  induction k with
  | zero => rw [Nat.pow_zero, Nat.mul_one, Nat.add_zero]
  | succ k ih =>
    have nonzero : m * 2 ^ k ≠ 0 := Nat.mul_ne_zero h (Nat.two_pow_pos k).ne'
    rw [Nat.pow_succ, ← Nat.mul_assoc, Nat.mul_comm, Nat.log2_two_mul nonzero, ih, Nat.add_assoc]

theorem shiftRight_exact (m k : Nat) :
    (ExtendedMantissa.mk (m * 2 ^ k) false false) >>> k = ⟨m, false, false⟩ := by
  induction k generalizing m with
  | zero => simp [HShiftRight.hShiftRight, Nat.repeat]
  | succ k ih =>
    have halved : (ExtendedMantissa.mk (m * 2 ^ (k + 1)) false false) >>> k =
        ⟨m * 2, false, false⟩ := by
      rw [Nat.pow_succ', ← Nat.mul_assoc]
      exact ih (m * 2)
    change ((ExtendedMantissa.mk (m * 2 ^ (k + 1)) false false) >>> k).shiftRightOne = _
    rw [halved]
    simp [ExtendedMantissa.shiftRightOne]

/-- Zeros after a mantissa of 53 bits are shifted out again. -/
theorem shiftToTargetExponent_exact (hlog : m.log2 = 52) (low : -1074 ≤ e) (k : Nat) :
    shiftToTargetExponent .binary64 (m * 2 ^ k) (e - k) .exact = (⟨m, false, false⟩, e) := by
  have nonzero : m ≠ 0 := by
    rintro rfl
    simp at hlog
  have size : (m * 2 ^ k).log2 = 52 + k := by rw [log2_mul_two_pow nonzero, hlog]
  have target : Format.targetExponent .binary64 (totalExponent (m * 2 ^ k) (e - k)) = e := by
    simp only [Format.targetExponent, totalExponent, size, Format.mantissaBits,
      Format.minExponent]
    omega
  have shift : (e - (e - (k : Int))).toNat = k := by omega
  simp only [shiftToTargetExponent, target, shiftToExponent, shift,
    ExtendedMantissa.ofMantissaAndAccuracy, shiftRight_exact, Int.sub_add_cancel]

theorem roundWithAccuracy_exact (hlog : m.log2 = 52) (low : -1074 ≤ e) (k : Nat) :
    roundWithAccuracy .binary64 sign (m * 2 ^ k) (e - k) .exact = .finite sign m e hm := by
  have again := shiftToTargetExponent_exact hlog low 0
  rw [Nat.pow_zero, Nat.mul_one, Int.natCast_zero, Int.sub_zero] at again
  have rounded : (ExtendedMantissa.mk m false false).roundedMantissa = m := rfl
  simp only [roundWithAccuracy, shiftToTargetExponent_exact hlog low k, rounded, again,
    Nat.ne_of_gt hm, ↓reduceDIte]

end

/-! ## Small whole numbers -/

theorem unpack_one : (Float.Model.ofBits 0x3FF0000000000000).unpack =
    .finite .positive (2 ^ 52) (-52) (by decide) := by
  rfl

section

variable {n : Nat}

/-- The mantissa of 53 bits of a small whole number. -/
def wholeMantissa (n : Nat) : Nat := n * 2 ^ (52 - n.log2)

theorem wholeMantissa_pos (pos : 0 < n) : 0 < wholeMantissa n :=
  Nat.mul_pos pos (Nat.two_pow_pos _)

theorem log2_wholeMantissa (pos : 0 < n) (small : n < 2 ^ 53) : (wholeMantissa n).log2 = 52 := by
  have hlog := (Nat.log2_lt (Nat.ne_of_gt pos)).mpr small
  rw [wholeMantissa, log2_mul_two_pow (Nat.ne_of_gt pos)]
  omega

/-- A small whole number as a word is converted exactly. -/
theorem unpack_toFloat (pos : 0 < n) (small : n < 2 ^ 53) :
    (Float.Model.ofUInt64 n.toUInt64).unpack =
      .finite .positive (wholeMantissa n) ((n.log2 : Int) - 52) (wholeMantissa_pos pos) := by
  have hlog := (Nat.log2_lt (Nat.ne_of_gt pos)).mpr small
  have word : n.toUInt64.toNat = n := Nat.mod_eq_of_lt (by omega)
  have target : Format.targetExponent .binary64 (totalExponent n 0) = (n.log2 : Int) - 52 := by
    simp only [Format.targetExponent, totalExponent, Format.mantissaBits, Format.minExponent]
    omega
  have shift : ((0 : Int) - ((n.log2 : Int) - 52)).toNat = 52 - n.log2 := by omega
  have exponent : (0 : Int) - (52 - n.log2 : Nat) = (n.log2 : Int) - 52 - (0 : Nat) := by omega
  have positive : compare (n : Int) 0 = .gt := by
    rw [Int.compare_eq_gt]
    omega
  have rounded : UnpackedFloat.ofUInt64 .binary64 n.toUInt64 =
      .finite .positive (wholeMantissa n) ((n.log2 : Int) - 52) (wholeMantissa_pos pos) := by
    rw [UnpackedFloat.ofUInt64, UnpackedFloat.ofNat, UnpackedFloat.ofInt,
      UnpackedFloat.normalize, word, positive]
    simp only [UnpackedFloat.round, Int.toNat_natCast, target, decreaseExponent, shift, exponent,
      Nat.shiftLeft_eq]
    have kept : roundWithAccuracy .binary64 .positive (wholeMantissa n * 2 ^ 0)
        ((n.log2 : Int) - 52 - (0 : Nat)) .exact = .finite .positive (wholeMantissa n)
          ((n.log2 : Int) - 52) (wholeMantissa_pos pos) :=
      roundWithAccuracy_exact (log2_wholeMantissa pos small) (by omega) 0
    rwa [Nat.pow_zero, Nat.mul_one] at kept
  rw [Float.Model.ofUInt64, rounded,
    unpack_pack_normal (log2_wholeMantissa pos small) (by omega) (by omega)]

theorem toModel_ofNat (pos : 0 < n) (small : n < 2 ^ 53) :
    (Float.ofNat n).toModel = Float.Model.pack (.finite .positive (wholeMantissa n)
      ((n.log2 : Int) - 52) (wholeMantissa_pos pos)) := by
  have hlog := (Nat.log2_lt (Nat.ne_of_gt pos)).mpr small
  have product : Float.ofNat n = n.toUInt64.toFloat * Float.ofBits 0x3FF0000000000000 := by
    change Float.ofScientific n false 0 = _
    rw [Float.ofScientific, dif_pos ⟨small, Nat.zero_le _⟩]
    rfl
  have exponent : (n.log2 : Int) - 52 + -52 = (n.log2 : Int) - 52 - (52 : Nat) := rfl
  rw [product]
  change Float.Model.pack (UnpackedFloat.mul .binary64 (Float.Model.ofUInt64 n.toUInt64).unpack
    (Float.Model.ofBits 0x3FF0000000000000).unpack) = _
  rw [unpack_toFloat pos small, unpack_one, UnpackedFloat.mul, exponent,
    roundWithAccuracy_exact (log2_wholeMantissa pos small) (by omega) 52]
  rfl

/-- A small whole number with a sign, zero apart. -/
theorem toModel_ofInt (pos : 0 < n) (small : n < 2 ^ 53) (negative : Bool) :
    (Float.ofInt (if negative then -n else n)).toModel =
      Float.Model.pack (.finite (if negative then .negative else .positive) (wholeMantissa n)
        ((n.log2 : Int) - 52) (wholeMantissa_pos pos)) := by
  have hlog := (Nat.log2_lt (Nat.ne_of_gt pos)).mpr small
  cases negative with
  | false => exact toModel_ofNat pos small
  | true =>
    obtain ⟨k, rfl⟩ := Nat.exists_eq_add_one.mpr pos
    change Float.Model.pack (Float.ofNat (k + 1)).toModel.unpack.neg = _
    rw [toModel_ofNat pos small,
      unpack_pack_normal (log2_wholeMantissa pos small) (by omega) (by omega)]
    rfl

end

/-! ## Whole doubles -/

theorem eq_of_toBits {x y : Float} (h : x.toBits.toNat = y.toBits.toNat) : x = y :=
  Float.toBits_inj.mp (UInt64.toNat_inj.mp h)

theorem toNat_toBits_zero : (0 : Float).toBits.toNat = 0 := by decide +kernel

theorem toNat_toBits_negativeZero : (-0 : Float).toBits.toNat = 2 ^ 63 := by decide +kernel

/-- The bits of a finite double: those of a mantissa alone, or of an exponent with a mantissa of
53 bits. -/
theorem toBits_of_finite {x : Float} {negative : Bool} {m : Nat} {e : Int}
    (h : Binary.ofFloat x = .finite negative m e) :
    (m < 2 ^ 52 ∧ e = -1074 ∧ x.toBits.toNat = negative.toNat * 2 ^ 63 + m) ∨
    (m.log2 = 52 ∧ -1074 ≤ e ∧ e ≤ 971 ∧
      x.toBits.toNat = negative.toNat * 2 ^ 63 + (e + 1075).toNat * 2 ^ 52 + (m - 2 ^ 52)) := by
  have word := x.toBits.toNat_lt
  generalize hbits : x.toBits.toNat = bits at word
  have sign : (bits / 2 ^ 63 == 1).toNat = bits / 2 ^ 63 := by
    obtain h | h : bits / 2 ^ 63 = 0 ∨ bits / 2 ^ 63 = 1 := by omega
    · rw [h]
      rfl
    · rw [h]
      rfl
  simp only [Binary.ofFloat, hbits, Nat.pow_eq] at h
  by_cases largest : bits / 2 ^ 52 % 2 ^ 11 = 2047
  · rw [if_pos largest] at h
    split at h <;> cases h
  rw [if_neg largest] at h
  by_cases least : bits / 2 ^ 52 % 2 ^ 11 = 0
  · rw [if_pos least] at h
    cases h
    rw [sign]
    exact Or.inl ⟨Nat.mod_lt _ (by decide), rfl, by omega⟩
  · rw [if_neg least] at h
    cases h
    rw [sign, Nat.log2_eq_iff (by omega)]
    exact Or.inr ⟨by omega, by omega, by omega, by omega⟩

/-- A mantissa that is a whole number below two to the 53, with its exponent, is that number
with zeros at its end. -/
theorem wholePart_cases {m : Nat} {e : Int} (hlog : m.log2 = 52)
    (small : wholePart m e < 2 ^ 53)
    (whole : ¬ (e < 0 ∧ wholePart m e * Nat.pow 2 (-e).toNat ≠ m)) :
    0 < wholePart m e ∧ wholeMantissa (wholePart m e) = m ∧
      ((wholePart m e).log2 : Int) - 52 = e := by
  have nonzero : m ≠ 0 := by
    rintro rfl
    simp at hlog
  have bounds := (Nat.log2_eq_iff nonzero).mp hlog
  have scaled : ∃ k : Nat, e = -k ∧ wholePart m e * 2 ^ k = m := by
    by_cases he : e < 0
    · refine ⟨(-e).toNat, by omega, ?_⟩
      by_contra h
      exact whole ⟨he, h⟩
    · rw [wholePart, if_pos (Int.not_lt.mp he), Nat.pow_eq] at small ⊢
      have one : e.toNat = 0 := by
        by_contra h
        have := Nat.mul_le_mul_left m (Nat.le_self_pow h 2)
        omega
      refine ⟨0, by omega, ?_⟩
      rw [one, Nat.pow_zero, Nat.mul_one, Nat.mul_one]
  obtain ⟨k, rfl, hk⟩ := scaled
  have number : wholePart m (-k) ≠ 0 := by
    intro h
    rw [h, Nat.zero_mul] at hk
    exact nonzero hk.symm
  have width := log2_mul_two_pow number k
  rw [hk, hlog] at width
  have zeros : 52 - (wholePart m (-k)).log2 = k := by omega
  refine ⟨Nat.pos_of_ne_zero number, ?_, by omega⟩
  rw [wholeMantissa, zeros, hk]

theorem wholePart_eq_zero {m : Nat} {e : Int} (small : m < 2 ^ 52) (low : e ≤ -52) :
    wholePart m e = 0 := by
  rw [wholePart, if_neg (by omega)]
  have wide : 2 ^ 52 ≤ 2 ^ (-e).toNat := Nat.pow_le_pow_right (by decide) (by omega)
  exact Nat.div_eq_of_lt (Nat.lt_of_lt_of_le small wide)

/-- A small whole double is the double of its integer. -/
theorem ofInt_of_integer? {x : Float} {i : Int} (h : integer? x = some i)
    (small : i.natAbs < 2 ^ 53) (signed : x ≠ -0) : Float.ofInt i = x := by
  unfold integer? at h
  split at h
  · rename_i negative m e hx
    dsimp only at h
    split at h
    · cases h
    rename_i whole
    cases h
    have hsmall : wholePart m e < 2 ^ 53 := by
      cases negative <;> simpa using small
    rcases toBits_of_finite hx with ⟨hm, rfl, hbits⟩ | ⟨hlog, low, high, hbits⟩
    · obtain rfl : m = 0 := by
        by_contra h
        refine whole ⟨by decide, ?_⟩
        rw [wholePart_eq_zero hm (by decide), Nat.zero_mul]
        exact Ne.symm h
      rw [wholePart_eq_zero hm (by decide)]
      cases negative with
      | false => exact eq_of_toBits (toNat_toBits_zero.trans hbits.symm)
      | true => exact absurd (eq_of_toBits (hbits.trans toNat_toBits_negativeZero.symm)) signed
    · obtain ⟨pos, hm, he⟩ := wholePart_cases hlog hsmall whole
      have sign : (if negative then Sign.negative else Sign.positive).toBitVec.toNat =
          negative.toNat := by
        cases negative <;> rfl
      apply eq_of_toBits
      rw [Float.toBits, toModel_ofInt pos hsmall negative,
        toNat_toBits_pack (log2_wholeMantissa pos hsmall) (by omega) (by omega), hm, he, sign,
        hbits]
  · cases h

theorem toNat_unpackExponent (x : Float) :
    (@unpackExponent .binary64 x.toModel.toBits.toBitVec).toNat =
      x.toBits.toNat / 2 ^ 52 % 2 ^ 11 := by
  rw [← Nat.shiftRight_eq_div_pow]
  rfl

theorem isFinite_of_ofFloat {x : Float} {negative : Bool} {m : Nat} {e : Int}
    (h : Binary.ofFloat x = .finite negative m e) : x.isFinite = true := by
  have exponent : @unpackExponent .binary64 x.toModel.toBits.toBitVec ≠ -1#11 := by
    intro largest
    have all : x.toBits.toNat / 2 ^ 52 % 2 ^ 11 = 2047 := by
      rw [← toNat_unpackExponent, largest]
      rfl
    simp only [Binary.ofFloat, Nat.pow_eq] at h
    rw [if_pos all] at h
    split at h <;> cases h
  change (UnpackedFloat.unpack .binary64 x.toModel.toBits.toBitVec).isFinite = true
  simp only [UnpackedFloat.unpack, exponent, ↓reduceIte]
  split
  · split <;> rfl
  · rfl

/-- A double that is finite has a mantissa and an exponent. -/
theorem exists_ofFloat {x : Float} (h : x.isFinite = true) :
    ∃ negative m e, Binary.ofFloat x = .finite negative m e := by
  have exponent : x.toBits.toNat / 2 ^ 52 % 2 ^ 11 ≠ 2047 := by
    intro all
    have largest : @unpackExponent .binary64 x.toModel.toBits.toBitVec = -1#11 := by
      apply BitVec.eq_of_toNat_eq
      rw [toNat_unpackExponent, all]
      rfl
    change (UnpackedFloat.unpack .binary64 x.toModel.toBits.toBitVec).isFinite = true at h
    simp only [UnpackedFloat.unpack, largest, ↓reduceIte] at h
    split at h <;> cases h
  simp only [Binary.ofFloat, Nat.pow_eq]
  rw [if_neg exponent]
  split
  · exact ⟨_, _, _, rfl⟩
  · exact ⟨_, _, _, rfl⟩

/-- The doubles without a mantissa are the zeros. -/
theorem eq_zero_of_ofFloat {x : Float} {negative : Bool} {e : Int}
    (h : Binary.ofFloat x = .finite negative 0 e) : x = 0 ∨ x = -0 := by
  rcases toBits_of_finite h with ⟨-, -, hbits⟩ | ⟨hlog, -⟩
  · cases negative with
    | false => exact .inl (eq_of_toBits (hbits.trans toNat_toBits_zero.symm))
    | true => exact .inr (eq_of_toBits (hbits.trans toNat_toBits_negativeZero.symm))
  · cases hlog

theorem isFinite_of_integer? {x : Float} {i : Int} (h : integer? x = some i) :
    x.isFinite = true := by
  unfold integer? at h
  split at h
  · rename_i negative m e hx
    exact isFinite_of_ofFloat hx
  · cases h

/-! ## Comparing and adding -/

theorem unpack_minusOne : (-1 : Float).toModel.unpack =
    .finite .negative (2 ^ 52) (-52) (by decide) := rfl

/-- To add minus one is to subtract one. -/
theorem add_minusOne (x : Float) : x + -1 = x - 1 := by
  have one : (1 : Float).toModel.unpack = .finite .positive (2 ^ 52) (-52) (by decide) := rfl
  change Float.ofModel (Float.Model.pack
      (UnpackedFloat.add .binary64 x.toModel.unpack (-1 : Float).toModel.unpack)) =
    Float.ofModel (Float.Model.pack
      (UnpackedFloat.sub .binary64 x.toModel.unpack (1 : Float).toModel.unpack))
  rw [unpack_minusOne, one]
  cases x.toModel.unpack with
  | notANumber => rfl
  | infinity sign => rfl
  | zero sign => rfl
  | finite sign m e hm =>
    simp only [UnpackedFloat.add, UnpackedFloat.sub]
    congr 3

/-- A finite number is equal to itself. -/
theorem beq_self_of_isFinite {x : Float} (h : x.isFinite = true) : (x == x) = true := by
  change x.toModel.unpack.isFinite = true at h
  change (UnpackedFloat.compare x.toModel.unpack x.toModel.unpack == some .eq) = true
  cases hx : x.toModel.unpack with
  | notANumber =>
    rw [hx] at h
    cases h
  | infinity sign =>
    rw [hx] at h
    cases h
  | zero sign => rfl
  | finite sign m e hm => cases sign <;> simp [UnpackedFloat.compare]

end PromptTemplate.Number
