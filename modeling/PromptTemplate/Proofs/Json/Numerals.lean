import PromptTemplate.Proofs.Json.Grammar
import PromptTemplate.Value.Json

/-!
# Texts of numbers as JSON

The text of a finite number is a JSON number: digits, a point among them or not, or one digit
before the point and an exponent. Its parts are those of the shortest decimal of the number.
-/

namespace PromptTemplate

namespace Number

/-! ## Digits -/

theorem ofDigits_of_isDigit {ds : List Char} (h : ∀ d ∈ ds, d.isDigit = true) :
    ofDigits 10 ds = Nat.ofDigitChars 10 ds 0 := by
  have step (n : Nat) : ds.foldl (fun n c => n * 10 + digitValue c) n =
      ds.foldl (fun n c => 10 * n + (c.toNat - '0'.toNat)) n := by
    induction ds generalizing n with
    | nil => rfl
    | cons d ds ih =>
      obtain ⟨hd, hds⟩ := List.forall_mem_cons.mp h
      have value : n * 10 + digitValue d = 10 * n + (d.toNat - '0'.toNat) := by
        rw [digitValue, if_pos hd, Nat.mul_comm]
      rw [List.foldl_cons, List.foldl_cons, value]
      exact ih hds _
  rw [ofDigits, Nat.ofDigitChars_eq_foldl]
  exact step 0

theorem isDigit_of_mem_zeros {n : Nat} : ∀ c ∈ List.replicate n '0', c.isDigit = true := by
  intro c hc
  rw [List.eq_of_mem_replicate hc]
  rfl

theorem ofDigits_append_zeros {ds : List Char} (h : ∀ d ∈ ds, d.isDigit = true) (n : Nat) :
    ofDigits 10 (ds ++ List.replicate n '0') = ofDigits 10 ds * 10 ^ n := by
  rw [ofDigits_of_isDigit (List.forall_mem_append.mpr ⟨h, isDigit_of_mem_zeros⟩),
    ofDigits_of_isDigit h, Nat.ofDigitChars_append, Nat.ofDigitChars_replicate_zero, Nat.mul_comm]

theorem ofDigits_zeros_append {ds : List Char} (h : ∀ d ∈ ds, d.isDigit = true) (n : Nat) :
    ofDigits 10 (List.replicate n '0' ++ ds) = ofDigits 10 ds := by
  rw [ofDigits_of_isDigit (List.forall_mem_append.mpr ⟨isDigit_of_mem_zeros, h⟩),
    ofDigits_of_isDigit h, Nat.ofDigitChars_append, Nat.ofDigitChars_replicate_zero, Nat.mul_zero]

namespace Decimal

theorem isDigit_of_mem_digits {n : Nat} : ∀ c ∈ digits n, c.isDigit = true :=
  fun _ hc => Nat.isDigit_of_mem_toDigits (by decide) (by decide) hc

theorem ofDigits_digits (n : Nat) : ofDigits 10 (digits n) = n := by
  rw [ofDigits_of_isDigit isDigit_of_mem_digits, digits, Nat.ofDigitChars_ten_toDigits]

theorem digits_digits (n : Nat) : Digits 10 (digits n) :=
  ⟨Nat.toDigits_ne_nil, fun c hc => mem_digitsOf_ten.mpr (isDigit_of_mem_digits c hc)⟩

theorem head?_digits {n : Nat} (h : n ≠ 0) : (digits n).head? ≠ some '0' := by
  induction n using Nat.strongRecOn with
  | ind n ih =>
    rw [digits, Nat.toDigits_eq_if (by decide)]
    split
    · rename_i small
      have nonzero : ∀ n < 10, n ≠ 0 → n.digitChar ≠ '0' := by decide
      exact fun same => nonzero n small h (Option.some.inj same)
    · rename_i large
      rw [List.head?_append_of_ne_nil _ Nat.toDigits_ne_nil]
      exact ih (n / 10) (by omega) (by omega)

end Decimal

end Number

namespace Json

open Number

theorem whole_zero : Whole ['0'] := ⟨digits_ten_iff.mpr rfl, fun _ => rfl⟩

/-- A text says of a decimal what it is, as a whole number or in parts. -/
inductive Denotes (d : Decimal) : List Char → Prop where
  | whole {ds : List Char} (h : Whole ds) (exponent : 0 ≤ d.exponent) (length : ds.length ≤ 21)
    (value : ofDigits 10 ds = d.coefficient * 10 ^ d.exponent.toNat) : Denotes d ds
  | parts {whole fraction fs power : List Char} {p : Option Int} (hwhole : Whole whole)
    (hfraction : Fraction fraction fs) (hpower : Power power p) (parts : ¬ (fs = [] ∧ p = none))
    (value : Decimal.mk (ofDigits 10 (whole ++ fs)) (p.getD 0 - fs.length) = d) :
    Denotes d (whole ++ (fraction ++ power))

section

variable {d : Decimal} (nonzero : d.coefficient ≠ 0)

include nonzero

omit nonzero in
theorem decimal_eq {c : Nat} {e : Int} (hc : c = d.coefficient) (he : e = d.exponent) :
    Decimal.mk c e = d := by
  rw [hc, he]

/-- The first digits of a number that is not zero. -/
theorem whole_of_digits {ds more : List Char} (h : Decimal.digits d.coefficient = ds ++ more)
    (nonempty : ds ≠ []) : Whole ds := by
  have digits := Decimal.digits_digits d.coefficient
  have head := Decimal.head?_digits nonzero
  rw [h] at digits head
  rw [List.head?_append_of_ne_nil _ nonempty] at head
  have inside : ∀ c ∈ ds, c ∈ digitsOf 10 :=
    fun c hc => digits.digits c (List.mem_append_left more hc)
  exact ⟨⟨nonempty, inside⟩, fun zero => absurd zero head⟩

theorem denotes_whole (exponent : 0 ≤ d.exponent)
    (short : ((Decimal.digits d.coefficient).length : Int) + d.exponent ≤ 21) :
    Denotes d (Decimal.digits d.coefficient ++ List.replicate d.exponent.toNat '0') := by
  have digits := Decimal.digits_digits d.coefficient
  have zeros : ∀ c ∈ List.replicate d.exponent.toNat '0', c ∈ digitsOf 10 :=
    fun c hc => mem_digitsOf_ten.mpr (isDigit_of_mem_zeros c hc)
  refine .whole ⟨⟨?_, ?_⟩, fun zero => ?_⟩ exponent ?_ ?_
  · exact List.append_ne_nil_of_left_ne_nil digits.nonempty _
  · exact List.forall_mem_append.mpr ⟨digits.digits, zeros⟩
  · rw [List.head?_append_of_ne_nil _ digits.nonempty] at zero
    exact absurd zero (Decimal.head?_digits nonzero)
  · rw [List.length_append, List.length_replicate]
    omega
  · rw [ofDigits_append_zeros Decimal.isDigit_of_mem_digits, Decimal.ofDigits_digits]

theorem denotes_pointed {before : Nat} (positive : 0 < before)
    (point : ((Decimal.digits d.coefficient).length : Int) + d.exponent = before)
    (negative : d.exponent < 0) :
    Denotes d ((Decimal.digits d.coefficient).take before ++
      '.' :: (Decimal.digits d.coefficient).drop before) := by
  have digits := Decimal.digits_digits d.coefficient
  have split := (List.take_append_drop before (Decimal.digits d.coefficient)).symm
  have length : ((Decimal.digits d.coefficient).drop before).length = (-d.exponent).toNat := by
    rw [List.length_drop]
    omega
  have nonempty : (Decimal.digits d.coefficient).take before ≠ [] := by
    simp [digits.nonempty]
    omega
  have fraction : (Decimal.digits d.coefficient).drop before ≠ [] := by
    intro empty
    rw [empty] at length
    simp at length
    omega
  have parts := Denotes.parts (d := d) (whole_of_digits nonzero split nonempty)
    (.digits ⟨fraction, fun c hc => digits.digits c (List.mem_of_mem_drop hc)⟩) .none
    (fun h => fraction h.1) ?_
  · rwa [List.append_nil] at parts
  · refine decimal_eq (by rw [← split, Decimal.ofDigits_digits]) ?_
    rw [length, Option.getD_none]
    omega

omit nonzero in
theorem denotes_small {before : Nat}
    (point : ((Decimal.digits d.coefficient).length : Int) + d.exponent = -before) :
    Denotes d ('0' :: '.' :: (List.replicate before '0' ++ Decimal.digits d.coefficient)) := by
  have digits := Decimal.digits_digits d.coefficient
  have zeros : ∀ c ∈ List.replicate before '0', c ∈ digitsOf 10 :=
    fun c hc => mem_digitsOf_ten.mpr (isDigit_of_mem_zeros c hc)
  have fraction := List.append_ne_nil_of_right_ne_nil (List.replicate before '0') digits.nonempty
  have parts := Denotes.parts (d := d) whole_zero
    (.digits ⟨fraction, List.forall_mem_append.mpr ⟨zeros, digits.digits⟩⟩) .none
    (fun h => fraction h.1) ?_
  · rwa [List.append_nil] at parts
  · refine decimal_eq ?_ ?_
    · rw [List.singleton_append, ← List.cons_append, ← List.replicate_succ,
        ofDigits_zeros_append Decimal.isDigit_of_mem_digits, Decimal.ofDigits_digits]
    · rw [List.length_append, List.length_replicate, Option.getD_none]
      omega

theorem denotes_positional
    (short : ((Decimal.digits d.coefficient).length : Int) + d.exponent ≤ 21) :
    Denotes d d.positional := by
  unfold Decimal.positional
  dsimp only
  split
  · exact denotes_whole nonzero ‹_› short
  rename_i negative
  split
  · rename_i point
    exact denotes_pointed nonzero (by omega) (by omega) (by omega)
  · rename_i point
    exact denotes_small (by omega)

theorem denotes_scientific : Denotes d (d.scientific true) := by
  have digits := Decimal.digits_digits d.coefficient
  have split := (List.take_append_drop 1 (Decimal.digits d.coefficient)).symm
  have nonempty : (Decimal.digits d.coefficient).take 1 ≠ [] := by simp [digits.nonempty]
  have long : 0 < (Decimal.digits d.coefficient).length := List.length_pos_iff.mpr digits.nonempty
  unfold Decimal.scientific
  dsimp only
  generalize hpower : ((Decimal.digits d.coefficient).length : Int) + d.exponent - 1 = power
  have fraction :
      Fraction (if (Decimal.digits d.coefficient).length ≤ 1 then []
        else '.' :: (Decimal.digits d.coefficient).drop 1)
          ((Decimal.digits d.coefficient).drop 1) := by
    split
    · rename_i single
      rw [List.drop_eq_nil_of_le single]
      exact .none
    · rename_i several
      have more : (Decimal.digits d.coefficient).drop 1 ≠ [] := mt List.drop_eq_nil_iff.mp several
      exact .digits ⟨more, fun c hc => digits.digits c (List.mem_of_mem_drop hc)⟩
  have hsign : IsSign (if power < 0 then ['-'] else ['+']) := by
    split
    · exact .inr (.inr rfl)
    · exact .inr (.inl rfl)
  have value : (if (if power < 0 then ['-'] else ['+']) = ['-']
      then -(ofDigits 10 (Decimal.digits power.natAbs) : Int)
      else ofDigits 10 (Decimal.digits power.natAbs)) = power := by
    rw [Decimal.ofDigits_digits]
    by_cases negative : power < 0
    · rw [if_pos negative, if_pos rfl]
      omega
    · rw [if_neg negative, if_neg (by decide)]
      omega
  have exponent := Power.digits (.inl rfl) hsign (Decimal.digits_digits power.natAbs)
  rw [value] at exponent
  have parts := Denotes.parts (d := d) (whole_of_digits nonzero split nonempty) fraction exponent
    nofun ?_
  · simpa using parts
  · refine decimal_eq (by rw [← split, Decimal.ofDigits_digits]) ?_
    rw [List.length_drop, Option.getD_some]
    omega

theorem denotes_digits : Denotes d (Layout.value.digits d) := by
  unfold Layout.digits
  dsimp only
  split
  · rename_i inside
    have short : ((Decimal.digits d.coefficient).length : Int) + d.exponent ≤ 21 := by
      simpa [Layout.value] using inside.2
    exact denotes_positional nonzero short
  · exact denotes_scientific nonzero

end

/-! ## Values of numbers -/

theorem toFloat_of_short {ds : List Char} (h : Digits 10 ds) (length : ds.length ≤ 21)
    (nonzero : ofDigits 10 ds ≠ 0) :
    (Decimal.mk (ofDigits 10 ds) 0).toFloat = Float.ofNat (ofDigits 10 ds) := by
  have small : ofDigits 10 ds < 10 ^ 21 := by
    have values : ∀ v ∈ (ds.map digitValue).reverse, v < 10 := by
      intro v hv
      obtain ⟨d, hd, rfl⟩ := List.mem_map.mp (List.mem_reverse.mp hv)
      exact (digitValue_of_isDigit (mem_digitsOf_ten.mp (h.digits d hd))).2
    have bound := Nat.ofDigits_lt_base_pow_length (by decide) values
    rw [← ofDigits_eq, List.length_reverse, List.length_map] at bound
    exact bound.trans_le (Nat.pow_le_pow_right (by decide) length)
  have size : (Decimal.digits (ofDigits 10 ds)).length ≤ 21 :=
    (Nat.length_toDigits_le_iff (by decide) (by decide)).mpr small
  unfold Decimal.toFloat
  dsimp only
  rw [if_neg (by omega), if_neg (by omega), if_pos (by decide)]
  rfl

theorem ofInt_signed {n : Nat} (nonzero : n ≠ 0) (negative : Bool) :
    Float.ofInt (if negative then -n else n) =
      if negative then -Float.ofNat n else Float.ofNat n := by
  cases negative with
  | false => rfl
  | true =>
    cases n with
    | zero => exact absurd rfl nonzero
    | succ n => rfl

/-- A number that is both the integer and the double that the parts of a text say is the value of
the text. -/
theorem float?_ofNumeral {negative : Bool} {whole fs : List Char} {p : Option Int} {x : Float}
    (integer : fs = [] → p = none →
      Float.ofInt (if negative then -ofDigits 10 whole else ofDigits 10 whole) = x)
    (double : let d : Decimal := ⟨ofDigits 10 (whole ++ fs), p.getD 0 - fs.length⟩
      (if negative then -d.toFloat else d.toFloat) = x) :
    (ofNumeral negative whole fs p).float? = some x := by
  rw [ofNumeral]
  generalize hn : (if negative then -(ofDigits 10 whole : Int) else ofDigits 10 whole) = n
  rw [hn] at integer
  by_cases h : fs = [] ∧ p = none ∧ isInteger n = true ∧ ¬ (negative = true ∧ n = 0)
  · rw [if_pos h, float?, integer h.1 h.2.1]
  · rw [if_neg h, float?, double]

/-- A number that is read back from a decimal and, if this is whole, from the integer that it is,
is read back from the text of the decimal. -/
theorem Denotes.read_back {d : Decimal} {cs : List Char} (h : Denotes d cs)
    (nonzero : d.coefficient ≠ 0) {negative : Bool} {x : Float}
    (decimal : (if negative then -d.toFloat else d.toFloat) = x)
    (integer : 0 ≤ d.exponent →
      (if negative then -Float.ofNat (d.coefficient * 10 ^ d.exponent.toNat)
        else Float.ofNat (d.coefficient * 10 ^ d.exponent.toNat)) = x) :
    ∃ whole fraction fs power p, cs = whole ++ (fraction ++ power) ∧ Whole whole ∧
      Fraction fraction fs ∧ Power power p ∧
        (ofNumeral negative whole fs p).float? = some x := by
  cases h with
  | whole h exponent length value =>
    have positive : ofDigits 10 cs ≠ 0 := by
      rw [value]
      exact Nat.mul_ne_zero nonzero (Nat.pow_pos (by decide)).ne'
    have integer := integer exponent
    rw [← value] at integer
    refine ⟨cs, [], [], [], none, by simp, h, .none, .none, float?_ofNumeral ?_ ?_⟩
    · intro _ _
      rw [ofInt_signed positive, integer]
    · rw [List.append_nil, Option.getD_none, List.length_nil, Int.natCast_zero, Int.sub_zero]
      dsimp only
      rw [toFloat_of_short h.toDigits length positive, integer]
  | @parts whole fraction fs power p hwhole hfraction hpower parts value =>
    refine ⟨whole, fraction, fs, power, p, rfl, hwhole, hfraction, hpower, float?_ofNumeral ?_ ?_⟩
    · exact fun none whole => absurd ⟨none, whole⟩ parts
    · rw [value]
      exact decimal

/-- The shortest decimal of a number is read back as the number, rounded from the decimal and, if it
is whole, from the integer that it is. -/
def ReadsBack (x : Float) : Prop :=
  ∀ negative mantissa exponent, Binary.ofFloat x = .finite negative mantissa exponent →
    mantissa ≠ 0 →
      let d := Decimal.shortest Layout.value.tie mantissa exponent
      (if negative then -d.toFloat else d.toFloat) = x ∧ (0 ≤ d.exponent →
        (if negative then -Float.ofNat (d.coefficient * 10 ^ d.exponent.toNat)
          else Float.ofNat (d.coefficient * 10 ^ d.exponent.toNat)) = x)

end Json

end PromptTemplate
