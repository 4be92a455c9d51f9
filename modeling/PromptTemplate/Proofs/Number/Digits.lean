import PromptTemplate.Number.Reading
import Mathlib.Data.List.Induction
import Mathlib.Data.Nat.Digits.Defs
import Mathlib.Tactic.Ring

/-!
# Digits

The digits of a base are the first of sixteen, with letters of either case. What the readers
take for a digit is one of them.
-/

namespace PromptTemplate.Number

/-- The digits of a base up to sixteen. -/
def digitsOf (base : Nat) : List Char :=
  "0123456789abcdef".toList.take base ++ "0123456789ABCDEF".toList.take base

theorem digitsOf_subset {base : Nat} (hbase : base ≤ 16) : digitsOf base ⊆ digitsOf 16 :=
  List.append_subset.mpr
    ⟨fun _ h => List.mem_append_left _ (List.take_subset_take_left _ hbase h),
      fun _ h => List.mem_append_right _ (List.take_subset_take_left _ hbase h)⟩

/-- The front of a row of digits that stand for 0, 1 and so on in this order. -/
theorem mem_take_iff {row : List Char} {base n : Nat} {c : Char}
    (values : row.map digitValue = List.range n) :
    c ∈ row.take base ↔ c ∈ row ∧ digitValue c < base := by
  have value (i : Nat) (hi : i < row.length) : digitValue row[i] = i := by
    have same := congrArg (fun vs => vs[i]?) values
    have inside : i < n := by
      have := congrArg List.length values
      rw [List.length_map, List.length_range] at this
      omega
    simpa [hi, inside] using same
  constructor
  · intro h
    obtain ⟨i, hi, rfl⟩ := List.mem_take_iff_getElem.mp h
    rw [value i (by omega)]
    exact ⟨List.getElem_mem _, by omega⟩
  · intro ⟨h, small⟩
    obtain ⟨i, hi, rfl⟩ := List.mem_iff_getElem.mp h
    rw [value i hi] at small
    exact List.mem_take_iff_getElem.mpr ⟨i, by omega, rfl⟩

theorem mem_digitsOf_sixteen {c : Char} : c ∈ digitsOf 16 ↔ isDigitOf 16 c = true := by
  have codes : c ∈ digitsOf 16 ↔ c.toNat ∈ (digitsOf 16).map Char.toNat := by
    rw [List.mem_map]
    exact ⟨fun h => ⟨c, h, rfl⟩, fun ⟨d, hd, same⟩ => Char.toNat_inj.mp same ▸ hd⟩
  have list : (digitsOf 16).map Char.toNat = List.range' 48 10 ++ List.range' 97 6 ++
      (List.range' 48 10 ++ List.range' 65 6) := by decide
  have digit : c.isDigit = true ↔ 48 ≤ c.toNat ∧ c.toNat ≤ 57 := by
    simp only [Char.isDigit, Bool.and_eq_true, decide_eq_true_eq, UInt32.le_iff_toNat_le,
      ge_iff_le]
    exact Iff.rfl
  have range (a b : Char) : (a ≤ c ∧ c ≤ b) ↔ (a.toNat ≤ c.toNat ∧ c.toNat ≤ b.toNat) := Iff.rfl
  have ends : '0'.toNat = 48 ∧ 'a'.toNat = 97 ∧ 'z'.toNat = 122 ∧ 'A'.toNat = 65 ∧
      'Z'.toNat = 90 := by decide
  rw [codes, list]
  simp only [List.mem_append, List.mem_range'_1, isDigitOf, digitValue, decide_eq_true_eq, digit,
    range, ends]
  split
  · omega
  · split
    · omega
    · split <;> omega

theorem mem_digitsOf {base : Nat} (hbase : base ≤ 16) {c : Char} :
    c ∈ digitsOf base ↔ isDigitOf base c = true := by
  have lower : "0123456789abcdef".toList.map digitValue = List.range 16 := by decide
  have upper : "0123456789ABCDEF".toList.map digitValue = List.range 16 := by decide
  have front : c ∈ digitsOf base ↔ c ∈ digitsOf 16 ∧ digitValue c < base := by
    have whole : digitsOf 16 = "0123456789abcdef".toList ++ "0123456789ABCDEF".toList := rfl
    rw [whole, digitsOf, List.mem_append, List.mem_append, mem_take_iff lower, mem_take_iff upper,
      or_and_right]
  rw [front, mem_digitsOf_sixteen]
  simp only [isDigitOf, decide_eq_true_eq]
  omega

theorem digitValue_of_isDigit {c : Char} (h : c.isDigit = true) :
    digitValue c + 48 = c.toNat ∧ digitValue c < 10 := by
  rw [digitValue, if_pos h]
  simp only [Char.isDigit, Bool.and_eq_true, decide_eq_true_eq, UInt32.le_iff_toNat_le] at h
  have zero : '0'.toNat = 48 := rfl
  have low : 48 ≤ c.toNat := h.1
  have high : c.toNat ≤ 57 := h.2
  omega

theorem mem_digitsOf_ten {c : Char} : c ∈ digitsOf 10 ↔ c.isDigit = true := by
  rw [mem_digitsOf (by decide)]
  constructor
  · intro h
    by_contra other
    simp only [isDigitOf, digitValue, if_neg other, decide_eq_true_eq] at h
    split at h
    · omega
    · split at h <;> omega
  · intro h
    exact decide_eq_true (digitValue_of_isDigit h).2

theorem digitValue_inj {c d : Char} (hc : c.isDigit = true) (hd : d.isDigit = true)
    (h : digitValue c = digitValue d) : c = d := by
  have same : c.toNat = d.toNat := by
    have := digitValue_of_isDigit hc
    have := digitValue_of_isDigit hd
    omega
  exact Char.toNat_inj.mp same

/-- Digits with the most significant one first, in terms of those with the least
significant one first. -/
theorem ofDigits_eq (base : Nat) (cs : List Char) :
    ofDigits base cs = Nat.ofDigits base (cs.map digitValue).reverse := by
  induction cs using List.reverseRecOn with
  | nil => rfl
  | append_singleton rest c ih =>
    rw [ofDigits] at ih ⊢
    rw [List.foldl_append, List.foldl_cons, List.foldl_nil, ih, List.map_append, List.map_singleton,
      List.reverse_append, List.reverse_singleton, List.singleton_append, Nat.ofDigits_cons]
    ring

/-- One or more digits. -/
structure Digits (base : Nat) (ds : List Char) : Prop where
  nonempty : ds ≠ []
  digits : ∀ d ∈ ds, d ∈ digitsOf base

theorem digits_iff {base : Nat} (hbase : base ≤ 16) {ds : List Char} :
    Digits base ds ↔ (ds.isEmpty || !ds.all (isDigitOf base)) = false := by
  simp only [Bool.or_eq_false_iff, Bool.not_eq_false', List.isEmpty_eq_false_iff,
    List.all_eq_true, ← mem_digitsOf hbase]
  exact ⟨fun h => ⟨h.nonempty, h.digits⟩, fun h => ⟨h.1, h.2⟩⟩

theorem digits_ten_iff {ds : List Char} :
    Digits 10 ds ↔ (ds.isEmpty || !ds.all Char.isDigit) = false := by
  simp only [Bool.or_eq_false_iff, Bool.not_eq_false', List.isEmpty_eq_false_iff,
    List.all_eq_true, ← mem_digitsOf_ten]
  exact ⟨fun h => ⟨h.nonempty, h.digits⟩, fun h => ⟨h.1, h.2⟩⟩

end PromptTemplate.Number
