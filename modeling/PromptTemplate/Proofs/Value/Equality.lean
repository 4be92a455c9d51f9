import PromptTemplate.Proofs.Value.Parts
import PromptTemplate.Value.Equality
import Mathlib

/-!
# Laws of equality

Strict equality is equality of kinds and parts. It is symmetric and transitive, and a value is
equal to itself exactly if no number in it fails to be one. A loose comparison comes to an end
after at most three comparisons, its answer does not depend on the order of the two values, and
it does not tell apart what strict equality does not tell apart.
-/

namespace PromptTemplate.Value

/-! ## Parts -/

theorem itemsEq_iff {as bs : List Value} :
    itemsEq as bs = true ↔ List.Forall₂ (fun a b => strictEq a b = true) as bs := by
  induction as generalizing bs with
  | nil => cases bs <;> simp [itemsEq]
  | cons a as ih =>
    cases bs with
    | nil => simp [itemsEq]
    | cons b bs => simp [itemsEq, ih]

theorem membersEq_iff {as bs : List (String × Value)} :
    membersEq as bs = true ↔
      ∀ e ∈ as, ∃ b, Dictionary.get? bs e.1 = some b ∧ strictEq e.2 b = true := by
  induction as with
  | nil => simp [membersEq]
  | cons e as ih =>
    obtain ⟨k, a⟩ := e
    rw [membersEq, Bool.and_eq_true, ih, List.forall_mem_cons]
    cases Dictionary.get? bs k <;> simp

theorem strictEq_array {as bs : List Value} :
    strictEq (.array as) (.array bs) = true ↔ as.length = bs.length ∧
      ∀ i (ha : i < as.length) (hb : i < bs.length), strictEq as[i] bs[i] = true := by
  rw [strictEq, itemsEq_iff, List.forall₂_iff_get]
  rfl

theorem strictEq_object {as bs : List (String × Value)} :
    strictEq (.object as) (.object bs) = true ↔ as.length = bs.length ∧
      ∀ e ∈ as, ∃ b, Dictionary.get? bs e.1 = some b ∧ strictEq e.2 b = true := by
  rw [strictEq, Bool.and_eq_true, beq_iff_eq, membersEq_iff]

/-- Strictly equal values are of one kind. -/
theorem kind_eq_of_strictEq {a b : Value} (h : strictEq a b = true) : a.kind = b.kind := by
  cases a <;> cases b <;> first | rfl | cases h

/-! ## Kinds and contents -/

/-- Equality by structure: values of one kind whose contents are equal. Lists are equal if they
are equally long and equal item by item, and dictionaries if they are equally long and everything
in the first is found, equal to it, in the second. -/
def structuralEq (a b : Value) : Bool :=
  a.kind == b.kind &&
    match a, b with
    | .bool a, .bool b => a == b
    | .number x, .number y => x == y
    | .string s, .string t => s == t
    | .array as, .array bs =>
      as.length == bs.length && (as.attach.zip bs).all fun (⟨a, _⟩, b) => structuralEq a b
    | .object as, .object bs =>
      as.length == bs.length && as.attach.all fun ⟨(k, a), _⟩ =>
        (Dictionary.get? bs k).any fun b => structuralEq a b
    | .function f, .function g => f == g
    | _, _ => true
termination_by a
decreasing_by
  · rename_i mem
    have := List.sizeOf_lt_of_mem mem
    simp only [array.sizeOf_spec]
    omega
  · rename_i mem
    have := List.sizeOf_lt_of_mem mem
    simp only [object.sizeOf_spec, Prod.mk.sizeOf_spec] at *
    omega

theorem structuralEq_array {as bs : List Value} :
    structuralEq (.array as) (.array bs) = true ↔ as.length = bs.length ∧
      ∀ i (ha : i < as.length) (hb : i < bs.length), structuralEq as[i] bs[i] = true := by
  have pairs : (as.attach.zip bs).map (Prod.map Subtype.val id) = as.zip bs := by
    rw [← List.zip_map_left, List.attach_map_subtype_val]
  have all : ((as.attach.zip bs).all fun (⟨a, _⟩, b) => structuralEq a b) =
      (as.zip bs).all fun (a, b) => structuralEq a b := by
    rw [← pairs, List.all_map]
    rfl
  rw [structuralEq, all]
  simp only [kind, beq_self_eq_true, Bool.true_and, Bool.and_eq_true, beq_iff_eq,
    List.all_eq_true, Prod.forall]
  rw [← List.forall₂_iff_zip, List.forall₂_iff_get]
  rfl

theorem structuralEq_object {as bs : List (String × Value)} :
    structuralEq (.object as) (.object bs) = true ↔ as.length = bs.length ∧
      ∀ e ∈ as, ∃ b, Dictionary.get? bs e.1 = some b ∧ structuralEq e.2 b = true := by
  rw [structuralEq]
  simp [kind, Option.any_eq_true]

theorem kind_eq_of_structuralEq {a b : Value} (h : structuralEq a b = true) :
    a.kind = b.kind := by
  unfold structuralEq at h
  exact beq_iff_eq.mp (Bool.and_eq_true_iff.mp h).1

/-- Strict equality is equality by structure. -/
theorem strictEq_eq_structuralEq (a b : Value) : strictEq a b = structuralEq a b := by
  have other {a b : Value} (h : a.kind ≠ b.kind) : strictEq a b = structuralEq a b := by
    rw [Bool.eq_false_iff.mpr (mt kind_eq_of_strictEq h),
      Bool.eq_false_iff.mpr (mt kind_eq_of_structuralEq h)]
  induction a using induct generalizing b with
  | array as ih =>
    cases b with
    | array bs =>
      rw [Bool.eq_iff_iff, strictEq_array, structuralEq_array]
      refine and_congr_right fun _ => forall₃_congr fun i ha hb => ?_
      rw [ih as[i] (List.getElem_mem ha)]
    | _ => exact other nofun
  | object as ih =>
    cases b with
    | object bs =>
      rw [Bool.eq_iff_iff, strictEq_object, structuralEq_object]
      refine and_congr_right fun _ => forall₂_congr fun e mem => ?_
      simp only [ih e mem]
    | _ => exact other nofun
  | _ => cases b <;> simp [strictEq, structuralEq, kind]

/-! ## Laws of strict equality -/

/-- What is found of the first members among the second ones is all there is, so equality is the
same from the other side. -/
theorem strictEq_symm {a b : Value} (ha : a.UniqueKeys) (hb : b.UniqueKeys)
    (h : strictEq a b = true) : strictEq b a = true := by
  induction a using induct generalizing b with
  | array as ih =>
    cases b with
    | array bs =>
      obtain ⟨length, items⟩ := strictEq_array.mp h
      refine strictEq_array.mpr ⟨length.symm, fun i hi hj => ?_⟩
      have mem := List.getElem_mem hj
      exact ih _ mem (uniqueKeys_array.mp ha _ mem)
        (uniqueKeys_array.mp hb _ (List.getElem_mem hi)) (items i hj hi)
    | _ => cases h
  | object as ih =>
    cases b with
    | object bs =>
      obtain ⟨length, members⟩ := strictEq_object.mp h
      obtain ⟨distinctA, insideA⟩ := uniqueKeys_object.mp ha
      obtain ⟨distinctB, insideB⟩ := uniqueKeys_object.mp hb
      have found : Dictionary.keys as ⊆ Dictionary.keys bs := by
        intro k mem
        obtain ⟨e, he, rfl⟩ := List.mem_map.mp mem
        obtain ⟨b, get, -⟩ := members e he
        exact List.mem_map.mpr ⟨(e.1, b), Dictionary.mem_of_get? get, rfl⟩
      -- As many different keys as there are in the second object: no other key is in it.
      have all := Dictionary.keys_subset distinctA length found
      refine strictEq_object.mpr ⟨length.symm, ?_⟩
      rintro ⟨k, b⟩ memB
      obtain ⟨⟨l, a⟩, memA, same⟩ := List.mem_map.mp (all (List.mem_map.mpr ⟨(k, b), memB, rfl⟩))
      obtain rfl : l = k := same
      obtain ⟨b', get, equal⟩ := members (l, a) memA
      have getB := Dictionary.get?_of_mem distinctB memB
      obtain rfl : b' = b := Option.some.inj (get.symm.trans getB)
      exact ⟨a, Dictionary.get?_of_mem distinctA memA,
        ih (l, a) memA (insideA _ memA) (insideB _ memB) equal⟩
    | _ => cases h
  | number x =>
    cases b with
    | number y => exact BEq.symm h
    | _ => cases h
  | _ => cases b <;> simp_all [strictEq]

theorem strictEq_comm {a b : Value} (ha : a.UniqueKeys) (hb : b.UniqueKeys) :
    strictEq a b = strictEq b a :=
  Bool.eq_iff_iff.mpr ⟨strictEq_symm ha hb, strictEq_symm hb ha⟩

theorem strictEq_trans {a b c : Value} (hab : strictEq a b = true) (hbc : strictEq b c = true) :
    strictEq a c = true := by
  induction a using induct generalizing b c with
  | array as ih =>
    cases b with
    | array bs =>
      cases c with
      | array cs =>
        obtain ⟨lengthB, itemsB⟩ := strictEq_array.mp hab
        obtain ⟨lengthC, itemsC⟩ := strictEq_array.mp hbc
        refine strictEq_array.mpr ⟨lengthB.trans lengthC, fun i hi hk => ?_⟩
        have hj : i < bs.length := lengthB ▸ hi
        exact ih _ (List.getElem_mem hi) (itemsB i hi hj) (itemsC i hj hk)
      | _ => cases hbc
    | _ => cases hab
  | object as ih =>
    cases b with
    | object bs =>
      cases c with
      | object cs =>
        obtain ⟨lengthB, membersB⟩ := strictEq_object.mp hab
        obtain ⟨lengthC, membersC⟩ := strictEq_object.mp hbc
        refine strictEq_object.mpr ⟨lengthB.trans lengthC, fun e mem => ?_⟩
        obtain ⟨b, getB, equalB⟩ := membersB e mem
        obtain ⟨c, getC, equalC⟩ := membersC (e.1, b) (Dictionary.mem_of_get? getB)
        exact ⟨c, getC, ih e mem equalB equalC⟩
      | _ => cases hbc
    | _ => cases hab
  | number x =>
    cases b with
    | number y =>
      cases c with
      | number z => exact BEq.trans (a := x) hab hbc
      | _ => cases hbc
    | _ => cases hab
  | _ => cases b <;> cases c <;> simp_all [strictEq]

/-- A value is equal to itself exactly if all numbers in it are. -/
theorem strictEq_self_iff {v : Value} (h : v.UniqueKeys) :
    strictEq v v = true ↔ v.NaNFree := by
  induction v using induct with
  | array items ih =>
    have inside := uniqueKeys_array.mp h
    have each : (∀ v ∈ items, v.NaNFree) ↔ ∀ v ∈ items, strictEq v v = true :=
      forall₂_congr fun v mem => (ih v mem (inside v mem)).symm
    rw [strictEq_array, NaNFree, everywhere_array]
    change _ ↔ True ∧ ∀ v ∈ items, v.NaNFree
    rw [each, List.forall_mem_iff_forall_getElem]
    simp
  | object members ih =>
    obtain ⟨distinct, inside⟩ := uniqueKeys_object.mp h
    have each : (∀ e ∈ members, e.2.NaNFree) ↔ ∀ e ∈ members, strictEq e.2 e.2 = true :=
      forall₂_congr fun e mem => (ih e mem (inside e mem)).symm
    rw [strictEq_object, NaNFree, everywhere_object]
    change _ ↔ True ∧ ∀ e ∈ members, e.2.NaNFree
    rw [each]
    refine and_congr (iff_of_true rfl trivial) (forall₂_congr fun e mem => ?_)
    rw [Dictionary.get?_of_mem distinct mem]
    simp
  | number x =>
    rw [NaNFree, everywhere_atom (by nofun) (by nofun), strictEq, IsNoNaN, Float.beq_self_iff,
      Float.isNaN_eq_decide_eq_nan, decide_eq_false_iff_not]
  | _ =>
    rw [NaNFree, everywhere_atom (by nofun) (by nofun)]
    simp [strictEq, IsNoNaN]

/-! ## Laws of loose equality -/

/-- The comparison with the two values in the other order. -/
def Comparison.swap : Comparison → Comparison
  | .settled equal => .settled equal
  | .between a b => .between b a

/-- A comparison of two values that ends with an answer after some comparisons. -/
inductive Compared : Nat → Value → Value → Bool → Prop where
  | settled {a b : Value} {equal : Bool} (h : comparison a b = .settled equal) :
    Compared 1 a b equal
  | between {n : Nat} {a b c d : Value} {equal : Bool} (h : comparison a b = .between c d)
    (later : Compared n c d equal) : Compared (n + 1) a b equal

theorem comparison_of_kind_eq {a b : Value} (h : a.kind = b.kind) :
    comparison a b = .settled (strictEq a b) := by
  unfold comparison
  exact if_pos h

theorem looseEq_of_settled {a b : Value} {equal : Bool} (h : comparison a b = .settled equal) :
    looseEq a b = equal := by
  rw [looseEq]
  split <;> simp_all

theorem looseEq_of_between {a b c d : Value} (h : comparison a b = .between c d) :
    looseEq a b = looseEq c d := by
  rw [looseEq]
  split <;> simp_all

/-- Loose equality is settled after one comparison more than values can give way. -/
theorem compared_looseEq (a b : Value) :
    ∃ n ≤ a.coercions + b.coercions + 1, Compared n a b (looseEq a b) := by
  induction a, b using looseEq.induct with
  | case1 a b equal h =>
    rw [looseEq_of_settled h]
    exact ⟨1, by omega, .settled h⟩
  | case2 a b c d h less ih =>
    obtain ⟨n, bound, compared⟩ := ih
    rw [looseEq_of_between h]
    exact ⟨n + 1, by omega, .between h compared⟩

theorem comparison_swap {a b : Value} (ha : a.UniqueKeys) (hb : b.UniqueKeys) :
    comparison b a = (comparison a b).swap := by
  by_cases same : a.kind = b.kind
  · rw [comparison_of_kind_eq same, comparison_of_kind_eq same.symm, strictEq_comm ha hb]
    rfl
  · cases a <;> cases b <;>
      first
        | exact absurd rfl same
        | simp [comparison, kind, isNullish, isReference, Comparison.swap, BEq.comm]

theorem uniqueKeys_of_between {a b c d : Value} (ha : a.UniqueKeys) (hb : b.UniqueKeys)
    (h : comparison a b = .between c d) : c.UniqueKeys ∧ d.UniqueKeys := by
  have number (x : Float) : (Value.number x).UniqueKeys := uniqueKeys_atom (by nofun) (by nofun)
  have string (s : String) : (Value.string s).UniqueKeys := uniqueKeys_atom (by nofun) (by nofun)
  cases a <;> cases b <;> simp [comparison, kind, isNullish, isReference, primitive] at h <;>
    (obtain ⟨rfl, rfl⟩ := h; simp [*])

/-- The answer of a loose comparison does not depend on the order of the values. -/
theorem looseEq_comm {a b : Value} (ha : a.UniqueKeys) (hb : b.UniqueKeys) :
    looseEq a b = looseEq b a := by
  have swapped := comparison_swap ha hb
  induction a, b using looseEq.induct with
  | case1 a b equal h =>
    rw [h] at swapped
    rw [looseEq_of_settled h, looseEq_of_settled swapped]
  | case2 a b c d h less ih =>
    rw [h] at swapped
    obtain ⟨hc, hd⟩ := uniqueKeys_of_between ha hb h
    rw [looseEq_of_between h, looseEq_of_between swapped]
    exact ih hc hd (comparison_swap hc hd)

theorem looseEq_of_strictEq {a b : Value} (h : strictEq a b = true) : looseEq a b = true := by
  rw [looseEq_of_settled (comparison_of_kind_eq (kind_eq_of_strictEq h)), h]

theorem coercions_le (v : Value) : v.coercions ≤ 1 := by
  cases v <;> simp [coercions]

/-- Strict equality is equality by structure, symmetric and transitive, and reflexive on the values
whose numbers all are numbers. Loose equality ends after three comparisons, is symmetric, and
holds wherever strict equality does. -/
theorem equality_laws {a b : Value} (ha : a.UniqueKeys) (hb : b.UniqueKeys) :
    strictEq a b = structuralEq a b ∧
      strictEq a b = strictEq b a ∧
      (∀ c, strictEq a b = true → strictEq b c = true → strictEq a c = true) ∧
      (strictEq a a = true ↔ a.NaNFree) ∧
      (∃ n ≤ 3, Compared n a b (looseEq a b)) ∧
      looseEq a b = looseEq b a ∧
      (strictEq a b = true → looseEq a b = true) := by
  have ended : ∃ n ≤ 3, Compared n a b (looseEq a b) := by
    obtain ⟨n, bound, compared⟩ := compared_looseEq a b
    have := a.coercions_le
    have := b.coercions_le
    exact ⟨n, by omega, compared⟩
  exact ⟨strictEq_eq_structuralEq a b, strictEq_comm ha hb, fun _ => strictEq_trans,
    strictEq_self_iff ha, ended, looseEq_comm ha hb, looseEq_of_strictEq⟩

theorem equality_laws_reordered :
    let a := Value.object [("k", .array [.string "1", .null]), ("l", .bool true)]
    let b := Value.object [("l", .bool true), ("k", .array [.string "1", .null])]
    a.UniqueKeys ∧ b.UniqueKeys ∧ strictEq a b = true ∧ strictEq b a = true ∧ a.NaNFree ∧
      looseEq b a = true := by
  intro a b
  have string : (Value.string "1").UniqueKeys := uniqueKeys_atom nofun nofun
  have null : Value.null.UniqueKeys := uniqueKeys_atom nofun nofun
  have truth : (Value.bool true).UniqueKeys := uniqueKeys_atom nofun nofun
  have items : (Value.array [.string "1", .null]).UniqueKeys := by
    simp [uniqueKeys_array, string, null]
  have ha : a.UniqueKeys := uniqueKeys_object.mpr ⟨by decide, by simp [items, truth]⟩
  have hb : b.UniqueKeys := uniqueKeys_object.mpr ⟨by decide, by simp [items, truth]⟩
  have equal : strictEq a b = true := by decide
  obtain ⟨-, symm, trans, self, -, comm, loose⟩ := equality_laws ha hb
  have equal' : strictEq b a = true := symm.symm.trans equal
  exact ⟨ha, hb, equal, equal', self.mp (trans a equal equal'), comm.symm.trans (loose equal)⟩

end PromptTemplate.Value
