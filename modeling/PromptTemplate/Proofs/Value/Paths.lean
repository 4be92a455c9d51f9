import PromptTemplate.Proofs.Number.Digits
import PromptTemplate.Proofs.Number.Doubles
import PromptTemplate.Proofs.Dictionary
import PromptTemplate.Value.Property
import Mathlib

/-!
# Reading what was written

A write along a path puts one value into every container on the way. What it puts can be
read along the same path, every path that leaves the way reads what it read before, and
the members of an object on the way keep their order. All of this is said of one
container first and then of paths, by recursion on the path.
-/

namespace PromptTemplate

/-! ## Indexes -/

namespace Number

/-- A whole number that is a double is equal to the double of that number. -/
theorem beq_ofNat_of_integer? {x : Float} {i : Int} (h : integer? x = some i) (nonneg : 0 ≤ i)
    (small : i < 2 ^ 53) : (x == Float.ofNat i.toNat) = true := by
  have same : Float.ofNat i.toNat = Float.ofInt i := by
    obtain ⟨n, rfl⟩ := Int.eq_ofNat_of_zero_le nonneg
    rfl
  rw [same]
  by_cases signed : x = -0
  · subst signed
    obtain rfl : i = 0 := Option.some.inj (h.symm.trans (by decide +kernel))
    decide +kernel
  · rw [ofInt_of_integer? h (by omega) signed]
    exact beq_self_of_isFinite (isFinite_of_integer? h)

end Number

namespace Value

/-- The digits of an index, which has no leading zero unless it is zero. -/
theorem digits_of_index? {key : String} {i : Nat} (h : index? key = some i) :
    (∀ c ∈ key.toList, c.isDigit = true) ∧
      key.toList.map Number.digitValue = if i = 0 then [0] else (Nat.digits 10 i).reverse := by
  simp only [index?] at h
  split at h
  · cases h
  · rename_i digits
    split at h
    · rename_i canonical
      obtain rfl := Option.some.inj h
      simp only [Bool.or_eq_true, not_or, Bool.not_eq_true, Bool.not_eq_false',
        List.isEmpty_eq_false_iff, List.all_eq_true] at digits
      obtain ⟨nonempty, digits⟩ := digits
      refine ⟨digits, ?_⟩
      generalize key.toList = cs at *
      obtain ⟨c, rest, rfl⟩ := List.exists_cons_of_ne_nil nonempty
      by_cases leading : c = '0'
      · obtain rfl : rest = [] := by
          rcases canonical.2 with hne | hlength
          · exact absurd (congrArg some leading) hne
          · exact List.length_eq_zero_iff.mp (by simpa using hlength)
        subst leading
        decide
      · have hc : Number.digitValue c ≠ 0 := by
          intro hzero
          exact leading (Number.digitValue_inj (digits c List.mem_cons_self) (by decide) hzero)
        have hdigits : Nat.digits 10 (Number.ofDigits 10 (c :: rest)) =
            ((c :: rest).map Number.digitValue).reverse := by
          rw [Number.ofDigits_eq]
          refine Nat.digits_ofDigits 10 (by decide) _ ?_ ?_
          · intro d hd
            obtain ⟨b, hb, rfl⟩ := List.mem_map.mp (List.mem_reverse.mp hd)
            exact (Number.digitValue_of_isDigit (digits b hb)).2
          · intro _
            simpa using hc
        have hpos : Number.ofDigits 10 (c :: rest) ≠ 0 := by
          intro hzero
          rw [hzero] at hdigits
          simp at hdigits
        rw [if_neg hpos, hdigits, List.reverse_reverse]
    · cases h

/-- Two names of one index are the same. -/
theorem index?_inj {k l : String} {i : Nat} (hk : index? k = some i) (hl : index? l = some i) :
    k = l := by
  obtain ⟨digitsK, valuesK⟩ := digits_of_index? hk
  obtain ⟨digitsL, valuesL⟩ := digits_of_index? hl
  have values := valuesK.trans valuesL.symm
  have same : k.toList = l.toList := by
    clear valuesK valuesL hk hl
    generalize k.toList = cs, l.toList = ds at *
    induction cs generalizing ds with
    | nil => exact (List.map_eq_nil_iff.mp values.symm).symm
    | cons c cs ih =>
      cases ds with
      | nil => cases values
      | cons d ds =>
        obtain ⟨head, tail⟩ := List.cons.inj values
        obtain ⟨hc, hcs⟩ := List.forall_mem_cons.mp digitsK
        obtain ⟨hd, hds⟩ := List.forall_mem_cons.mp digitsL
        rw [Number.digitValue_inj hc hd head, ih ds hcs hds tail]
  exact String.toList_inj.mp same

theorem ne_length_of_index? {key : String} {i : Nat} (h : index? key = some i) :
    key ≠ "length" := by
  intro heq
  subst heq
  have : index? "length" = none := by decide
  rw [this] at h
  cases h

/-! ## One container -/

/-- What a write puts into a container: a child under a key. An array may be longer
afterwards, but reads the same under every other index. -/
inductive Put (key : String) (child : Value) : Value → Value → Prop where
  | object (members : List (String × Value)) :
    Put key child (.object members) (.object (Dictionary.put members key child))
  | array {items changed : List Value} {i : Nat} (hkey : index? key = some i)
    (here : changed[i]? = some child)
    (others : ∀ j, j ≠ i → changed[j]?.getD .undefined = items[j]?.getD .undefined) :
    Put key child (.array items) (.array changed)

namespace Put

variable {key : String} {child a b : Value}

/-- What was put is read, strictly or not. -/
theorem property_self (h : Put key child a b) (strict : Bool) :
    b.property strict key = .ok child := by
  cases h with
  | object members => simp [property, Dictionary.get?_put]
  | array hkey here _ => simp [property, ne_length_of_index? hkey, hkey, here]

/-- Under another key, that of the length apart, everything is read as before. -/
theorem property_ne (h : Put key child a b) {other : String} (hne : key ≠ other)
    (named : ∀ items, a = .array items → other ≠ "length") (strict : Bool) :
    b.property strict other = a.property strict other := by
  cases h with
  | object members => simp [property, Dictionary.get?_put, hne]
  | @array items changed i hkey _ others =>
    simp only [property, if_neg (named items rfl)]
    cases hother : index? other with
    | none => rfl
    | some j =>
      have hij : j ≠ i := by
        intro heq
        exact hne (index?_inj hkey (heq ▸ hother))
      exact congrArg Except.ok (others j hij)

end Put

@[simp] theorem length_resize (items : List Value) (n : Nat) : (resize items n).length = n := by
  simp [resize]
  omega

/-- A longer list has undefined where the shorter one ended. -/
theorem getElem?_resize {items : List Value} {n : Nat} (longer : items.length ≤ n) (j : Nat) :
    (resize items n)[j]?.getD Value.undefined = items[j]?.getD .undefined := by
  rw [resize, List.take_of_length_le longer, List.getElem?_append]
  split
  · rfl
  · rename_i outside
    rw [List.getElem?_eq_none (by omega : items.length ≤ j), List.getElem?_replicate]
    split <;> rfl

/-- A list that was written at an index reads the same at every other one. -/
theorem put_set {items longer : List Value} {key : String} {i : Nat} (hkey : index? key = some i)
    (bound : i < longer.length)
    (same : ∀ j : Nat, longer[j]?.getD Value.undefined = items[j]?.getD .undefined) (child : Value) :
    Put key child (.array items) (.array (longer.set i child)) := by
  refine .array hkey (List.getElem?_set_self bound) ?_
  intro j hj
  rw [List.getElem?_set_ne (Ne.symm hj)]
  exact same j

theorem resize_of_grow {items longer : List Value} {n : Nat} {step : Step}
    (h : grow items n step = .ok longer) : longer = resize items n := by
  rw [grow] at h
  split at h
  · cases h
  · exact (Except.ok.inj h).symm

theorem ok_of_map {α β : Type} {f : α → β} {r : Except Error α} {b : β} (h : r.map f = .ok b) :
    ∃ a, r = .ok a ∧ f a = b := by
  cases r with
  | error e => cases h
  | ok a => exact ⟨a, rfl, Except.ok.inj h⟩

/-- A change of one property puts the value there, or gives an array that length. -/
theorem withProperty_cases {target result v : Value} {step : Step}
    (h : target.withProperty step v = .ok result) :
    Put step.name v target result ∨
      ∃ items n, step.name = "length" ∧ target = .array items ∧ length? v = some n ∧
        result = .array (resize items n) := by
  cases target with
  | object members =>
    simp only [withProperty] at h
    split at h
    · cases h
    · obtain rfl := Except.ok.inj h
      exact .inl (.object members)
  | array items =>
    simp only [withProperty] at h
    cases hkey : index? step.name with
    | some i =>
      left
      simp only [hkey] at h
      split at h
      · rename_i bound
        obtain rfl := Except.ok.inj h
        exact put_set hkey bound (fun _ => rfl) v
      · obtain ⟨longer, hgrow, rfl⟩ := ok_of_map h
        obtain rfl := resize_of_grow hgrow
        exact put_set hkey (by simp) (getElem?_resize (by omega)) v
    | none =>
      simp only [hkey] at h
      split at h
      · rename_i hlength
        cases hv : length? v with
        | none =>
          rw [hv] at h
          cases h
        | some n =>
          rw [hv] at h
          obtain ⟨longer, hgrow, rfl⟩ := ok_of_map h
          obtain rfl := resize_of_grow hgrow
          exact .inr ⟨items, n, hlength, rfl, rfl, rfl⟩
      · split at h <;> cases h
  | _ => cases h

/-- A write below a member or an item changes what is there and puts it back. -/
theorem writePath_cons_cases {target result v : Value} {step next : Step} {rest : List Step}
    (h : target.writePath (step :: next :: rest) v = .ok result) :
    ∃ old child, (∀ strict, target.property strict step.name = .ok old) ∧
      old.writePath (next :: rest) v = .ok child ∧ Put step.name child target result := by
  simp only [writePath] at h
  cases target with
  | object members =>
    cases found : Dictionary.get? members step.name with
    | none =>
      simp only [found] at h
      cases h
    | some old =>
      simp only [found] at h
      obtain ⟨child, hchild, rfl⟩ := ok_of_map h
      exact ⟨old, child, fun strict => by simp [property, found], hchild, .object members⟩
  | array items =>
    cases hi : (index? step.name).bind fun i => items[i]?.map (i, ·) with
    | none =>
      simp only [hi] at h
      cases h
    | some found =>
      obtain ⟨i, old⟩ := found
      simp only [hi] at h
      obtain ⟨child, hchild, rfl⟩ := ok_of_map h
      obtain ⟨j, hkey, hitem⟩ := Option.bind_eq_some_iff.mp hi
      obtain ⟨found, hfound, heq⟩ := Option.map_eq_some_iff.mp hitem
      obtain ⟨rfl, rfl⟩ := Prod.mk.inj heq
      have bound : j < items.length := (List.getElem?_eq_some_iff.mp hfound).1
      refine ⟨found, child, ?_, hchild, put_set hkey bound (fun _ => rfl) child⟩
      intro strict
      simp [property, ne_length_of_index? hkey, hkey, hfound]
  | _ => cases h

/-! ## Paths -/

/-- How a write along a path changes a value: the whole of it, the length of an array, a
property, or what is below a property. -/
inductive Written (v : Value) : Value → List Step → Value → Prop where
  | whole (root : Value) : Written v root [] v
  | length {items : List Value} {n : Nat} {step : Step} (hname : step.name = "length")
    (hv : length? v = some n) : Written v (.array items) [step] (.array (resize items n))
  | last {target result : Value} {step : Step} (put : Put step.name v target result) :
    Written v target [step] result
  | inside {target old child result : Value} {step : Step} {rest : List Step}
    (found : ∀ strict, target.property strict step.name = .ok old)
    (inner : Written v old rest child) (put : Put step.name child target result) :
    Written v target (step :: rest) result

theorem written_of_writePath {root result v : Value} {steps : List Step}
    (h : root.writePath steps v = .ok result) : Written v root steps result := by
  induction steps generalizing root result with
  | nil =>
    obtain rfl := Except.ok.inj h
    exact .whole root
  | cons step rest ih =>
    cases rest with
    | nil =>
      rcases withProperty_cases h with put | ⟨items, n, hname, rfl, hv, rfl⟩
      · exact .last put
      · exact .length hname hv
    | cons next rest =>
      obtain ⟨old, child, found, hchild, put⟩ := writePath_cons_cases h
      exact .inside found (ih hchild) put

/-- The first key of a path that is read. -/
theorem readPath_cons {target child : Value} {step : Step}
    (h : target.property (!step.computed) step.name = .ok child) (rest : List Step) :
    target.readPath (step :: rest) = child.readPath rest := by
  rw [readPath, h]

/-- Values that have the same property under the first key of a path. -/
theorem readPath_congr {a b : Value} {step : Step}
    (h : b.property (!step.computed) step.name = a.property (!step.computed) step.name)
    (rest : List Step) : b.readPath (step :: rest) = a.readPath (step :: rest) := by
  rw [readPath, readPath, h]

/-- Two values are the same number, which has two forms if it is zero. -/
def SameNumber (v u : Value) : Prop := ∃ x y, v = .number x ∧ u = .number y ∧ (x == y) = true

theorem sameNumber_of_length? {v : Value} {n : Nat} (h : length? v = some n) :
    SameNumber v (ofNat n) := by
  rw [length?.eq_def] at h
  split at h
  · rename_i x
    split at h
    · rename_i i hi
      split at h
      · rename_i range
        obtain rfl := Option.some.inj h
        have small : i < 2 ^ 53 := Int.lt_of_le_of_lt range.2 (by decide)
        exact ⟨x, _, rfl, rfl, Number.beq_ofNat_of_integer? hi range.1 small⟩
      · cases h
    · cases h
  · cases h

/-- The last key of a path is the length of an array. -/
def EndsInLength (root : Value) (steps : List Step) : Prop :=
  ∃ front last items, steps = front ++ [last] ∧ last.name = "length" ∧
    root.readPath front = .ok (.array items)

theorem EndsInLength.cons {target child : Value} {step : Step} {rest : List Step}
    (found : target.property (!step.computed) step.name = .ok child)
    (h : EndsInLength child rest) : EndsInLength target (step :: rest) := by
  obtain ⟨front, last, items, rfl, hlast, hread⟩ := h
  exact ⟨step :: front, last, items, rfl, hlast, (readPath_cons found front).trans hread⟩

/-- Two paths part: after the same keys they go on with two different ones, neither of
which is the length of an array. Whether the keys are computed and where they stand does
not matter. -/
inductive Parting (root : Value) : List Step → List Step → Prop where
  | intro (front front' : List Step) (step step' : Step) (rest rest' : List Step)
    (same : front.map Step.name = front'.map Step.name) (ne : step.name ≠ step'.name)
    (plain : ∀ items, root.readPath front = .ok (.array items) →
      step.name ≠ "length" ∧ step'.name ≠ "length") :
    Parting root (front ++ step :: rest) (front' ++ step' :: rest')

namespace Written

variable {root result v : Value} {steps : List Step}

/-- What was written is read. -/
theorem read (h : Written v root steps result) :
    ∃ u, result.readPath steps = .ok u ∧ (u = v ∨ EndsInLength root steps ∧ SameNumber v u) := by
  induction h with
  | whole root => exact ⟨v, rfl, .inl rfl⟩
  | @length items n step hname hv =>
    refine ⟨ofNat n, ?_, .inr ⟨⟨[], step, items, rfl, hname, rfl⟩, sameNumber_of_length? hv⟩⟩
    simp [readPath, property, hname]
  | @last target result step put =>
    exact ⟨v, readPath_cons (put.property_self _) [], .inl rfl⟩
  | @inside target old child result step rest found inner put ih =>
    obtain ⟨u, hread, hu⟩ := ih
    refine ⟨u, (readPath_cons (put.property_self _) rest).trans hread, ?_⟩
    rcases hu with same | ⟨ends, number⟩
    · exact .inl same
    · exact .inr ⟨ends.cons (found _), number⟩

/-- A path that parts from the written one reads the value or the error of before. -/
theorem readPath_eq (h : Written v root steps result) {others : List Step}
    (parting : Parting root steps others) : result.readPath others = root.readPath others := by
  induction h generalizing others with
  | whole root =>
    generalize hsteps : ([] : List Step) = steps at parting
    cases parting with
    | intro front => cases front <;> cases hsteps
  | @length items n step hname hv =>
    generalize hsteps : [step] = steps at parting
    cases parting with
    | intro front front' first first' rest rest' same ne plain =>
      rcases front with _ | ⟨_, _ | _⟩
      · cases hsteps
        exact absurd hname (plain items rfl).1
      · cases hsteps
      · cases hsteps
  | @last target result step put =>
    generalize hsteps : [step] = steps at parting
    cases parting with
    | intro front front' first first' rest rest' same ne plain =>
      rcases front with _ | ⟨_, _ | _⟩
      · cases hsteps
        obtain rfl := List.map_eq_nil_iff.mp same.symm
        refine readPath_congr (put.property_ne ne (fun items h => ?_) _) _
        exact (plain items (congrArg _ h)).2
      · cases hsteps
      · cases hsteps
  | @inside target old child result step rest found inner put ih =>
    generalize hsteps : step :: rest = steps at parting
    cases parting with
    | intro front front' first first' more more' same ne plain =>
      cases front with
      | nil =>
        cases hsteps
        obtain rfl := List.map_eq_nil_iff.mp same.symm
        refine readPath_congr (put.property_ne ne (fun items h => ?_) _) _
        exact (plain items (congrArg _ h)).2
      | cons head front =>
        obtain ⟨rfl, rfl⟩ := List.cons.inj hsteps
        obtain ⟨head', front', rfl⟩ : ∃ a l, front' = a :: l := by
          cases front' with
          | nil => cases same
          | cons a l => exact ⟨a, l, rfl⟩
        obtain ⟨hname, same⟩ := List.cons.inj same
        have there := put.property_self (!head'.computed)
        have before := found (!head'.computed)
        rw [hname] at there before
        refine (readPath_cons there _).trans (Eq.trans (ih ?_) (readPath_cons before _).symm)
        refine .intro front front' first first' more more' same ne ?_
        intro items hitems
        exact plain items ((readPath_cons (found _) front).trans hitems)

/-- The objects on the way keep the order of their members, and a new member is the last
one. -/
theorem keys_eq (h : Written v root steps result) {front rest : List Step} {step : Step}
    {members : List (String × Value)} (hsteps : steps = front ++ step :: rest)
    (hread : root.readPath front = .ok (.object members)) :
    ∃ changed, result.readPath front = .ok (.object changed) ∧
      Dictionary.keys changed =
        if step.name ∈ Dictionary.keys members then Dictionary.keys members
        else Dictionary.keys members ++ [step.name] := by
  have entered : ∀ {key : String} {child b : Value}, Put key child (.object members) b →
      ∃ changed, b = .object changed ∧ Dictionary.keys changed =
        if key ∈ Dictionary.keys members then Dictionary.keys members
        else Dictionary.keys members ++ [key] := by
    intro key child b put
    cases put with
    | object => exact ⟨_, rfl, Dictionary.keys_put members key child⟩
  induction h generalizing front with
  | whole root => cases front <;> cases hsteps
  | length hname hv =>
    rcases front with _ | ⟨_, _ | _⟩
    · cases hread
    · cases hsteps
    · cases hsteps
  | last put =>
    rcases front with _ | ⟨_, _ | _⟩
    · cases hsteps
      cases hread
      obtain ⟨changed, rfl, hkeys⟩ := entered put
      exact ⟨changed, rfl, hkeys⟩
    · cases hsteps
    · cases hsteps
  | inside found inner put ih =>
    cases front with
    | nil =>
      cases hsteps
      cases hread
      obtain ⟨changed, rfl, hkeys⟩ := entered put
      exact ⟨changed, rfl, hkeys⟩
    | cons head front =>
      obtain ⟨rfl, rfl⟩ := List.cons.inj hsteps
      rw [readPath_cons (found _)] at hread
      obtain ⟨changed, hchanged, hkeys⟩ := ih rfl hread
      exact ⟨changed, (readPath_cons (put.property_self _) front).trans hchanged, hkeys⟩

end Written

/-- What a write along a path does to the reads along paths. -/
structure Rewritten (root : Value) (steps : List Step) (v : Value) (result : Value) : Prop where
  /-- The written path reads the written value. A length is read as a number of its own,
  which is equal to the written one. -/
  here : ∃ u, result.readPath steps = .ok u ∧
    (u = v ∨ EndsInLength root steps ∧ SameNumber v u)
  /-- A path that parts from the written one reads the value or the error of before. -/
  apart : ∀ others, Parting root steps others → result.readPath others = root.readPath others
  /-- The objects on the way keep the order of their members, and a new member is the last
  one. -/
  order : ∀ front step rest members, steps = front ++ step :: rest →
    root.readPath front = .ok (.object members) →
    ∃ changed, result.readPath front = .ok (.object changed) ∧
      Dictionary.keys changed =
        if step.name ∈ Dictionary.keys members then Dictionary.keys members
        else Dictionary.keys members ++ [step.name]

theorem rewritten_of_writePath {root result v : Value} {steps : List Step}
    (h : root.writePath steps v = .ok result) : Rewritten root steps v result := by
  have written := written_of_writePath h
  exact ⟨written.read, fun _ => written.readPath_eq, fun _ _ _ _ => written.keys_eq⟩

end Value

end PromptTemplate
