import PromptTemplate.Proofs.Number.Doubles
import PromptTemplate.Value.Json

/-!
# Values through JSON

Undefined, functions, the numbers that are not finite and the negative zero do not come back
from JSON. What comes back is a value without those, which comes back as it is.
-/

namespace PromptTemplate.Value

mutual

/-- What comes back of a value. -/
def carried : Value → Value
  | .undefined | .null | .function _ => .null
  | .bool b => .bool b
  | .number x => if x = -0 then .number 0 else if x.isFinite then .number x else .null
  | .string s => .string s
  | .array items => .array (carriedItems items)
  | .object members => .object (carriedMembers members)

def carriedItems : List Value → List Value
  | [] => []
  | v :: rest => v.carried :: carriedItems rest

def carriedMembers : List (String × Value) → List (String × Value)
  | [] => []
  | (k, v) :: rest =>
    if v.isKept then (k, v.carried) :: carriedMembers rest else carriedMembers rest

end

mutual

/-- Whether there is no undefined, no function, no number that is not finite and no negative zero
in a value. -/
def Storable : Value → Prop
  | .undefined | .function _ => False
  | .null | .bool _ | .string _ => True
  | .number x => x.isFinite = true ∧ x ≠ -0
  | .array items => AllStorable items
  | .object members => MembersStorable members

def AllStorable : List Value → Prop
  | [] => True
  | v :: rest => v.Storable ∧ AllStorable rest

def MembersStorable : List (String × Value) → Prop
  | [] => True
  | (_, v) :: rest => v.Storable ∧ MembersStorable rest

end

mutual

def decideStorable : (v : Value) → Decidable v.Storable
  | .undefined | .function _ => .isFalse id
  | .null | .bool _ | .string _ => .isTrue trivial
  | .number x => inferInstanceAs (Decidable (x.isFinite = true ∧ x ≠ -0))
  | .array items => decideAllStorable items
  | .object members => decideMembersStorable members

def decideAllStorable : (items : List Value) → Decidable (AllStorable items)
  | [] => .isTrue trivial
  | v :: rest =>
    match decideStorable v, decideAllStorable rest with
    | .isTrue h, .isTrue k => .isTrue ⟨h, k⟩
    | .isFalse h, _ => .isFalse fun both => h both.1
    | _, .isFalse k => .isFalse fun both => k both.2

def decideMembersStorable : (members : List (String × Value)) → Decidable (MembersStorable members)
  | [] => .isTrue trivial
  | (_, v) :: rest =>
    match decideStorable v, decideMembersStorable rest with
    | .isTrue h, .isTrue k => .isTrue ⟨h, k⟩
    | .isFalse h, _ => .isFalse fun both => h both.1
    | _, .isFalse k => .isFalse fun both => k both.2

end

instance (v : Value) : Decidable v.Storable := decideStorable v

theorem carriedItems_eq_map (items : List Value) : carriedItems items = items.map carried := by
  induction items with
  | nil => rfl
  | cons v rest ih => rw [carriedItems, List.map_cons, ih]

/-! ## Numbers -/

theorem integer?_negativeZero : Number.integer? (-0) = some 0 := by decide +kernel

theorem ofInt_zero : Float.ofInt 0 = 0 := Number.eq_of_toBits (by decide +kernel)

theorem ofJson_numberToJson (x : Float) : ofJson (numberToJson x) = carried (.number x) := by
  by_cases signed : x = -0
  · rw [signed, numberToJson, integer?_negativeZero]
    simp [ofJson, carried, ofInt_zero]
  · cases whole : Number.integer? x with
    | none =>
      have form : numberToJson x = if x.isFinite then .double x else .null := by
        rw [numberToJson, whole]
      rw [form, carried, if_neg signed]
      split <;> rfl
    | some n =>
      have finite := Number.isFinite_of_integer? whole
      have form : numberToJson x = if n.natAbs < Nat.pow 2 53 then .integer n else .double x := by
        rw [numberToJson, whole]
      rw [form, carried, if_neg signed, if_pos finite]
      split
      · rename_i small
        rw [ofJson, Number.ofInt_of_integer? whole small signed]
      · rfl

/-! ## Values -/

mutual

theorem ofJson_toJson : ∀ v : Value, ofJson v.toJson = v.carried
  | .undefined | .null | .function _ | .bool _ | .string _ => rfl
  | .number x => ofJson_numberToJson x
  | .array items => congrArg Value.array (ofJsonItems_itemsToJson items)
  | .object members => congrArg Value.object (ofJsonMembers_membersToJson members)

theorem ofJsonItems_itemsToJson : ∀ items, ofJsonItems (itemsToJson items) = carriedItems items
  | [] => rfl
  | v :: rest => by
    rw [itemsToJson, ofJsonItems, ofJson_toJson v, ofJsonItems_itemsToJson rest, carriedItems]

theorem ofJsonMembers_membersToJson : ∀ members,
    ofJsonMembers (membersToJson members) = carriedMembers members
  | [] => rfl
  | (k, v) :: rest => by
    have later := ofJsonMembers_membersToJson rest
    rw [membersToJson, carriedMembers]
    split
    · rw [ofJsonMembers, ofJson_toJson v, later]
    · exact later

end

mutual

theorem carried_of_storable : ∀ v : Value, v.Storable → v.carried = v
  | .undefined, h | .function _, h => h.elim
  | .null, _ | .bool _, _ | .string _, _ => rfl
  | .number x, h => by rw [carried, if_neg h.2, if_pos h.1]
  | .array items, h => congrArg Value.array (carriedItems_of_storable items h)
  | .object members, h => congrArg Value.object (carriedMembers_of_storable members h)

theorem carriedItems_of_storable : ∀ items, AllStorable items → carriedItems items = items
  | [], _ => rfl
  | v :: rest, h => by
    rw [carriedItems, carried_of_storable v h.1, carriedItems_of_storable rest h.2]

theorem carriedMembers_of_storable : ∀ members, MembersStorable members →
    carriedMembers members = members
  | [], _ => rfl
  | (k, v) :: rest, h => by
    have kept : v.isKept = true := by
      cases v with
      | undefined => exact h.1.elim
      | function f => exact h.1.elim
      | _ => rfl
    rw [carriedMembers, if_pos kept, carried_of_storable v h.1, carriedMembers_of_storable rest h.2]

end

mutual

theorem storable_carried : ∀ v : Value, v.carried.Storable
  | .undefined | .null | .function _ | .bool _ | .string _ => trivial
  | .number x => by
    rw [carried]
    split
    · exact ⟨by decide +kernel, by decide +kernel⟩
    · rename_i signed
      split
      · rename_i finite
        exact ⟨finite, signed⟩
      · trivial
  | .array items => storable_carriedItems items
  | .object members => storable_carriedMembers members

theorem storable_carriedItems : ∀ items, AllStorable (carriedItems items)
  | [] => trivial
  | v :: rest => ⟨storable_carried v, storable_carriedItems rest⟩

theorem storable_carriedMembers : ∀ members, MembersStorable (carriedMembers members)
  | [] => trivial
  | (k, v) :: rest => by
    rw [carriedMembers]
    split
    · exact ⟨storable_carried v, storable_carriedMembers rest⟩
    · exact storable_carriedMembers rest

end

/-- What has come back once comes back as it is. -/
theorem carried_carried (v : Value) : v.carried.carried = v.carried :=
  carried_of_storable _ (storable_carried v)

end PromptTemplate.Value
