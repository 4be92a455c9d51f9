import PromptTemplate.Json.Depth
import PromptTemplate.Json.Record

/-!
# Reading records back

What is written as a list, as an optional value or as one of some names is read back. The
fields of a record are nested less deep than the record.
-/

namespace PromptTemplate.Json

variable {α β : Type}

/-- A list whose items are read back. -/
theorem mapM_map {encode : α → β} {decode : β → Option α} {as : List α}
    (h : ∀ a ∈ as, decode (encode a) = some a) : (as.map encode).mapM decode = some as := by
  induction as with
  | nil => rfl
  | cons a as ih =>
    obtain ⟨ha, rest⟩ := List.forall_mem_cons.mp h
    rw [List.map_cons, List.mapM_cons, ha, ih rest]
    rfl

variable {encode : α → Json} {decode : Json → Option α}

theorem list?_map {as : List α} (h : ∀ a ∈ as, decode (encode a) = some a) :
    (array (as.map encode)).list? decode = some as :=
  mapM_map h

theorem optional?_some {j : Json} {a : α} (some_form : j ≠ .null) (h : decode j = some a) :
    optional? decode (some j) = some (some a) := by
  cases j with
  | null => exact absurd rfl some_form
  | _ => rw [optional?, h, Option.map_some]; simp

/-- An optional value that is read back if it is there. -/
theorem optional?_optional {a : Option α}
    (h : ∀ x, encode x ≠ .null ∧ decode (encode x) = some x) :
    optional? decode (some (optional encode a)) = some a := by
  cases a with
  | none => rfl
  | some x =>
    obtain ⟨some_form, hx⟩ := h x
    exact optional?_some some_form hx

/-- The members of an object are nested less deep than a bound. -/
def AllBelow (bound : Nat) : List (String × Json) → Prop
  | [] => True
  | (_, j) :: rest => j.depth < bound ∧ AllBelow bound rest

theorem allBelow_of_depthMembers {bound : Nat} {members : List (String × Json)}
    (h : depthMembers members < bound) : AllBelow bound members := by
  induction members with
  | nil => trivial
  | cons p rest ih =>
    obtain ⟨first, later⟩ := Nat.max_lt.mp h
    exact ⟨first, ih later⟩

theorem allBelow_of_depth {bound : Nat} {members : List (String × Json)}
    (h : (object members).depth < bound) : AllBelow bound members := by
  rw [depth] at h
  exact allBelow_of_depthMembers (by omega)

theorem depthItems_lt {bound : Nat} {items : List Json} (h : (array items).depth < bound) :
    depthItems items < bound := by
  rw [depth] at h
  omega

theorem depth_data_lt {bound : Nat} {name : String} {data : Json}
    (h : (variant name data).depth < bound + 1) : data.depth < bound := by
  simp only [variant, depth, depthMembers] at h
  omega

end PromptTemplate.Json
