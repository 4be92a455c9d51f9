import PromptTemplate.Json.Basic

/-!
# Depth of JSON values

A reader of nested records descends at most as deep as the value is nested, so the depth
bounds its recursion.
-/

namespace PromptTemplate.Json

mutual

def depth : Json → Nat
  | .array items => depthItems items + 1
  | .object members => depthMembers members + 1
  | _ => 1

def depthItems : List Json → Nat
  | [] => 0
  | j :: rest => max (depth j) (depthItems rest)

def depthMembers : List (String × Json) → Nat
  | [] => 0
  | (_, j) :: rest => max (depth j) (depthMembers rest)

end

theorem depth_lt_of_mem {items : List Json} {j : Json} (h : j ∈ items) :
    j.depth < (Json.array items).depth := by
  have : j.depth ≤ depthItems items := by
    induction items with
    | nil => simp at h
    | cons a rest ih =>
      rcases List.mem_cons.1 h with rfl | h
      · exact Nat.le_max_left _ _
      · exact Nat.le_trans (ih h) (Nat.le_max_right _ _)
  simp only [depth]
  omega

theorem depth_lt_of_get? {members : List (String × Json)} {name : String} {j : Json}
    (h : Dictionary.get? members name = some j) : j.depth < (Json.object members).depth := by
  have : j.depth ≤ depthMembers members := by
    induction members with
    | nil => simp [Dictionary.get?] at h
    | cons e rest ih =>
      obtain ⟨k, a⟩ := e
      simp only [Dictionary.get?] at h
      split at h
      · obtain rfl := Option.some.inj h
        exact Nat.le_max_left _ _
      · exact Nat.le_trans (ih h) (Nat.le_max_right _ _)
  simp only [depth]
  omega

end PromptTemplate.Json
