import PromptTemplate.Proofs.Dictionary
import PromptTemplate.Scope
import Mathlib.Data.List.Induction

/-!
# Slots of frames

The slots of a frame lie between its base and the base of the next inner frame, and no
two variables of a frame share a slot. Every operation of a scope keeps this. It makes a
name that has a slot readable, and it makes the closing of a frame drop exactly the slots
of that frame.
-/

namespace PromptTemplate

/-- The frames, the innermost first, own slots below a limit one after the other. -/
def Stacked (limit : Nat) : List Frame → Prop
  | [] => True
  | f :: rest =>
    f.base ≤ limit ∧ (∀ e ∈ f.pointers, f.base ≤ e.2 ∧ e.2 < limit) ∧
      (f.pointers.map (·.2)).Nodup ∧ Stacked f.base rest

/-- A slot that a name leads to lies below the limit. -/
theorem Stacked.lt_of_get? {limit : Nat} {frames : List Frame} (h : Stacked limit frames)
    {name : String} {i : Nat}
    (found : frames.findSome? (fun f => Dictionary.get? f.pointers name) = some i) :
    i < limit := by
  induction frames generalizing limit with
  | nil => cases found
  | cons f rest ih =>
    obtain ⟨hbase, hslots, _, hrest⟩ := h
    rw [List.findSome?_cons] at found
    cases hf : Dictionary.get? f.pointers name with
    | some j =>
      rw [hf] at found
      obtain rfl := Option.some.inj found
      exact (hslots _ (Dictionary.mem_of_get? hf)).2
    | none =>
      rw [hf] at found
      have := ih hrest found
      omega

namespace Scope

/-- Every frame owns its slots. -/
def WellFormed (s : Scope) : Prop := Stacked s.slots.length s.frames

theorem WellFormed.slot_lt {s : Scope} (h : s.WellFormed) {name : String} {i : Nat}
    (found : s.slot? name = some i) : i < s.slots.length :=
  Stacked.lt_of_get? h found

/-- A name that has a slot can be read, and no other name can. -/
theorem WellFormed.contains_iff {s : Scope} (h : s.WellFormed) (name : String) :
    s.contains name = true ↔ ∃ v, s.get? name = some v := by
  rw [contains, get?]
  cases found : s.slot? name with
  | none => simp
  | some i => simp [h.slot_lt found]

theorem wellFormed_empty : empty.WellFormed := by
  refine ⟨Nat.le_refl _, ?_, List.nodup_nil, trivial⟩
  intro e he
  cases he

theorem WellFormed.declare {s : Scope} (h : s.WellFormed) (name : String) (v : Value) :
    (s.declare name v).WellFormed := by
  obtain ⟨hbase, hslots, hdistinct, hrest⟩ := h
  have hlength : (s.declare name v).slots.length = s.slots.length + 1 := by
    simp [Scope.declare]
  refine ⟨by rw [hlength]; exact Nat.le_succ_of_le hbase, ?_, ?_, hrest⟩
  · intro e he
    rw [hlength]
    rcases Dictionary.mem_put he with rfl | hold
    · exact ⟨hbase, Nat.lt_succ_self _⟩
    · have := hslots e hold
      exact ⟨this.1, by omega⟩
  · refine Dictionary.nodup_put hdistinct ?_
    intro e he heq
    have := hslots e he
    omega

/-- A write finds the slot of its name, if there is one. -/
theorem WellFormed.set_eq {s : Scope} (h : s.WellFormed) (name : String) (v : Value) :
    s.set name v = match s.slot? name with
      | some i => { s with slots := s.slots.set i v }
      | none => s.declare name v := by
  rw [Scope.set]
  cases found : s.slot? name with
  | none => rfl
  | some i => exact if_pos (h.slot_lt found)

theorem WellFormed.set {s : Scope} (h : s.WellFormed) (name : String) (v : Value) :
    (s.set name v).WellFormed := by
  rw [h.set_eq]
  cases s.slot? name with
  | none => exact h.declare name v
  | some i => simpa [WellFormed, frames] using h

theorem WellFormed.push {s : Scope} (h : s.WellFormed) : s.push.WellFormed := by
  refine ⟨Nat.le_refl _, ?_, List.nodup_nil, h⟩
  intro e he
  cases he

/-- The slots that are left are those of the frames that are left. -/
theorem WellFormed.pop {s : Scope} (h : s.WellFormed) : s.pop.WellFormed := by
  rw [Scope.pop]
  split
  · exact h
  · rename_i top outer houter
    obtain ⟨hbase, -, -, hrest⟩ := h
    rw [houter] at hrest
    simpa [WellFormed, frames, Nat.min_eq_left hbase] using hrest

/-- The last parameter is written last. -/
theorem ofParameters_concat (parameters : List (String × Value)) (e : String × Value) :
    ofParameters (parameters ++ [e]) = (ofParameters parameters).set e.1 e.2 := by
  rw [ofParameters]
  rw [List.foldl_append]
  rfl

theorem wellFormed_ofParameters (parameters : List (String × Value)) :
    (ofParameters parameters).WellFormed := by
  induction parameters using List.reverseRecOn with
  | nil => exact wellFormed_empty
  | append_singleton rest e ih =>
    rw [ofParameters_concat]
    exact ih.set e.1 e.2

end Scope

end PromptTemplate
