import PromptTemplate.Proofs.Json.Record
import PromptTemplate.Proofs.Value.Json
import PromptTemplate.Scope

/-!
# Stashes through JSON

Frames come back as they are, and so do the numbers of the slots. What is in a slot comes back
as a value without undefined, functions, numbers that are not finite and negative zeros.
-/

namespace PromptTemplate

theorem Frame.ofJson?_toJson (f : Frame) : Frame.ofJson? f.toJson = some f := by
  have pointers : (f.pointers.map fun p => (p.1, Json.natural p.2)).mapM
      (fun p => p.2.natural?.map fun i => (p.1, i)) = some f.pointers :=
    Json.mapM_map fun _ _ => rfl
  change (Option.bind _ fun ps => some (Frame.mk f.base ps)) = some f
  rw [pointers]
  rfl

namespace Stash

/-- What comes back of a stash. -/
def carried (s : Stash) : Stash := ⟨s.slots.map Value.carried, s.frames⟩

theorem ofJson?_toJson (s : Stash) : ofJson? s.toJson = some s.carried := by
  have frames : (Json.array (s.frames.map Frame.toJson)).list? Frame.ofJson? = some s.frames :=
    Json.list?_map fun f _ => f.ofJson?_toJson
  have slots : Value.ofJsonItems (Value.itemsToJson s.slots) = s.slots.map Value.carried := by
    rw [Value.ofJsonItems_itemsToJson, Value.carriedItems_eq_map]
  simp [toJson, ofJson?, Json.member?, Dictionary.get?, frames, slots, carried]

theorem carried_of_storable {s : Stash} (h : ∀ v ∈ s.slots, v.Storable) : s.carried = s := by
  have same : s.slots.map Value.carried = s.slots.map id :=
    List.map_congr_left fun v hv => Value.carried_of_storable v (h v hv)
  rw [carried, same, List.map_id]

theorem carried_carried (s : Stash) : s.carried.carried = s.carried := by
  refine carried_of_storable fun v hv => ?_
  obtain ⟨w, -, rfl⟩ := List.mem_map.mp hv
  exact Value.storable_carried w

end Stash

end PromptTemplate
