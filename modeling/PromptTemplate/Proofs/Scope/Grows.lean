import PromptTemplate.Proofs.Scope.Writes

/-!
# Scopes that grow

Code that closes every frame that it opens leaves the outer frames as they were, and makes
names known in the innermost frame and never unknown.
-/

namespace PromptTemplate.Scope

/-- A scope that has the same outer frames as another one, and knows its names. -/
structure Grows (s t : Scope) : Prop where
  outer : t.outer = s.outer
  contains : ∀ name, s.contains name = true → t.contains name = true

namespace Grows

instance : IsPreorder Scope Grows where
  refl _ := ⟨rfl, fun _ h => h⟩
  trans _ _ _ h k :=
    ⟨k.outer.trans h.outer, fun name hname => k.contains name (h.contains name hname)⟩

theorem set (s : Scope) (name : String) (v : Value) : Grows s (s.set name v) :=
  ⟨outer_set s name v, fun _ h => by simp [contains_set, h]⟩

/-- When a frame is closed that was opened before, the names are known that were known
before. -/
theorem pop {s t : Scope} (h : t.outer = s.frames) : Grows s t.pop := by
  have frames : t.pop.frames = s.frames := by
    rw [Scope.pop]
    rw [h]
    rfl
  refine ⟨(List.cons.inj frames).2, fun name hname => ?_⟩
  rw [contains_congr frames]
  exact hname

end Grows

/-- A known name is known in a frame that is opened, too. -/
theorem contains_push (s : Scope) (name : String) : s.push.contains name = s.contains name := rfl

/-- The frame of an item has its variables, and those outside of it are known. -/
theorem contains_pushItem (s : Scope) (context : String) (index : Option String) (i : Nat)
    (v : Value) (name : String) :
    (s.pushItem context index i v).contains name =
      (decide (index = some name) || (decide (context = name) || s.contains name)) := by
  simp only [pushItem]
  cases index with
  | none => simp [contains_declare, contains_push]
  | some k => simp [contains_declare, contains_push]

theorem outer_pushItem (s : Scope) (context : String) (index : Option String) (i : Nat)
    (v : Value) : (s.pushItem context index i v).outer = s.frames := by
  cases index <;> rfl

theorem WellFormed.pushItem {s : Scope} (h : s.WellFormed) (context : String)
    (index : Option String) (i : Nat) (v : Value) :
    (s.pushItem context index i v).WellFormed := by
  cases index with
  | none => exact h.push.declare context v
  | some name => exact (h.push.declare context v).declare name _

end PromptTemplate.Scope
