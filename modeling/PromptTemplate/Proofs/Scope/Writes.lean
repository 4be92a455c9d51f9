import PromptTemplate.Proofs.Scope.Frames
import Mathlib.Order.Defs.Unbundled

/-!
# Runs of writes

Code that only writes to variables leaves all frames but the innermost as they are, and
in the innermost it makes names known and never unknown. Which names may be written can
depend on the scope at that moment.
-/

namespace PromptTemplate.Scope

/-- A name is known exactly if a frame points to a slot for it. -/
theorem contains_congr {s t : Scope} (h : s.frames = t.frames) (name : String) :
    s.contains name = t.contains name := by
  simp only [contains, slot?]
  rw [h]

theorem contains_declare (s : Scope) (name other : String) (v : Value) :
    (s.declare name v).contains other = (decide (name = other) || s.contains other) := by
  simp only [contains, slot?, declare, frames, List.findSome?_cons, Dictionary.get?_put]
  by_cases h : name = other <;> simp [h]

/-- A written name is known afterwards, and the other names are as they were. -/
theorem contains_set (s : Scope) (name other : String) (v : Value) :
    (s.set name v).contains other = (decide (name = other) || s.contains other) := by
  rw [set]
  cases found : s.slot? name with
  | none => exact contains_declare s name other v
  | some i =>
    by_cases hi : i < s.slots.length
    · have kept : ({ s with slots := s.slots.set i v } : Scope).contains other =
          s.contains other := contains_congr rfl other
      have known : s.contains name = true := by simp [contains, found]
      by_cases h : name = other
      · subst h
        simpa [hi, known] using kept.trans known
      · simpa [hi, h] using kept
    · simpa [hi] using contains_declare s name other v

theorem outer_set (s : Scope) (name : String) (v : Value) :
    (s.set name v).outer = s.outer := by
  rw [set]
  split
  · split <;> rfl
  · rfl

/-- A run of writes to names that may be written. -/
inductive Writes (may : Scope → String → Prop) : Scope → Scope → Prop where
  | refl (s : Scope) : Writes may s s
  | set {s t : Scope} (h : Writes may s t) {name : String} (hname : may t name) (v : Value) :
    Writes may s (t.set name v)

namespace Writes

variable {may : Scope → String → Prop} {s t u : Scope}

theorem trans (hst : Writes may s t) (htu : Writes may t u) : Writes may s u := by
  induction htu with
  | refl => exact hst
  | set _ hname v ih => exact .set ih hname v

theorem outer_eq (h : Writes may s t) : t.outer = s.outer := by
  induction h with
  | refl => rfl
  | set _ _ v ih => rw [outer_set, ih]

theorem depth_eq (h : Writes may s t) : t.depth = s.depth := by
  simp [depth, frames, h.outer_eq]

theorem contains (h : Writes may s t) {name : String} (known : s.contains name = true) :
    t.contains name = true := by
  induction h with
  | refl => exact known
  | set _ _ v ih => simp [contains_set, ih]

theorem wellFormed (h : Writes may s t) (hs : s.WellFormed) : t.WellFormed := by
  induction h with
  | refl => exact hs
  | set _ _ v ih => exact ih.set _ v

instance : IsPreorder Scope (Writes may) where
  refl := .refl
  trans _ _ _ := trans

end Writes

/-- A scope of parameters comes about by writes. -/
theorem writes_ofParameters (parameters : List (String × Value)) :
    Writes (fun _ _ => True) empty (ofParameters parameters) := by
  induction parameters using List.reverseRecOn with
  | nil => exact .refl empty
  | append_singleton rest e ih =>
    rw [ofParameters_concat]
    exact .set ih trivial e.2

end PromptTemplate.Scope
