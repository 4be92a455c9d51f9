import PromptTemplate.Dictionary
import Mathlib.Data.List.Nodup

/-!
# Entries of dictionaries

What is found is an entry, and a put entry is new or an old one. Changing all values is a
view of a dictionary that commutes with finding and putting. Nothing here assumes that
keys are unique; where it matters, the values are told apart instead.
-/

namespace PromptTemplate.Dictionary

variable {α β : Type}

theorem mem_of_get? {d : Dictionary α} {k : String} {a : α} (h : get? d k = some a) :
    (k, a) ∈ d := by
  induction d with
  | nil => cases h
  | cons e rest ih =>
    obtain ⟨l, b⟩ := e
    by_cases hk : l = k
    · subst hk
      have hb : b = a := by simpa [get?] using h
      exact hb ▸ List.mem_cons_self
    · exact List.mem_cons_of_mem _ (ih (by simpa [get?, hk] using h))

/-- The keys are those under which something is found. -/
theorem mem_keys_iff {d : Dictionary α} {k : String} : k ∈ keys d ↔ contains d k = true := by
  rw [contains]
  induction d with
  | nil => simp [keys, get?]
  | cons e rest ih =>
    obtain ⟨l, b⟩ := e
    by_cases hk : l = k
    · simp [keys, get?, hk]
    · simpa [keys, get?, hk, Ne.symm hk] using ih

theorem mem_put {d : Dictionary α} {k : String} {a : α} {e : String × α}
    (h : e ∈ put d k a) : e = (k, a) ∨ e ∈ d := by
  induction d with
  | nil => exact Or.inl (by simpa [put] using h)
  | cons x rest ih =>
    obtain ⟨l, b⟩ := x
    by_cases hk : l = k
    · rw [put, if_pos hk] at h
      rcases List.mem_cons.mp h with he | he
      · exact Or.inl (hk ▸ he)
      · exact Or.inr (List.mem_cons_of_mem _ he)
    · rw [put, if_neg hk] at h
      rcases List.mem_cons.mp h with he | he
      · exact Or.inr (he ▸ List.mem_cons_self)
      · exact (ih he).imp_right (List.mem_cons_of_mem _)

/-- The same keys with other values. -/
def mapValues (f : α → β) (d : Dictionary α) : Dictionary β :=
  d.map fun e => (e.1, f e.2)

theorem get?_mapValues (f : α → β) (d : Dictionary α) (k : String) :
    get? (mapValues f d) k = (get? d k).map f := by
  induction d with
  | nil => rfl
  | cons e rest ih =>
    obtain ⟨l, a⟩ := e
    by_cases hk : l = k
    · simp [mapValues, get?, hk]
    · simpa [mapValues, get?, hk] using ih

theorem contains_mapValues (f : α → β) (d : Dictionary α) (k : String) :
    contains (mapValues f d) k = contains d k := by
  simp [contains, get?_mapValues]

theorem mapValues_put (f : α → β) (d : Dictionary α) (k : String) (a : α) :
    mapValues f (put d k a) = put (mapValues f d) k (f a) := by
  induction d with
  | nil => rfl
  | cons e rest ih =>
    obtain ⟨l, b⟩ := e
    by_cases hk : l = k
    · simp [mapValues, put, hk]
    · simpa [mapValues, put, hk] using ih

theorem mapValues_congr {f g : α → β} {d : Dictionary α} (h : ∀ e ∈ d, f e.2 = g e.2) :
    mapValues f d = mapValues g d :=
  List.map_congr_left fun e he => congrArg (Prod.mk e.1) (h e he)

/-- Where the values differ from each other, a change of what one of them stands for
changes the entry that was found and no other. -/
theorem mapValues_of_get? {f g : α → β} {d : Dictionary α} {k : String} {a : α}
    (distinct : (d.map (·.2)).Nodup) (found : get? d k = some a)
    (same : ∀ b, b ≠ a → f b = g b) : mapValues f d = put (mapValues g d) k (f a) := by
  induction d with
  | nil => cases found
  | cons e rest ih =>
    obtain ⟨l, b⟩ := e
    obtain ⟨fresh, distinct⟩ := List.nodup_cons.mp distinct
    by_cases hk : l = k
    · have hb : b = a := by simpa [get?, hk] using found
      have tail : mapValues f rest = mapValues g rest := by
        refine mapValues_congr fun e he => same _ ?_
        intro heq
        exact fresh (List.mem_map.mpr ⟨e, he, heq.trans hb.symm⟩)
      simpa [mapValues, put, hk, hb] using tail
    · have later : get? rest k = some a := by simpa [get?, hk] using found
      have hne : b ≠ a := by
        intro heq
        exact fresh (List.mem_map.mpr ⟨(k, a), mem_of_get? later, heq.symm⟩)
      simpa [mapValues, put, hk, same b hne] using ih distinct later

theorem nodup_put {d : Dictionary α} {k : String} {a : α} (distinct : (d.map (·.2)).Nodup)
    (fresh : ∀ e ∈ d, e.2 ≠ a) : ((put d k a).map (·.2)).Nodup := by
  induction d with
  | nil => simp [put]
  | cons e rest ih =>
    obtain ⟨l, b⟩ := e
    obtain ⟨hb, distinct⟩ := List.nodup_cons.mp distinct
    have later : ∀ e ∈ rest, e.2 ≠ a := fun e he => fresh e (List.mem_cons_of_mem _ he)
    by_cases hk : l = k
    · rw [put, if_pos hk, List.map_cons, List.nodup_cons]
      refine ⟨?_, distinct⟩
      intro hmem
      obtain ⟨e, he, hea⟩ := List.mem_map.mp hmem
      exact later e he hea
    · rw [put, if_neg hk, List.map_cons, List.nodup_cons]
      refine ⟨?_, ih distinct later⟩
      intro hmem
      obtain ⟨e, he, heb⟩ := List.mem_map.mp hmem
      rcases mem_put he with hnew | hold
      · rw [hnew] at heb
        exact fresh (l, b) List.mem_cons_self heb.symm
      · exact hb (List.mem_map.mpr ⟨e, hold, heb⟩)

/-- The last entry is put last. -/
theorem ofList_concat (entries : List (String × α)) (e : String × α) :
    ofList (entries ++ [e]) = put (ofList entries) e.1 e.2 := by
  rw [ofList]
  rw [List.foldl_append]
  rfl

end PromptTemplate.Dictionary
