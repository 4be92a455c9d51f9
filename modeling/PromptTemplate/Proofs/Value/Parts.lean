import PromptTemplate.Proofs.Dictionary
import PromptTemplate.Value.Basic
import Mathlib.Data.List.Induction
import Mathlib.Data.List.Perm.Subperm

/-!
# What is inside a value

An array or an object holds values that may hold others in turn. Induction on a value goes by
what it holds, and what is said of all values inside is said of each of those it holds.
-/

namespace PromptTemplate

namespace Dictionary

variable {α : Type}

/-- Where the keys are different each entry is found under its key. -/
theorem get?_of_mem {d : Dictionary α} {k : String} {a : α} (distinct : (keys d).Nodup)
    (h : (k, a) ∈ d) : get? d k = some a := by
  induction d with
  | nil => cases h
  | cons e rest ih =>
    obtain ⟨l, b⟩ := e
    obtain ⟨fresh, distinct⟩ := List.nodup_cons.mp distinct
    rcases List.mem_cons.mp h with same | later
    · cases same
      exact if_pos rfl
    · have hk : l ≠ k := by
        rintro rfl
        exact fresh (List.mem_map.mpr ⟨(l, a), later, rfl⟩)
      rw [get?, if_neg hk]
      exact ih distinct later

theorem put_of_notMem {d : Dictionary α} {k : String} (a : α) (h : k ∉ keys d) :
    put d k a = d ++ [(k, a)] := by
  induction d with
  | nil => rfl
  | cons e rest ih =>
    obtain ⟨l, b⟩ := e
    obtain ⟨other, later⟩ := not_or.mp (mt List.mem_cons.mpr h)
    rw [put, if_neg (Ne.symm other), ih later, List.cons_append]

/-- Entries with different keys are the entries of their dictionary. -/
theorem ofList_of_nodup {d : Dictionary α} (distinct : (keys d).Nodup) : ofList d = d := by
  induction d using List.reverseRecOn with
  | nil => rfl
  | append_singleton d e ih =>
    rw [keys, List.map_append, List.nodup_append] at distinct
    obtain ⟨before, -, apart⟩ := distinct
    have fresh : e.1 ∉ keys d := fun mem => apart e.1 mem e.1 (by simp) rfl
    rw [ofList_concat, ih before, put_of_notMem e.2 fresh]

/-- Keys that differ and are found in a dictionary of the same length are all there are in it. -/
theorem keys_subset {d e : Dictionary α} (distinct : (keys d).Nodup)
    (length : d.length = e.length) (h : keys d ⊆ keys e) : keys e ⊆ keys d := by
  have sub : (keys d).Subperm (keys e) := List.Nodup.subperm distinct h
  refine (sub.perm_of_length_le ?_).symm.subset
  rw [keys, keys, List.length_map, List.length_map]
  exact Nat.le_of_eq length.symm

end Dictionary

namespace Value

@[elab_as_elim]
theorem induct {motive : Value → Prop} (undefined : motive .undefined) (null : motive .null)
    (bool : ∀ b, motive (.bool b)) (number : ∀ x, motive (.number x))
    (string : ∀ s, motive (.string s))
    (array : ∀ items, (∀ v ∈ items, motive v) → motive (.array items))
    (object : ∀ members, (∀ e ∈ members, motive e.2) → motive (.object members))
    (function : ∀ f, motive (.function f)) (v : Value) : motive v := by
  -- Lists of items and of members are reached through all that is in them.
  refine @Value.rec motive (fun items => ∀ v ∈ items, motive v)
    (fun members => ∀ e ∈ members, motive e.2) (fun e => motive e.2)
    undefined null bool number string array object function ?_ ?_ ?_ ?_ ?_ v
  · intro v h
    cases h
  · intro v items hv hitems
    exact List.forall_mem_cons.mpr ⟨hv, hitems⟩
  · intro e h
    cases h
  · intro e members he hmembers
    exact List.forall_mem_cons.mpr ⟨he, hmembers⟩
  · intro k v hv
    exact hv

/-- The first value is the second one, or somewhere inside it. -/
inductive Inside : Value → Value → Prop where
  | self (v : Value) : Inside v v
  | item {a v : Value} {items : List Value} (h : Inside a v) (mem : v ∈ items) :
    Inside a (.array items)
  | member {a : Value} {e : String × Value} {members : List (String × Value)}
    (h : Inside a e.2) (mem : e ∈ members) : Inside a (.object members)

/-- Something holds of a value and of all values inside it. -/
def Everywhere (P : Value → Prop) (v : Value) : Prop := ∀ a, Inside a v → P a

section

variable {P : Value → Prop} {items : List Value} {members : List (String × Value)}

theorem Everywhere.here {v : Value} (h : v.Everywhere P) : P v := h v (.self v)

theorem everywhere_array :
    (Value.array items).Everywhere P ↔ P (.array items) ∧ ∀ v ∈ items, v.Everywhere P := by
  constructor
  · intro h
    exact ⟨h.here, fun v mem a inside => h a (.item inside mem)⟩
  · rintro ⟨here, h⟩ a inside
    cases inside with
    | self => exact here
    | item inside mem => exact h _ mem a inside

theorem everywhere_object :
    (Value.object members).Everywhere P ↔
      P (.object members) ∧ ∀ e ∈ members, e.2.Everywhere P := by
  constructor
  · intro h
    exact ⟨h.here, fun e mem a inside => h a (.member inside mem)⟩
  · rintro ⟨here, h⟩ a inside
    cases inside with
    | self => exact here
    | member inside mem => exact h _ mem a inside

/-- Nothing else is inside a value that is neither an array nor an object. -/
theorem everywhere_atom {v : Value} (array : v.kind ≠ .array) (object : v.kind ≠ .object) :
    v.Everywhere P ↔ P v := by
  constructor
  · exact Everywhere.here
  · intro h a inside
    cases inside with
    | self => exact h
    | item => exact absurd rfl array
    | member => exact absurd rfl object

end

/-- If the value is an object, it has no key twice. -/
def KeysDiffer : Value → Prop
  | .object members => (Dictionary.keys members).Nodup
  | _ => True

/-- No object in a value has a key twice. -/
def UniqueKeys (v : Value) : Prop := v.Everywhere KeysDiffer

theorem uniqueKeys_atom {v : Value} (array : v.kind ≠ .array) (object : v.kind ≠ .object) :
    v.UniqueKeys := by
  rw [UniqueKeys, everywhere_atom array object]
  cases v with
  | object => exact absurd rfl object
  | _ => trivial

theorem uniqueKeys_array {items : List Value} :
    (Value.array items).UniqueKeys ↔ ∀ v ∈ items, v.UniqueKeys := by
  rw [UniqueKeys, everywhere_array]
  exact and_iff_right trivial

theorem uniqueKeys_object {members : List (String × Value)} :
    (Value.object members).UniqueKeys ↔
      (Dictionary.keys members).Nodup ∧ ∀ e ∈ members, e.2.UniqueKeys :=
  everywhere_object

/-- Objects come about by putting members, which never makes a second one of a key. -/
theorem uniqueKeys_put {members : Dictionary Value} {k : String} {v : Value}
    (h : (Value.object members).UniqueKeys) (hv : v.UniqueKeys) :
    (Value.object (Dictionary.put members k v)).UniqueKeys := by
  obtain ⟨distinct, inside⟩ := uniqueKeys_object.mp h
  have put : (Dictionary.keys (Dictionary.put members k v)).Nodup := by
    rw [Dictionary.keys_put]
    split
    · exact distinct
    · rename_i fresh
      refine List.nodup_append.mpr ⟨distinct, List.nodup_singleton k, ?_⟩
      rintro l mem _ last rfl
      exact fresh (List.mem_singleton.mp last ▸ mem)
  refine uniqueKeys_object.mpr ⟨put, fun e mem => ?_⟩
  rcases Dictionary.mem_put mem with rfl | mem
  · exact hv
  · exact inside e mem

/-- If the value is a number, it is one. -/
def IsNoNaN : Value → Prop
  | .number x => x.isNaN = false
  | _ => True

/-- All numbers in a value are numbers. -/
def NaNFree (v : Value) : Prop := v.Everywhere IsNoNaN

end Value

end PromptTemplate
