import PromptTemplate.Proofs.Scope.Grows

/-!
# Frames of blocks

While the body of a block is walked, the variables outside of it keep their slots, and those that
the frame of the block shadows keep their values. When the frame is closed, the frames are again
what they were, and what was written to the other variables is still there. None of this depends
on how the slots of the scope are divided among its frames; only that a shadowed variable keeps
its value needs that no two names share a slot.
-/

namespace PromptTemplate

/-- No two names of a stack of frames lead to the same slot. -/
theorem Stacked.slot_inj {limit : Nat} {frames : List Frame} (h : Stacked limit frames)
    {name other : String} {i : Nat}
    (hn : frames.findSome? (fun f => Dictionary.get? f.pointers name) = some i)
    (ho : frames.findSome? (fun f => Dictionary.get? f.pointers other) = some i) :
    name = other := by
  induction frames generalizing limit with
  | nil => cases hn
  | cons f rest ih =>
    obtain ⟨-, hslots, distinct, hrest⟩ := h
    -- the slots of the first frame are not below its base, and those of the others are
    have inside : ∀ {n}, Dictionary.get? f.pointers n = some i → f.base ≤ i := fun h =>
      (hslots _ (Dictionary.mem_of_get? h)).1
    rw [List.findSome?_cons] at hn ho
    split at hn <;> rename_i first <;> split at ho <;> rename_i second
    · cases hn
      cases ho
      have same := List.inj_on_of_nodup_map distinct (Dictionary.mem_of_get? first)
        (Dictionary.mem_of_get? second) rfl
      exact congrArg Prod.fst same
    · cases hn
      have := hrest.lt_of_get? ho
      have := inside first
      omega
    · cases ho
      have := hrest.lt_of_get? hn
      have := inside second
      omega
    · exact ih hrest hn ho

namespace Scope

variable {s t u b : Scope} {name : String} {i : Nat} {v : Value}

/-! ## Slots of names -/

theorem slot?_congr (h : s.frames = t.frames) (name : String) : s.slot? name = t.slot? name := by
  simp only [slot?]
  rw [h]

theorem slot?_declare (s : Scope) (name other : String) (v : Value) :
    (s.declare name v).slot? other = if name = other then some s.slots.length else s.slot? other := by
  simp only [slot?, declare, frames, List.findSome?_cons, Dictionary.get?_put]
  by_cases h : name = other <;> simp [h]

theorem get?_eq_some_iff :
    s.get? name = some v ↔ ∃ i, s.slot? name = some i ∧ s.slots[i]? = some v :=
  Option.bind_eq_some_iff

theorem get?_of_slot? (h : s.slot? name = some i) : s.get? name = s.slots[i]? := by
  rw [get?, h]
  rfl

/-- A name is not known to lead to a slot that exists. -/
theorem get?_eq_none_iff :
    s.get? name = none ↔ ∀ i, s.slot? name = some i → s.slots.length ≤ i := by
  rw [get?]
  cases h : s.slot? name <;> simp

/-- A slot to which no name leads. -/
def Hides (s : Scope) (i : Nat) : Prop := ∀ name, s.slot? name ≠ some i

theorem WellFormed.slot_inj (h : s.WellFormed) {other : String} (hn : s.slot? name = some i)
    (ho : s.slot? other = some i) : name = other := Stacked.slot_inj h hn ho

/-! ## Bodies -/

/-- What a body does that closes all frames that it opens. -/
structure Settles (s t : Scope) : Prop where
  outer : t.outer = s.outer
  base : t.top.base = s.top.base
  length : s.slots.length ≤ t.slots.length
  /-- A variable keeps its slot. -/
  keeps : ∀ name i, s.slot? name = some i → i < s.slots.length → t.slot? name = some i
  /-- A name leads to where it led, or to a slot that was made since. -/
  fresh : ∀ name i, t.slot? name = some i → s.slot? name = some i ∨ s.slots.length ≤ i
  hidden : ∀ i < s.slots.length, s.Hides i → t.slots[i]? = s.slots[i]?
  wellFormed : s.WellFormed → t.WellFormed

namespace Settles

theorem hides (h : Settles s t) (hi : i < s.slots.length) (hs : s.Hides i) : t.Hides i := by
  intro name found
  obtain old | new := h.fresh name i found
  · exact hs name old
  · omega

instance : IsPreorder Scope Settles where
  refl _ := ⟨rfl, rfl, Nat.le_refl _, fun _ _ h _ => h, fun _ _ h => .inl h, fun _ _ _ => rfl,
    fun h => h⟩
  trans s t u h k := by
    refine ⟨k.outer.trans h.outer, k.base.trans h.base, Nat.le_trans h.length k.length, ?_, ?_, ?_,
      fun hs => k.wellFormed (h.wellFormed hs)⟩
    · intro name i found hi
      exact k.keeps name i (h.keeps name i found hi) (Nat.lt_of_lt_of_le hi h.length)
    · intro name i found
      obtain old | new := k.fresh name i found
      · exact h.fresh name i old
      · exact .inr (Nat.le_trans h.length new)
    · intro i hi hidden
      rw [k.hidden i (Nat.lt_of_lt_of_le hi h.length) (h.hides hi hidden), h.hidden i hi hidden]

theorem declare (h : s.get? name = none) (v : Value) : Settles s (s.declare name v) where
  outer := rfl
  base := rfl
  length := by simp [Scope.declare]
  keeps other i found hi := by
    rw [slot?_declare]
    split
    · rename_i same
      subst same
      have := get?_eq_none_iff.mp h i found
      omega
    · exact found
  fresh other i found := by
    rw [slot?_declare] at found
    split at found
    · cases found
      exact .inr (Nat.le_refl _)
    · exact .inl found
  hidden i hi _ := List.getElem?_append_left hi
  wellFormed hs := hs.declare name v

theorem set (s : Scope) (name : String) (v : Value) : Settles s (s.set name v) := by
  cases known : s.get? name with
  | none =>
    have declared : s.set name v = s.declare name v := by
      rw [Scope.set]
      split
      · rename_i i found
        exact if_neg (Nat.not_lt.mpr (get?_eq_none_iff.mp known i found))
      · rfl
    rw [declared]
    exact declare known v
  | some old =>
    obtain ⟨i, found, hi⟩ := get?_eq_some_iff.mp known
    have written : s.set name v = { s with slots := s.slots.set i v } := by
      rw [Scope.set, found]
      exact if_pos (List.getElem?_eq_some_iff.mp hi).1
    refine ⟨outer_set s name v, ?_, ?_, ?_, ?_, ?_, fun h => h.set name v⟩
    all_goals rw [written]
    · exact Nat.le_of_eq (List.length_set ..).symm
    · exact fun _ _ h _ => h
    · exact fun _ _ h => .inl h
    · intro j _ hidden
      have other : i ≠ j := by
        rintro rfl
        exact hidden name found
      exact List.getElem?_set_ne other

theorem of_writes {may : Scope → String → Prop} (h : Writes may s t) : Settles s t := by
  induction h with
  | refl => exact refl_of Settles _
  | set _ _ v ih => exact trans_of Settles ih (set _ _ v)

end Settles

/-! ## Frames -/

/-- A frame has been opened, and some variables have been made in it. -/
structure Opens (declared : List String) (s t : Scope) : Prop where
  outer : t.outer = s.frames
  base : t.top.base = s.slots.length
  slots : s.slots <+: t.slots
  inner : ∀ name ∈ declared, ∃ i, t.slot? name = some i ∧ s.slots.length ≤ i
  others : ∀ name ∉ declared, t.slot? name = s.slot? name
  wellFormed : s.WellFormed → t.WellFormed

namespace Opens

variable {declared : List String}

theorem push (s : Scope) : Opens [] s s.push where
  outer := rfl
  base := rfl
  slots := List.prefix_refl _
  inner := List.forall_mem_nil _
  others _ _ := rfl
  wellFormed h := h.push

theorem declare (h : Opens declared s t) (name : String) (v : Value) :
    Opens (name :: declared) s (t.declare name v) where
  outer := h.outer
  base := h.base
  slots := h.slots.trans (List.prefix_append _ _)
  inner other hother := by
    rw [slot?_declare]
    split
    · exact ⟨_, rfl, h.slots.length_le⟩
    · rename_i different
      exact h.inner other ((List.mem_cons.mp hother).resolve_left (Ne.symm different))
  others other hother := by
    rw [List.mem_cons, not_or] at hother
    rw [slot?_declare, if_neg (Ne.symm hother.1)]
    exact h.others other hother.2
  wellFormed hs := (h.wellFormed hs).declare name v

theorem pushItem (s : Scope) (context : String) (index : Option String) (i : Nat) (v : Value) :
    Opens (index.toList ++ [context]) s (s.pushItem context index i v) := by
  have first : Opens [context] s (s.push.declare context v) := (push s).declare context v
  cases index with
  | none => exact first
  | some name => exact first.declare name _

variable (h : Opens declared s t) (hb : Settles t b)
include h hb

theorem pop_eq : b.pop = ⟨b.slots.take s.slots.length, s.top, s.outer⟩ := by
  rw [Scope.pop, hb.outer, h.outer, hb.base, h.base]
  rfl

/-- After the frame is closed, the frames are what they were. -/
theorem frames_pop : b.pop.frames = s.frames := by
  rw [h.pop_eq hb]
  rfl

theorem slot?_pop (name : String) : b.pop.slot? name = s.slot? name :=
  slot?_congr (h.frames_pop hb) name

theorem getElem?_pop (hi : i < s.slots.length) : b.pop.slots[i]? = b.slots[i]? := by
  rw [h.pop_eq hb]
  exact List.getElem?_take_of_lt hi

theorem length_pop : b.pop.slots.length = s.slots.length := by
  have := Nat.le_trans h.slots.length_le hb.length
  rw [h.pop_eq hb]
  exact (List.length_take ..).trans (Nat.min_eq_left this)

/-- A slot that no name led to before the frame was opened keeps its value, as does one that only
names of the frame led to. -/
theorem getElem?_of_unshared (hi : i < s.slots.length)
    (unshared : ∀ name, s.slot? name = some i → name ∈ declared) :
    b.slots[i]? = s.slots[i]? := by
  have hidden : t.Hides i := by
    intro name found
    by_cases hname : name ∈ declared
    · obtain ⟨j, hj, hlength⟩ := h.inner name hname
      cases found.symm.trans hj
      omega
    · exact hname (unshared name ((h.others name hname).symm.trans found))
  rw [hb.hidden i (Nat.lt_of_lt_of_le hi h.slots.length_le) hidden]
  obtain ⟨more, hmore⟩ := h.slots
  rw [← hmore]
  exact List.getElem?_append_left hi

/-- A body in a frame of its own is settled after it. -/
theorem settles_pop : Settles s b.pop where
  outer := (List.cons.inj (h.frames_pop hb)).2
  base := congrArg Frame.base (List.cons.inj (h.frames_pop hb)).1
  length := Nat.le_of_eq (h.length_pop hb).symm
  keeps name i found _ := (h.slot?_pop hb name).trans found
  fresh name i found := .inl ((h.slot?_pop hb name).symm.trans found)
  hidden i hi hidden := by
    rw [h.getElem?_pop hb hi]
    exact h.getElem?_of_unshared hb hi fun name found => absurd found (hidden name)
  wellFormed hs := (hb.wellFormed (h.wellFormed hs)).pop

end Opens

/-- The same frames are open in the second of two scopes, with the same names, and no variable is
visible in it that is not visible in the first. -/
structure Restores (s t : Scope) : Prop where
  frames : t.frames = s.frames
  gone : ∀ name, s.get? name = none → t.get? name = none

instance : IsPreorder Scope Restores where
  refl _ := ⟨rfl, fun _ h => h⟩
  trans _ _ _ h k := ⟨k.frames.trans h.frames, fun name hname => k.gone name (h.gone name hname)⟩

/-- What a block does to the variables outside of it, from the scope before its frame is opened,
with the scope at the end of its body, to the scope after it. -/
structure Encloses (declared : List String) (s b t : Scope) : Prop extends Restores s t where
  /-- A variable that is visible outside and not shadowed is the same variable in the body, and
  has after it the value that the body left it. -/
  written : ∀ name, (s.get? name).isSome → name ∉ declared →
    b.slot? name = s.slot? name ∧ t.get? name = b.get? name
  /-- A variable that is shadowed has the value that it had before. -/
  shadowed : s.WellFormed → ∀ name ∈ declared, t.get? name = s.get? name
  wellFormed : s.WellFormed → t.WellFormed

theorem Opens.encloses {declared : List String} (h : Opens declared s t) (hb : Settles t b) :
    Encloses declared s b b.pop where
  frames := h.frames_pop hb
  gone name hname := by
    rw [get?_eq_none_iff] at hname ⊢
    intro i found
    rw [h.length_pop hb]
    exact hname i ((h.slot?_pop hb name).symm.trans found)
  written name visible other := by
    obtain ⟨v, hv⟩ := Option.isSome_iff_exists.mp visible
    obtain ⟨i, found, hi⟩ := get?_eq_some_iff.mp hv
    have bound : i < s.slots.length := (List.getElem?_eq_some_iff.mp hi).1
    have inside : b.slot? name = some i :=
      hb.keeps name i ((h.others name other).trans found) (Nat.lt_of_lt_of_le bound h.slots.length_le)
    refine ⟨inside.trans found.symm, ?_⟩
    rw [get?_of_slot? ((h.slot?_pop hb name).trans found), get?_of_slot? inside]
    exact h.getElem?_pop hb bound
  shadowed hs name hname := by
    cases found : s.slot? name with
    | none =>
      rw [get?, get?, h.slot?_pop hb name, found]
      rfl
    | some i =>
      have bound : i < s.slots.length := hs.slot_lt found
      rw [get?_of_slot? ((h.slot?_pop hb name).trans found), get?_of_slot? found]
      rw [h.getElem?_pop hb bound]
      exact h.getElem?_of_unshared hb bound fun other ho => hs.slot_inj found ho ▸ hname
  wellFormed := (h.settles_pop hb).wellFormed

end Scope

end PromptTemplate
