import PromptTemplate.Proofs.Scope.Frames

/-!
# Scopes as stacks of dictionaries

A plain environment is a stack of dictionaries: names are looked up from the innermost
one outwards, a write changes the innermost one that has the name. A scope shows exactly
what its stack of dictionaries shows, whatever is done to it and to its copies.
-/

namespace PromptTemplate

/-! ## Stacks of dictionaries -/

/-- The variables of every frame, the innermost frame first. -/
abbrev Layers := List (Dictionary Value)

namespace Layers

def get? (l : Layers) (name : String) : Option Value :=
  l.findSome? fun d => Dictionary.get? d name

def contains (l : Layers) (name : String) : Bool :=
  l.any fun d => Dictionary.contains d name

def declare (name : String) (v : Value) : Layers → Layers
  | [] => []
  | d :: rest => Dictionary.put d name v :: rest

/-- Changes the innermost dictionary that has a name. -/
def overwrite (name : String) (v : Value) : Layers → Layers
  | [] => []
  | d :: rest =>
    if Dictionary.contains d name then Dictionary.put d name v :: rest
    else d :: overwrite name v rest

def set (l : Layers) (name : String) (v : Value) : Layers :=
  if l.contains name then l.overwrite name v else l.declare name v

def push (l : Layers) : Layers := [] :: l

def pop : Layers → Layers
  | [] => []
  | [d] => [d]
  | _ :: d :: rest => d :: rest

end Layers

/-! ## The dictionaries of a scope -/

namespace Frame

/-- The variables of a frame, with the values in their slots. -/
def layer (slots : List Value) (f : Frame) : Dictionary Value :=
  Dictionary.mapValues (fun i => slots[i]?.getD .undefined) f.pointers

theorem contains_layer (slots : List Value) (f : Frame) (name : String) :
    Dictionary.contains (f.layer slots) name = (Dictionary.get? f.pointers name).isSome :=
  Dictionary.contains_mapValues _ _ _

/-- A change of the slot of one of its names is seen under that name. -/
theorem layer_set {f : Frame} {name : String} {i : Nat} {slots : List Value}
    (distinct : (f.pointers.map (·.2)).Nodup)
    (found : Dictionary.get? f.pointers name = some i) (bound : i < slots.length) (v : Value) :
    f.layer (slots.set i v) = Dictionary.put (f.layer slots) name v := by
  have written : (slots.set i v)[i]?.getD .undefined = v := by
    rw [List.getElem?_set_self bound, Option.getD_some]
  have kept : ∀ j, j ≠ i →
      (slots.set i v)[j]?.getD .undefined = slots[j]?.getD .undefined :=
    fun j hj => by rw [List.getElem?_set_ne (Ne.symm hj)]
  have h := Dictionary.mapValues_of_get? distinct found kept
  rwa [written] at h

end Frame

theorem Stacked.map_layer_congr {limit : Nat} {frames : List Frame} (h : Stacked limit frames)
    {a b : List Value} (same : ∀ i, i < limit → a[i]? = b[i]?) :
    frames.map (Frame.layer a) = frames.map (Frame.layer b) := by
  induction frames generalizing limit with
  | nil => rfl
  | cons f rest ih =>
    obtain ⟨hbase, hslots, _, hrest⟩ := h
    have head : f.layer a = f.layer b :=
      Dictionary.mapValues_congr fun e he => by rw [same e.2 (hslots e he).2]
    have tail := ih hrest fun i hi => same i (Nat.lt_of_lt_of_le hi hbase)
    rw [List.map_cons, List.map_cons, head, tail]

/-- A change of the slot of a name is seen in the innermost frame that has the name, and
nowhere else. -/
theorem Stacked.map_layer_set {limit : Nat} {frames : List Frame} (h : Stacked limit frames)
    {slots : List Value} (bound : limit ≤ slots.length) {name : String} {i : Nat}
    (found : frames.findSome? (fun f => Dictionary.get? f.pointers name) = some i)
    (v : Value) :
    frames.map (Frame.layer (slots.set i v)) =
      Layers.overwrite name v (frames.map (Frame.layer slots)) := by
  induction frames generalizing limit with
  | nil => cases found
  | cons f rest ih =>
    obtain ⟨hbase, hslots, hdistinct, hrest⟩ := h
    have other : ∀ j, j ≠ i → (slots.set i v)[j]? = slots[j]? :=
      fun j hj => List.getElem?_set_ne (Ne.symm hj)
    rw [List.map_cons, List.map_cons, Layers.overwrite, Frame.contains_layer]
    rw [List.findSome?_cons] at found
    cases hf : Dictionary.get? f.pointers name with
    | some j =>
      rw [hf] at found
      obtain rfl := Option.some.inj found
      have hj := hslots _ (Dictionary.mem_of_get? hf)
      have tail := hrest.map_layer_congr (a := slots.set j v) (b := slots)
        (fun b hb => other b (by omega))
      rw [if_pos Option.isSome_some, Frame.layer_set hdistinct hf (by omega), tail]
    | none =>
      rw [hf] at found
      have hi := hrest.lt_of_get? found
      have head : f.layer (slots.set i v) = f.layer slots :=
        Dictionary.mapValues_congr fun e he => by
          have := hslots e he
          rw [other e.2 (by omega)]
      rw [if_neg (by simp), head, ih hrest (by omega) found]

namespace Scope

/-- The stack of dictionaries that a scope stands for. -/
def layers (s : Scope) : Layers := s.frames.map (Frame.layer s.slots)

theorem length_layers (s : Scope) : s.layers.length = s.depth := List.length_map _

theorem contains_layers (s : Scope) (name : String) :
    s.layers.contains name = s.contains name := by
  rw [layers, contains, slot?, Layers.contains]
  generalize s.frames = frames
  induction frames with
  | nil => rfl
  | cons f rest ih =>
    rw [List.map_cons, List.any_cons, ih, List.findSome?_cons, Frame.contains_layer]
    cases Dictionary.get? f.pointers name <;> rfl

theorem get?_layers {s : Scope} (h : s.WellFormed) (name : String) :
    s.layers.get? name = s.get? name := by
  have hlt : ∀ i, s.slot? name = some i → i < s.slots.length := fun i => h.slot_lt
  rw [layers, get?, slot?, Layers.get?] at *
  generalize s.frames = frames at *
  induction frames with
  | nil => rfl
  | cons f rest ih =>
    rw [List.findSome?_cons] at hlt
    rw [List.map_cons, List.findSome?_cons, List.findSome?_cons, Frame.layer,
      Dictionary.get?_mapValues]
    cases hf : Dictionary.get? f.pointers name with
    | none =>
      rw [hf] at hlt
      exact ih hlt
    | some i =>
      rw [hf] at hlt
      simp [hlt i rfl]

theorem layers_declare {s : Scope} (h : s.WellFormed) (name : String) (v : Value) :
    (s.declare name v).layers = s.layers.declare name v := by
  have old : ∀ i, i < s.slots.length → (s.slots ++ [v])[i]? = s.slots[i]? :=
    fun i hi => List.getElem?_append_left hi
  have ⟨hbase, hslots, _, hrest⟩ := h
  have head : Frame.layer (s.slots ++ [v]) (s.declare name v).top =
      Dictionary.put (s.top.layer s.slots) name v := by
    have hnew : (s.slots ++ [v])[s.slots.length]?.getD .undefined = v := by simp
    have kept : s.top.layer (s.slots ++ [v]) = s.top.layer s.slots :=
      Dictionary.mapValues_congr fun e he => by rw [old e.2 (hslots e he).2]
    rw [← kept, Frame.layer, declare, Dictionary.mapValues_put, hnew, Frame.layer]
  have tail := hrest.map_layer_congr (a := s.slots ++ [v]) (b := s.slots)
    (fun i hi => old i (Nat.lt_of_lt_of_le hi hbase))
  exact congrArg₂ List.cons head tail

theorem layers_set {s : Scope} (h : s.WellFormed) (name : String) (v : Value) :
    (s.set name v).layers = s.layers.set name v := by
  rw [h.set_eq, Layers.set, contains_layers, contains]
  cases found : s.slot? name with
  | none => exact layers_declare h name v
  | some i => exact Stacked.map_layer_set h (Nat.le_refl _) found v

theorem layers_push (s : Scope) : s.push.layers = s.layers.push := rfl

theorem layers_pop {s : Scope} (h : s.WellFormed) : s.pop.layers = s.layers.pop := by
  rw [pop]
  split
  · rename_i houter
    simp [layers, frames, houter, Layers.pop]
  · rename_i top outer houter
    obtain ⟨_, _, _, hrest⟩ := h
    have kept := hrest.map_layer_congr (a := s.slots.take s.top.base) (b := s.slots)
      (fun i hi => List.getElem?_take_of_lt hi)
    simpa [layers, frames, houter, Layers.pop] using kept

theorem layers_ofParameters (parameters : List (String × Value)) :
    (ofParameters parameters).layers = [Dictionary.ofList parameters] := by
  induction parameters using List.reverseRecOn with
  | nil => rfl
  | append_singleton rest e ih =>
    rw [ofParameters_concat, layers_set (wellFormed_ofParameters rest), ih,
      Dictionary.ofList_concat, Layers.set]
    by_cases hc : Layers.contains [Dictionary.ofList rest] e.1
    · have known : Dictionary.contains (Dictionary.ofList rest) e.1 = true := by
        simpa [Layers.contains] using hc
      simp [hc, Layers.overwrite, known]
    · simp [hc, Layers.declare]

end Scope

end PromptTemplate
