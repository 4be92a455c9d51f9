import PromptTemplate.Json.Reader
import PromptTemplate.Json.Record
import PromptTemplate.Value.Equality
import PromptTemplate.Value.Json

/-!
# Scopes

The values of all variables stand in one list of slots. A frame maps names to slots and
remembers how many slots there were when it was opened; names are looked up from the
innermost frame outwards. Closing a frame drops the slots made since it was opened, so
its own variables are gone while changes to outer ones stay. There is always at least
one frame.
-/

namespace PromptTemplate

structure Frame where
  base : Nat
  pointers : Dictionary Nat
deriving DecidableEq

/-- All slots and frames of a scope, the outermost frame first. -/
structure Stash where
  slots : List Value
  frames : List Frame

/-- A scope, with its innermost frame and then the others, the nearest first. -/
structure Scope where
  slots : List Value
  top : Frame
  outer : List Frame

namespace Scope

def empty : Scope := ⟨[], ⟨0, []⟩, []⟩

def frames (s : Scope) : List Frame := s.top :: s.outer

def depth (s : Scope) : Nat := s.frames.length

/-- The slot of a name. -/
def slot? (s : Scope) (name : String) : Option Nat :=
  s.frames.findSome? fun f => Dictionary.get? f.pointers name

def contains (s : Scope) (name : String) : Bool := (s.slot? name).isSome

def get? (s : Scope) (name : String) : Option Value :=
  (s.slot? name).bind fun i => s.slots[i]?

/-- Makes a variable in the innermost frame. -/
def declare (s : Scope) (name : String) (v : Value) : Scope :=
  ⟨s.slots ++ [v], { s.top with pointers := Dictionary.put s.top.pointers name s.slots.length },
    s.outer⟩

/-- Changes the variable of a name, or makes one if there is none. -/
def set (s : Scope) (name : String) (v : Value) : Scope :=
  match s.slot? name with
  | some i => if i < s.slots.length then { s with slots := s.slots.set i v } else s.declare name v
  | none => s.declare name v

def push (s : Scope) : Scope := ⟨s.slots, ⟨s.slots.length, []⟩, s.frames⟩

/-- Opens a frame with a variable for an item, and one for its index if that has a name. -/
def pushItem (s : Scope) (context : String) (index : Option String) (i : Nat) (v : Value) : Scope :=
  let s := s.push.declare context v
  match index with
  | some name => s.declare name (Value.ofNat i)
  | none => s

/-- Closes the innermost frame, unless it is the only one. -/
def pop (s : Scope) : Scope :=
  match s.outer with
  | [] => s
  | top :: outer => ⟨s.slots.take s.top.base, top, outer⟩

/-- The scope whose only variables are some parameters. -/
def ofParameters (parameters : List (String × Value)) : Scope :=
  parameters.foldl (fun s (name, v) => s.set name v) empty

def stash (s : Scope) : Stash := ⟨s.slots, s.frames.reverse⟩

/-- The scope of a stash; one without frames gets an empty frame. -/
def ofStash (s : Stash) : Scope :=
  match s.frames.reverse with
  | [] => ⟨s.slots, ⟨0, []⟩, []⟩
  | top :: outer => ⟨s.slots, top, outer⟩

@[simp] theorem ofStash_stash (s : Scope) : ofStash s.stash = s := by
  simp [ofStash, stash, frames]

/-- Whether two scopes have equal slots and the same frames. -/
def same (s t : Scope) : Bool :=
  Value.itemsEq s.slots t.slots && s.frames.length == t.frames.length &&
    (s.frames.zip t.frames).all fun (f, g) =>
      f.base == g.base && f.pointers.length == g.pointers.length &&
        f.pointers.all fun (name, i) => Dictionary.get? g.pointers name == some i

end Scope

namespace Frame

def toJson (f : Frame) : Json :=
  .object [("base", .natural f.base),
    ("pointers", .object (f.pointers.map fun (name, i) => (name, .natural i)))]

def ofJson? (j : Json) : Option Frame := do
  let base ← (← j.member? "base").natural?
  let .object pointers ← j.member? "pointers" | none
  let pointers ← pointers.mapM fun (name, i) => i.natural?.map fun i => (name, i)
  return ⟨base, pointers⟩

end Frame

namespace Stash

def toJson (s : Stash) : Json :=
  .object [("stash", .array (Value.itemsToJson s.slots)),
    ("frames", .array (s.frames.map Frame.toJson))]

def ofJson? (j : Json) : Option Stash := do
  let .array slots ← j.member? "stash" | none
  let frames ← (← j.member? "frames").list? Frame.ofJson?
  return ⟨Value.ofJsonItems slots, frames⟩

/-- The text in which a stash is stored. -/
def store (s : Stash) : String := s.toJson.write

/-- Reads a stored stash. One whose values are nested too deep for the reader of JSON is
refused. -/
def ofStored? (text : String) : Option Stash := (Json.read? text).bind ofJson?

end Stash

end PromptTemplate
