import PromptTemplate.Error
import PromptTemplate.Value.Basic

/-!
# Properties of values

Objects have their members, arrays and texts their length and their items by index. A
path of keys is read from the outside in; a write rebuilds the values along the path.
Only a computed key may add a member to an object, and an array grows by a limited
number of holes at a time.
-/

namespace PromptTemplate.Value

/-- The name of the property that a computed key stands for. -/
def keyText (v : Value) : String := v.text

/-- The greatest index of an array. -/
def maxIndex : Nat := Nat.pow 2 32 - 2

/-- How much an array may grow at once. -/
def maxGap : Nat := Nat.pow 2 16

/-- The index that a key names: decimal digits without a leading zero. -/
def index? (key : String) : Option Nat :=
  let cs := key.toList
  if cs.isEmpty || !cs.all Char.isDigit then none
  else
    let n := Number.ofDigits 10 cs
    if n ≤ maxIndex ∧ (cs.head? ≠ some '0' ∨ cs.length = 1) then some n else none

/-- Reads a property. A strict read of a missing one is an error, another gives
undefined; nothing has no properties at all. -/
def property (strict : Bool) (key : String) (target : Value) : Except Cause Value :=
  let missing : Except Cause Value :=
    if strict then .error (.missingProperty key) else .ok .undefined
  let indexed (length : Nat) (item : Nat → Option Value) : Except Cause Value :=
    if key = "length" then .ok (ofNat length)
    else
      match index? key with
      | some i => .ok ((item i).getD .undefined)
      | none => missing
  match target with
  | .undefined | .null => .error (.propertyOfNothing key target.kindName)
  | .object members =>
    match Dictionary.get? members key with
    | some v => .ok v
    | none => missing
  | .array items => indexed items.length (items[·]?)
  | .string s =>
    indexed s.length fun i => s.toList[i]?.map fun c => .string (String.singleton c)
  | .bool _ | .number _ | .function _ => missing

/-- One key of a path, and the piece of text that ends with it. -/
structure Step where
  name : String
  computed : Bool
  span : Span
deriving DecidableEq

/-- Reads along a path; plain keys are read strictly. -/
def readPath (root : Value) : List Step → Except Error Value
  | [] => .ok root
  | step :: rest =>
    match root.property (!step.computed) step.name with
    | .ok v => readPath v rest
    | .error cause => .error (cause.on step.span)

/-- A list cut or filled up with undefined to a length. -/
def resize (items : List Value) (length : Nat) : List Value :=
  items.take length ++ List.replicate (length - items.length) .undefined

/-- A list of another length, which may not be greater by more than the limit. -/
def grow (items : List Value) (length : Nat) (step : Step) : Except Error (List Value) :=
  if items.length + maxGap < length then .error ((Cause.arrayTooLong length).on step.span)
  else .ok (resize items length)

/-- The length that a value can give an array. -/
def length? : Value → Option Nat
  | .number x =>
    match Number.integer? x with
    | some n => if 0 ≤ n ∧ n ≤ maxIndex then some n.toNat else none
    | none => none
  | _ => none

def refuse (step : Step) (target : Value) : Error :=
  (Cause.unassignableProperty step.name target.kindName).on step.span

/-- The value with one property changed. -/
def withProperty (target : Value) (step : Step) (v : Value) : Except Error Value :=
  match target with
  | .object members =>
    if !step.computed && !Dictionary.contains members step.name then
      .error ((Cause.missingProperty step.name).on step.span)
    else .ok (.object (Dictionary.put members step.name v))
  | .array items =>
    match index? step.name with
    | some i =>
      if i < items.length then .ok (.array (items.set i v))
      else (grow items (i + 1) step).map fun longer => .array (longer.set i v)
    | none =>
      if step.name = "length" then
        match length? v with
        | some n => (grow items n step).map .array
        | none => .error (Cause.invalidLength.on step.span)
      else if !step.computed then .error ((Cause.missingProperty step.name).on step.span)
      else .error (refuse step target)
  | _ => .error (refuse step target)

/-- The value at the end of a path replaced. The containers on the way have to be
there. -/
def writePath (target : Value) : List Step → Value → Except Error Value
  | [], v => .ok v
  | [step], v => target.withProperty step v
  | step :: rest, v =>
    let missing : Error := (Cause.missingProperty step.name).on step.span
    match target with
    | .object members =>
      match Dictionary.get? members step.name with
      | some child =>
        (writePath child rest v).map fun child => .object (Dictionary.put members step.name child)
      | none => .error missing
    | .array items =>
      match (index? step.name).bind fun i => items[i]?.map (i, ·) with
      | some (i, child) => (writePath child rest v).map fun child => .array (items.set i child)
      | none => .error missing
    | _ => .error (refuse step target)

end PromptTemplate.Value
