import PromptTemplate.Value.Basic

/-!
# Values as JSON

Undefined, functions and numbers that are not finite have no JSON form. They become null
in a list, and members that hold undefined or a function are left out. A whole number
below two to the 53 becomes an integer, every other number a double.
-/

namespace PromptTemplate.Value

/-- Whether an object member with this value has a JSON form. -/
def isKept : Value → Bool
  | .undefined | .function _ => false
  | _ => true

def numberToJson (x : Float) : Json :=
  match Number.integer? x with
  | some n => if n.natAbs < Nat.pow 2 53 then .integer n else .double x
  | none => if x.isFinite then .double x else .null

mutual

def toJson : Value → Json
  | .undefined | .null | .function _ => .null
  | .bool b => .bool b
  | .number x => numberToJson x
  | .string s => .string s
  | .array items => .array (itemsToJson items)
  | .object members => .object (membersToJson members)

def itemsToJson : List Value → List Json
  | [] => []
  | v :: rest => v.toJson :: itemsToJson rest

def membersToJson : List (String × Value) → List (String × Json)
  | [] => []
  | (k, v) :: rest =>
    if v.isKept then (k, v.toJson) :: membersToJson rest else membersToJson rest

end

mutual

def ofJson : Json → Value
  | .null => .null
  | .bool b => .bool b
  | .integer n => .number (Float.ofInt n)
  | .double x => .number x
  | .string s => .string s
  | .array items => .array (ofJsonItems items)
  | .object members => .object (ofJsonMembers members)

def ofJsonItems : List Json → List Value
  | [] => []
  | j :: rest => ofJson j :: ofJsonItems rest

def ofJsonMembers : List (String × Json) → List (String × Value)
  | [] => []
  | (k, j) :: rest => (k, ofJson j) :: ofJsonMembers rest

end

/-- The parameters that a JSON object names; other JSON values name none. -/
def parametersOfJson : Json → Dictionary Value
  | .object members => ofJsonMembers members
  | _ => []

mutual

/-- The JSON text of a value, with numbers written as in texts. -/
def jsonOpening : Value → Json.Opening
  | .undefined | .null | .function _ => ("null".toList ++ ·)
  | .bool b => ((if b then "true" else "false").toList ++ ·)
  | .number x => ((if x.isFinite then Number.text x else "null").toList ++ ·)
  | .string s => Json.quoted s
  | .array items => Json.bracketed '[' ']' (itemOpenings items)
  | .object members => Json.bracketed '\x7b' '\x7d' (memberOpenings members)

def itemOpenings : List Value → List Json.Opening
  | [] => []
  | v :: rest => v.jsonOpening :: itemOpenings rest

def memberOpenings : List (String × Value) → List Json.Opening
  | [] => []
  | (k, v) :: rest =>
    if v.isKept then Json.labelled k v.jsonOpening :: memberOpenings rest
    else memberOpenings rest

end

def jsonText (v : Value) : String := String.ofList (v.jsonOpening [])

/-- The text that a value shows where it is written in a template. -/
def output (v : Value) : String :=
  match v with
  | .undefined => ""
  | .null | .array _ | .object _ => v.jsonText
  | v => v.text

end PromptTemplate.Value
