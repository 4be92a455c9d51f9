import PromptTemplate.Json.Basic
import PromptTemplate.Number.Reading

/-!
# Values of templates

Values are dynamically typed. Objects keep the order of their members; functions come
from outside and are told apart by identity. This module holds the kinds of values and
their conversions to truth values, texts and numbers.
-/

namespace PromptTemplate

/-- A function of the host. Two of them are the same when their identities are. -/
structure Callable where
  name : String
  identity : Nat
deriving DecidableEq, Repr

inductive Value where
  | undefined
  | null
  | bool (b : Bool)
  | number (x : Float)
  | string (s : String)
  | array (items : List Value)
  | object (members : List (String × Value))
  | function (f : Callable)
deriving Inhabited

namespace Value

/-- The constructors of values. -/
inductive Kind where
  | undefined | null | bool | number | string | array | object | function
deriving DecidableEq, Repr

def kind : Value → Kind
  | .undefined => .undefined
  | .null => .null
  | .bool _ => .bool
  | .number _ => .number
  | .string _ => .string
  | .array _ => .array
  | .object _ => .object
  | .function _ => .function

/-- The answer of the operator that asks for a type: null and arrays count as objects. -/
def typeName (v : Value) : String :=
  match v.kind with
  | .undefined => "undefined"
  | .null | .array | .object => "object"
  | .bool => "boolean"
  | .number => "number"
  | .string => "string"
  | .function => "function"

/-- The name of the kind in error messages, where null and arrays count as themselves. -/
def kindName (v : Value) : String :=
  match v.kind with
  | .null => "null"
  | .array => "array"
  | _ => v.typeName

def isNullish : Value → Bool
  | .undefined | .null => true
  | _ => false

/-- Undefined, null, false, both zeros, the number that is none and the empty text are
false; every other value is true. -/
def isTruthy : Value → Bool
  | .undefined | .null => false
  | .bool b => b
  | .number x => !(x == 0) && !x.isNaN
  | .string s => !s.isEmpty
  | .array _ | .object _ | .function _ => true

def ofNat (n : Nat) : Value := .number (Float.ofNat n)

mutual

/-- The text of a value. In an array undefined and null are empty; an object does not
show its members. -/
def text : Value → String
  | .undefined => "undefined"
  | .null => "null"
  | .bool b => if b then "true" else "false"
  | .number x => Number.text x
  | .string s => s
  | .array items => String.intercalate "," (itemTexts items)
  | .object _ => "[object Object]"
  | .function f => "function " ++ f.name ++ "() \x7b [native code] \x7d"

def itemTexts : List Value → List String
  | [] => []
  | v :: rest => (if v.isNullish then "" else v.text) :: itemTexts rest

end

/-- A value that is not a container or a function stands for itself, the others for
their text. -/
def primitive (v : Value) : Value :=
  match v with
  | .array _ | .object _ | .function _ => .string v.text
  | v => v

/-- The number that a value stands for; nothing if it stands for none. -/
def toNumber (v : Value) : Float :=
  match v with
  | .undefined => Number.nan
  | .null => 0
  | .bool b => if b then 1 else 0
  | .number x => x
  | .string s => Number.ofText s
  | .array _ | .object _ | .function _ => Number.ofText v.text

def toInt32 (v : Value) : Int32 := Number.toInt32 v.toNumber

def toUInt32 (v : Value) : UInt32 := Number.toUInt32 v.toNumber

/-- The items that a loop over the value visits: the items of an array, the characters
of a text, the values of an object, and none of anything else. -/
def iterated : Value → List Value
  | .array items => items
  | .string s => s.toList.map fun c => .string (String.singleton c)
  | .object members => members.map (·.2)
  | _ => []

end Value

end PromptTemplate
