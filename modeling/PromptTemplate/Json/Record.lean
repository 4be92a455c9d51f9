import PromptTemplate.Json.Basic

/-!
# Records and variants as JSON

A record is an object with a member for each field. A variant without data is its name,
and one with data is an object whose only member is the data under the name.
-/

namespace PromptTemplate.Json

def variant (name : String) (data : Json) : Json := .object [(name, data)]

def natural (n : Nat) : Json := .integer n

/-- A double; those that are not finite have no JSON form and become null. -/
def finite (x : Float) : Json := if x.isFinite then .double x else .null

def optional {α : Type} (encode : α → Json) : Option α → Json
  | none => .null
  | some a => encode a

/-- The data of a variant with its name. -/
def variant? : Json → Option (String × Json)
  | .object [(name, data)] => some (name, data)
  | _ => none

def bool? : Json → Option Bool
  | .bool b => some b
  | _ => none

def array? : Json → Option (List Json)
  | .array items => some items
  | _ => none

/-- The fields of a record, which may also be written as the list of their values in
order. -/
def fields? (names : List String) : Json → Option (List (Option Json))
  | .object members => some (names.map (Dictionary.get? members))
  | .array items =>
    if items.length ≤ names.length then
      some (items.map some ++ List.replicate (names.length - items.length) none)
    else none
  | _ => none

/-- The name of a variant without data; it may also be written as the only member of an
object, with null. -/
def name? : Json → Option String
  | .string s => some s
  | .object [(s, .null)] => some s
  | _ => none

/-- Reads a member that may be missing or null. -/
def optional? {α : Type} (decode : Json → Option α) : Option Json → Option (Option α)
  | none | some .null => some none
  | some j => (decode j).map some

/-- Reads every item of a list. -/
def list? {α : Type} (decode : Json → Option α) (j : Json) : Option (List α) :=
  j.array?.bind fun items => items.mapM decode

end PromptTemplate.Json
