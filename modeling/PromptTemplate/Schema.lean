import PromptTemplate.Config
import PromptTemplate.Json.Record

/-!
# Schemas of config blocks

A schema lists the keys that a config block may have, and says whether other keys are
accepted. A violation is told in a sentence: first those of the fields in their order,
then the unknown keys in theirs.
-/

namespace PromptTemplate

/-- The kind of value that a field accepts. -/
inductive FieldKind where
  | string
  | number
  | integer
  | boolean
  | array
  | object
  | any
deriving DecidableEq, Repr

namespace FieldKind

def all : List FieldKind := [.string, .number, .integer, .boolean, .array, .object, .any]

def name : FieldKind → String
  | .string => "string"
  | .number => "number"
  | .integer => "integer"
  | .boolean => "boolean"
  | .array => "array"
  | .object => "object"
  | .any => "any"

def ofName? (s : String) : Option FieldKind := all.find? (·.name == s)

/-- A double without a fraction is an integer, too. -/
def accepts (k : FieldKind) (j : Json) : Bool :=
  match k, j with
  | .string, .string _ => true
  | .number, .integer _ => true
  | .number, .double _ => true
  | .integer, .integer _ => true
  | .integer, .double x => x.floor == x
  | .boolean, .bool _ => true
  | .array, .array _ => true
  | .object, .object _ => true
  | .any, _ => true
  | _, _ => false

end FieldKind

structure Field where
  name : String
  kind : FieldKind
  required : Bool
deriving DecidableEq, Repr

structure Schema where
  fields : List Field
  /-- Whether keys that no field names are accepted. -/
  allowUnknown : Bool
deriving DecidableEq, Repr

namespace Schema

/-! ## Violations -/

def fieldViolation? (config : Config) (f : Field) : Option String :=
  match Dictionary.get? config f.name with
  | none => if f.required then some s!"Missing required config key '{f.name}'" else none
  | some j =>
    if f.kind.accepts j then none
    else some s!"Config key '{f.name}' must be of type {f.kind.name}"

def knows (s : Schema) (key : String) : Bool := s.fields.any (·.name == key)

def violations (s : Schema) (config : Config) : List String :=
  let unknown := if s.allowUnknown then [] else (Dictionary.keys config).filter (!s.knows ·)
  s.fields.filterMap (fieldViolation? config)
    ++ unknown.map fun key => s!"Unknown config key '{key}'"

theorem violations_empty (s : Schema) (config : Config) :
    s.violations config = [] ↔
      (∀ f ∈ s.fields, fieldViolation? config f = none) ∧
      (s.allowUnknown = true ∨ ∀ key ∈ Dictionary.keys config, s.knows key = true) := by
  cases h : s.allowUnknown <;>
    simp [violations, h, List.filterMap_eq_nil_iff, List.filter_eq_nil_iff]

/-! ## Reading -/

open Yaml (Follow follow textOf isNull nestingLimit)

/-- The fields of a record in a document, in the order of the names. A record is written
as a mapping, in which other keys may occur but no name twice; nothing at all is a record
without fields. -/
def recordOf (d : Yaml.Document) (names : List String) (depth : Nat) (a : Yaml.Node) :
    Follow (List (Option Yaml.Node)) := do
  match ← follow d a with
  | .scalar _ .plain "" => return names.map fun _ => none
  | .mapping _ entries =>
    if depth = 0 then failure
    else
      let keyed ← entries.mapM fun (key, value) => do
        return (← textOf d key, value)
      names.mapM fun name =>
        match keyed.filter (·.1 == name) with
        | [] => return none
        | [(_, value)] => return some value
        | _ => failure
  | _ => failure

/-- A kind by its name, which may also be written as the tag of an empty scalar. -/
def kindOf (d : Yaml.Document) (a : Yaml.Node) : Follow FieldKind := do
  let name ←
    match ← follow d a with
    | .scalar (some (.own name)) .plain text =>
      if text.isEmpty || isNull text then pure name else failure
    | .scalar (some (.own _)) _ _ => failure
    | .scalar _ _ text => pure text
    | _ => failure
  match FieldKind.ofName? name with
  | some k => return k
  | none => failure

def flagOf (d : Yaml.Document) (a : Yaml.Node) : Follow Bool := do
  match ← follow d a with
  | .scalar tag style text =>
    if style = .plain ∨ (style = .literal ∧ tag = some .bool) then
      match Yaml.bool? text with
      | some b => return b
      | none => failure
    else failure
  | _ => failure

/-- A part of a record that may be missing. -/
def orDefault {α : Type} (default : α) (read : Yaml.Node → Follow α) : Option Yaml.Node → Follow α
  | none => return default
  | some a => read a

def fieldOf (d : Yaml.Document) (depth : Nat) (a : Yaml.Node) : Follow Field := do
  match ← recordOf d ["name", "kind", "required"] depth a with
  | [some name, kind, required] =>
    return ⟨← textOf d name, ← orDefault .any (kindOf d) kind,
      ← orDefault false (flagOf d) required⟩
  | _ => failure

def fieldsOf (d : Yaml.Document) (depth : Nat) (a : Yaml.Node) : Follow (List Field) := do
  match ← follow d a with
  | .scalar _ .plain "" => return []
  | .sequence _ items => if depth = 0 then failure else items.mapM (fieldOf d (depth - 1))
  | _ => failure

def ofNode (d : Yaml.Document) (a : Yaml.Node) : Follow Schema := do
  match ← recordOf d ["fields", "allow_unknown"] nestingLimit a with
  | [fields, allow] =>
    return ⟨← orDefault [] (fieldsOf d (nestingLimit - 1)) fields,
      ← orDefault true (flagOf d) allow⟩
  | _ => failure

/-- Reads a schema from its YAML text. -/
def read (text : String) : Except ConfigFault Schema :=
  let made : Option Schema := do
    let d ← Yaml.document? text.toList
    match d.root with
    | none => return ⟨[], true⟩
    | some a => ((ofNode d a).run 0).map (·.1)
  match made with
  | some s => .ok s
  | none => .error .malformed

/-! ## JSON -/

def fieldToJson (f : Field) : Json :=
  .object [("name", .string f.name), ("kind", .string f.kind.name),
    ("required", .bool f.required)]

def toJson (s : Schema) : Json :=
  .object [("fields", .array (s.fields.map fieldToJson)), ("allow_unknown", .bool s.allowUnknown)]

end Schema

end PromptTemplate
