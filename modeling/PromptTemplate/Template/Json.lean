import PromptTemplate.Expr.Json
import PromptTemplate.Json.Reader
import PromptTemplate.Template.Node

/-!
# Templates as JSON

The form in which templates are stored between steps: a node is a variant whose data is
the record of its parts.
-/

namespace PromptTemplate

namespace Piece

def toJson : Piece → Json
  | .text data s => .variant "Text" (.object [("data", .string data), ("span", s.toJson)])
  | .mustache e s =>
    .variant "Mustache" (.object [("expression", e.toJson), ("span", s.toJson)])

def ofJson? (j : Json) : Option Piece := do
  let (name, data) ← j.variant?
  let span ← Span.ofJson? (← data.member? "span")
  match name with
  | "Text" => return .text (← (← data.member? "data").text?) span
  | "Mustache" => return .mustache (← Expr.ofJson? (← data.member? "expression")) span
  | _ => none

end Piece

namespace AttributeValue

def toJson : AttributeValue → Json
  | .flag => .string "Flag"
  | .pieces ps => .variant "Nodes" (.array (ps.map Piece.toJson))

def ofJson? (j : Json) : Option AttributeValue :=
  match j.variant? with
  | some ("Nodes", data) => (data.list? Piece.ofJson?).map .pieces
  | some _ => none
  | none => if j.text? = some "Flag" then some .flag else none

end AttributeValue

namespace Attribute

def toJson (a : Attribute) : Json :=
  .object [("name", .string a.name), ("value", a.value.toJson), ("span", a.span.toJson)]

def ofJson? (j : Json) : Option Attribute := do
  let name ← (← j.member? "name").text?
  let value ← AttributeValue.ofJson? (← j.member? "value")
  let span ← Span.ofJson? (← j.member? "span")
  return ⟨name, value, span⟩

def allToJson (as : List Attribute) : Json := .array (as.map toJson)

end Attribute

namespace Node

mutual

def toJson : Node → Json
  | .text data s => .variant "Text" (.object [("data", .string data), ("span", s.toJson)])
  | .config value s => .variant "Config" (.object [("value", .object value), ("span", s.toJson)])
  | .mustache e s =>
    .variant "Mustache" (.object [("expression", e.toJson), ("span", s.toJson)])
  | .comment data ignores s =>
    .variant "Comment" (.object [("data", .string data),
      ("ignores", .array (ignores.map .string)), ("span", s.toJson)])
  | .message role as children s =>
    .variant "Message" (.object [("role", .optional (.string ·.name) role),
      ("attributes", Attribute.allToJson as), ("children", .array (toJsonAll children)),
      ("span", s.toJson)])
  | .content kind as children s =>
    .variant "Content" (.object [("kind", .string kind.name),
      ("attributes", Attribute.allToJson as), ("children", .array (toJsonAll children)),
      ("span", s.toJson)])
  | .reference as s =>
    .variant "Reference" (.object [("attributes", Attribute.allToJson as), ("span", s.toJson)])
  | .step as children s =>
    .variant "Step" (.object [("attributes", Attribute.allToJson as),
      ("children", .array (toJsonAll children)), ("span", s.toJson)])
  | .ifBlock e consequent alternate s =>
    .variant "If" (.object [("condition", e.toJson),
      ("consequent", .array (toJsonAll consequent)), ("alternate", toJsonOption alternate),
      ("span", s.toJson)])
  | .eachBlock e context index body alternate s =>
    .variant "Each" (.object [("expression", e.toJson), ("context", .string context),
      ("index", .optional .string index), ("body", .array (toJsonAll body)),
      ("alternate", toJsonOption alternate), ("span", s.toJson)])
  | .scoped children s =>
    .variant "Scoped" (.object [("children", .array (toJsonAll children)), ("span", s.toJson)])
  | .response name s =>
    .variant "StepResponse" (.object [("as_name", .optional .string name),
      ("span", s.toJson)])

def toJsonAll : List Node → List Json
  | [] => []
  | a :: rest => a.toJson :: toJsonAll rest

def toJsonOption : Option (List Node) → Json
  | none => .null
  | some nodes => .array (toJsonAll nodes)

end

/-- Reads the data of a variant with a reader of the nodes inside it. -/
def kind? (node? : Json → Option Node) (name : String) (data : Json) : Option Node := do
  let span ← Span.ofJson? (← data.member? "span")
  let nodes (field : String) : Option (List Node) :=
    (data.member? field).bind (Json.list? node?)
  let attributes : Option (List Attribute) :=
    (data.member? "attributes").bind (Json.list? Attribute.ofJson?)
  let alternate : Option (Option (List Node)) :=
    Json.optional? (Json.list? node?) (data.member? "alternate")
  let text (field : String) : Option String := (data.member? field).bind Json.text?
  let expr (field : String) : Option Expr := (data.member? field).bind Expr.ofJson?
  match name with
  | "Text" => return .text (← text "data") span
  | "Config" =>
    let .object value ← data.member? "value" | none
    return .config value span
  | "Mustache" => return .mustache (← expr "expression") span
  | "Comment" =>
    return .comment (← text "data") (← (← data.member? "ignores").list? Json.text?) span
  | "Message" =>
    let role ← Json.optional? (fun j => j.text?.bind Role.ofName?) (data.member? "role")
    return .message role (← attributes) (← nodes "children") span
  | "Content" =>
    let kind ← (text "kind").bind ContentKind.ofName?
    return .content kind (← attributes) (← nodes "children") span
  | "Reference" => return .reference (← attributes) span
  | "Step" => return .step (← attributes) (← nodes "children") span
  | "If" =>
    return .ifBlock (← expr "condition") (← nodes "consequent") (← alternate) span
  | "Each" =>
    let index ← Json.optional? Json.text? (data.member? "index")
    return .eachBlock (← expr "expression") (← text "context") index (← nodes "body")
      (← alternate) span
  | "Scoped" => return .scoped (← nodes "children") span
  | "StepResponse" =>
    return .response (← Json.optional? Json.text? (data.member? "as_name")) span
  | _ => none

/-- Reads nodes nested less deep than the bound. -/
def within? : Nat → Json → Option Node
  | 0, _ => none
  | bound + 1, j => do
    let (name, data) ← j.variant?
    kind? (within? bound) name data

def ofJson? (j : Json) : Option Node := within? (j.depth + 1) j

end Node

namespace Fragment

def toJson (f : Fragment) : Json :=
  .object [("children", .array (Node.toJsonAll f.children)), ("span", f.span.toJson)]

def ofJson? (j : Json) : Option Fragment := do
  let children ← (← j.member? "children").list? Node.ofJson?
  let span ← Span.ofJson? (← j.member? "span")
  return ⟨children, span⟩

/-- The text in which a template is stored between steps. -/
def store (f : Fragment) : String := f.toJson.write

/-- Reads a stored template. One that is nested too deep for the reader of JSON is refused. -/
def ofStored? (text : String) : Option Fragment := (Json.read? text).bind ofJson?

end Fragment

end PromptTemplate
