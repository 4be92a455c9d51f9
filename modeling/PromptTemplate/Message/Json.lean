import PromptTemplate.Json.Record
import PromptTemplate.Message.Basic

/-!
# Messages as JSON

A part is an object whose member `type` says what it is, or a list that begins with its
type. Members that a part does not have are ignored when it is read, and a tool result is
no error unless it says so.
-/

namespace PromptTemplate

namespace Part

def toJson : Part → Json
  | .text s => .object [("type", .string "text"), ("text", .string s)]
  | .image s => .object [("type", .string "image"), ("image", .string s)]
  | .toolCall id name arguments =>
    .object [("type", .string "tool-call"), ("toolCallId", .string id),
      ("toolName", .string name), ("args", arguments)]
  | .toolResult id name result isError =>
    .object [("type", .string "tool-result"), ("toolCallId", .string id),
      ("toolName", .string name), ("result", result), ("isError", .bool isError)]

/-- The members of a part besides its type. -/
def fieldNames : String → List String
  | "text" => ["text"]
  | "image" => ["image"]
  | "tool-call" => ["toolCallId", "toolName", "args"]
  | "tool-result" => ["toolCallId", "toolName", "result", "isError"]
  | _ => []

/-- The types of parts, in their fixed order. -/
def kinds : List String := ["text", "image", "tool-call", "tool-result"]

/-- The type of a part. Inside a message it may also be given by its place in their
order. -/
def kindOf? (nested : Bool) : Json → Option String
  | .string kind => some kind
  | .integer n => if nested then n.toNat?.bind (kinds[·]?) else none
  | _ => none

/-- The type of a part, and an object or a list with its other members. -/
def tagged? (nested : Bool) : Json → Option (String × Json)
  | .object members => (Dictionary.get? members "type").bind fun t =>
    (kindOf? nested t).map fun kind => (kind, .object members)
  | .array (t :: rest) => (kindOf? nested t).map fun kind => (kind, .array rest)
  | _ => none

/-- Reads a part, which stands alone or inside a message. -/
def ofJson? (nested : Bool) (j : Json) : Option Part := do
  let (kind, data) ← tagged? nested j
  match kind, ← data.fields? (fieldNames kind) with
  | "text", [some s] => return .text (← s.text?)
  | "image", [some s] => return .image (← s.text?)
  | "tool-call", [some id, some name, some arguments] =>
    return .toolCall (← id.text?) (← name.text?) arguments
  | "tool-result", [some id, some name, some result, isError] =>
    let isError ← match isError with
      | none => some false
      | some flag => flag.bool?
    return .toolResult (← id.text?) (← name.text?) result isError
  | _, _ => none

end Part

namespace Content

def toJson : Content → Json
  | .text s => .string s
  | .parts ps => .array (ps.map Part.toJson)

def ofJson? : Json → Option Content
  | .string s => some (.text s)
  | j => (j.list? (Part.ofJson? true)).map .parts

end Content

namespace Role

def ofJson? (j : Json) : Option Role := j.name?.bind ofName?

end Role

namespace Message

def toJson (m : Message) : Json :=
  let id := match m.toolId with
    | some id => [("toolId", Json.string id)]
    | none => []
  .object ([("role", .string m.role.name), ("content", m.content.toJson)] ++ id)

def ofJson? (j : Json) : Option Message := do
  let [some role, some content, toolId] ← j.fields? ["role", "content", "toolId"] | none
  let role ← Role.ofJson? role
  let content ← Content.ofJson? content
  let toolId ← Json.optional? Json.text? toolId
  return ⟨role, content, toolId⟩

end Message

namespace Conversation

def ofJson? (j : Json) : Option Conversation := do
  let [some (.object config), some messages] ← j.fields? ["config", "messages"] | none
  return ⟨config, ← messages.list? Message.ofJson?⟩

end Conversation

end PromptTemplate
