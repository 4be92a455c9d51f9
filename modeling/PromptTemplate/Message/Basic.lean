import PromptTemplate.Json.Basic

/-!
# Messages

A message has a role and a content, which is one text or a list of parts. System and
assistant messages made of texts only are written as one text with a line for each;
messages of users and tools always keep their parts.
-/

namespace PromptTemplate

inductive Role where
  | system | user | assistant | tool
deriving DecidableEq, Repr

namespace Role

def all : List Role := [.system, .user, .assistant, .tool]

theorem mem_all (r : Role) : r ∈ all := by
  cases r <;> decide

def name : Role → String
  | .system => "system"
  | .user => "user"
  | .assistant => "assistant"
  | .tool => "tool"

def ofName? (s : String) : Option Role := all.find? (·.name == s)

/-- Whether a message of the role is one text when all its parts are texts. -/
def prefersText : Role → Bool
  | .system | .assistant => true
  | .user | .tool => false

end Role

/-- One unit of content. -/
inductive Part where
  | text (text : String)
  | image (image : String)
  | toolCall (id name : String) (arguments : Json)
  | toolResult (id name : String) (result : Json) (isError : Bool)

namespace Part

def text? : Part → Option String
  | .text s => some s
  | _ => none

def isText (p : Part) : Bool := p.text?.isSome

end Part

inductive Content where
  | text (text : String)
  | parts (parts : List Part)

namespace Content

/-- The texts of the content, joined. -/
def plain : Content → String
  | .text s => s
  | .parts ps => String.join (ps.filterMap Part.text?)

def isEmpty : Content → Bool
  | .text s => s.isEmpty
  | .parts ps => ps.isEmpty

end Content

structure Message where
  role : Role
  content : Content
  toolId : Option String

/-- The texts among some parts, a line for each. -/
def Part.lines (ps : List Part) : String :=
  String.intercalate "\n" (ps.filterMap Part.text?)

namespace Message

/-- The message of a role with some parts, perhaps for a tool call. -/
def ofParts (role : Role) (ps : List Part) (toolId : Option String) : Message :=
  let content : Content :=
    if role.prefersText && ps.all Part.isText then .text (Part.lines ps) else .parts ps
  ⟨role, content, toolId⟩

/-- The message of a role with one text; one that is not from the system or the assistant
is from the user. -/
def ofText (role : Role) (s : String) : Message :=
  match role with
  | .system | .assistant => ⟨role, .text s, none⟩
  | .user | .tool => ofParts .user [.text s] none

end Message

/-- Settings from config blocks and step tags, in the order in which they were put. -/
abbrev Config := Dictionary Json

/-- The outcome of a compiled prompt. -/
structure Conversation where
  config : Config
  messages : List Message

end PromptTemplate
