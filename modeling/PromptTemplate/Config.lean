import PromptTemplate.Message.Basic
import PromptTemplate.Text.Blank
import PromptTemplate.Yaml.Json

/-!
# Config blocks

A config block is a YAML mapping. A blank block and one that holds null are empty.
-/

namespace PromptTemplate

/-- Why a text is not a config block. -/
inductive ConfigFault where
  | malformed
  /-- The text holds a list. -/
  | sequence
  | scalar (found : Json)

namespace ConfigFault

def message : ConfigFault → String
  | .malformed => "YAML parse error: malformed document"
  | .sequence => "Config block must be a mapping, found a sequence"
  | .scalar found => "Config block must be a mapping, found scalar " ++ found.write

end ConfigFault

/-- Reads the text of a config block. -/
def Config.read (text : String) : Except ConfigFault Config :=
  if (Text.trim text.toList).isEmpty then .ok []
  else
    match Yaml.json? text with
    | none => .error .malformed
    | some (.object members) => .ok members
    | some .null => .ok []
    | some (.array _) => .error .sequence
    | some found => .error (.scalar found)

end PromptTemplate
