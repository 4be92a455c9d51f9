/-!
# YAML tokens

The tokens make the structure that indentation gives explicit: every block collection
has a token where it begins and one where it ends, and every key one before it.
-/

namespace PromptTemplate.Yaml

/-- How the text of a scalar is written. -/
inductive Style where
  | plain
  | quoted
  | literal
  | folded
deriving DecidableEq, Repr

inductive Token where
  | version (major minor : Nat)
  /-- A handle and what it stands for. -/
  | handle (name meaning : String)
  | documentStart
  | documentEnd
  | blockSequence
  | blockMapping
  | blockEnd
  | flowSequence
  | flowSequenceEnd
  | flowMapping
  | flowMappingEnd
  | item
  | comma
  | key
  | value
  | aliased (name : String)
  | anchor (name : String)
  | tag (handle suffix : String)
  | scalar (style : Style) (text : String)
deriving DecidableEq, Repr

end PromptTemplate.Yaml
