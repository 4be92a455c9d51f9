import PromptTemplate.Yaml.Reading
import PromptTemplate.Yaml.Resolution

/-!
# Documents as JSON

Keys have to be scalars, whose text is taken as it stands. A key that comes again keeps
its place and gets the new value. Collections may be nested 128 deep, which also stops
an alias inside the node that it stands for; and aliases may be followed a hundred times
as often as the document is large.
-/

namespace PromptTemplate.Yaml

def nestingLimit : Nat := 128

/-- Reading the values of a document, with the number of aliases followed so far. -/
abbrev Follow := StateT Nat Option

/-- A node, or what it stands for if it is an alias. -/
def follow (d : Document) (a : Node) : Follow Node :=
  match a with
  | .aliased slot => do
    let count ← get
    if 100 * d.size ≤ count then failure
    else
      set (count + 1)
      match d.node? slot with
      | some b => return b
      | none => failure
  | a => return a

/-- The text of a scalar, whatever its tag. -/
def textOf (d : Document) (a : Node) : Follow String := do
  match ← follow d a with
  | .scalar _ _ text => return text
  | _ => failure

/-- The value of a node in which collections are nested at most so deep. -/
def valueOf (d : Document) (depth : Nat) (a : Node) : Follow Json := do
  match ← follow d a with
  | .scalar tag style text =>
    match ofScalar? tag style text with
    | some j => return j
    | none => failure
  | .sequence tag items =>
    match depth, tag with
    | _, some (.own _) => failure
    | 0, _ => failure
    | depth + 1, _ => return .array (← items.mapM (valueOf d depth))
  | .mapping tag entries =>
    match depth, tag with
    | _, some (.own _) => failure
    | 0, _ => failure
    | depth + 1, _ =>
      let members ← entries.mapM fun (key, value) => do
        let name ← textOf d key
        return (name, ← valueOf d depth value)
      return .object (Dictionary.ofList members)
  | .aliased _ => failure

def Document.json? (d : Document) : Option Json :=
  match d.root with
  | none => some .null
  | some a => ((valueOf d nestingLimit a).run 0).map (·.1)

/-- The value that a text holds. -/
def json? (text : String) : Option Json :=
  (document? text.toList).bind Document.json?

end PromptTemplate.Yaml
