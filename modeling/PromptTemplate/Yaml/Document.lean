import PromptTemplate.Yaml.Token

/-!
# YAML documents

A document is a tree in which an alias stands for an anchored node by the number of a
slot. A slot is not tied to a name: when a name is anchored again, its aliases move on
to a slot that later anchors may take over, and the last node of a slot is the one that
counts, for all aliases of the slot.
-/

namespace PromptTemplate.Yaml

/-- What a tag asks for. -/
inductive Tag where
  /-- A tag of the document's own; it has no name if the tag is a mark alone. -/
  | own (name : String)
  | bool
  | integer
  | float
  | null
  | other
deriving DecidableEq, Repr

def Tag.ofName (name : String) : Tag :=
  if name.startsWith "!" then .own (String.ofList (name.toList.drop 1))
  else if name = "tag:yaml.org,2002:bool" then .bool
  else if name = "tag:yaml.org,2002:int" then .integer
  else if name = "tag:yaml.org,2002:float" then .float
  else if name = "tag:yaml.org,2002:null" then .null
  else .other

inductive Node where
  | scalar (tag : Option Tag) (style : Style) (text : String)
  | sequence (tag : Option Tag) (items : List Node)
  | mapping (tag : Option Tag) (entries : List (Node × Node))
  | aliased (slot : Nat)
deriving Inhabited

/-- A node that an anchor names. -/
structure Anchored where
  slot : Nat
  /-- The place of the anchor among all anchors. -/
  order : Nat
  node : Node

structure Document where
  /-- There is no root if the text has no document at all. -/
  root : Option Node
  anchored : List Anchored
  /-- The size of the document: one for a scalar or an alias, two for a collection. -/
  size : Nat

/-- The last of some anchored nodes. -/
def Anchored.last? (found : List Anchored) : Option Anchored :=
  found.foldl (fun best a =>
    match best with
    | none => some a
    | some b => if b.order < a.order then some a else some b) none

/-- The node that the aliases of a slot stand for. -/
def Document.node? (d : Document) (slot : Nat) : Option Node :=
  (Anchored.last? (d.anchored.filter (·.slot == slot))).map (·.node)

end PromptTemplate.Yaml
