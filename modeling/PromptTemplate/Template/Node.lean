import PromptTemplate.Expr.Basic
import PromptTemplate.Message.Basic

/-!
# Templates

A template is a list of nodes: literal text, expressions in braces, blocks with nodes
inside them, and tags. Every node knows the piece of the text that it was read from. The
last two kinds of nodes are not written by anyone: they stand in what is left of a
template that has been compiled up to a step.
-/

namespace PromptTemplate

/-- A part of the value of an attribute. -/
inductive Piece where
  | text (data : String) (span : Span)
  | mustache (expression : Expr) (span : Span)

inductive AttributeValue where
  /-- A name alone. -/
  | flag
  | pieces (ps : List Piece)

structure Attribute where
  name : String
  value : AttributeValue
  span : Span

/-- The kinds of content tags. -/
inductive ContentKind where
  | text
  | image
deriving DecidableEq, Repr

inductive Node where
  | text (data : String) (span : Span)
  | config (value : Config) (span : Span)
  | mustache (expression : Expr) (span : Span)
  /-- A comment, with the codes of what it asks to ignore. -/
  | comment (data : String) (ignores : List String) (span : Span)
  /-- A message, whose role is given by an attribute if the tag does not name it. -/
  | message (role : Option Role) (attributes : List Attribute) (children : List Node)
      (span : Span)
  | content (kind : ContentKind) (attributes : List Attribute) (children : List Node)
      (span : Span)
  | reference (attributes : List Attribute) (span : Span)
  | step (attributes : List Attribute) (children : List Node) (span : Span)
  | ifBlock (condition : Expr) (consequent : List Node) (alternate : Option (List Node))
      (span : Span)
  | eachBlock (expression : Expr) (context : String) (index : Option String)
      (body : List Node) (alternate : Option (List Node)) (span : Span)
  /-- The rest of a block whose frame is still open. -/
  | scoped (children : List Node) (span : Span)
  /-- The place where the response to a step is put, under a name if there is one. -/
  | response (name : Option String) (span : Span)

structure Fragment where
  children : List Node
  span : Span

namespace ContentKind

def name : ContentKind → String
  | .text => "text"
  | .image => "image"

def ofName? (s : String) : Option ContentKind := [text, image].find? (·.name == s)

end ContentKind

namespace AttributeValue

def pieceText? : Piece → Option String
  | .text data _ => some data
  | .mustache .. => none

/-- The text of a value without expressions. -/
def staticText? : AttributeValue → Option String
  | .flag => none
  | .pieces ps => (ps.mapM pieceText?).map String.join

end AttributeValue

/-- The attribute with a name. -/
def Attribute.find? (attributes : List Attribute) (name : String) : Option Attribute :=
  List.find? (·.name == name) attributes

namespace Node

def span : Node → Span
  | .text _ s | .config _ s | .mustache _ s | .comment _ _ s | .reference _ s => s
  | .message _ _ _ s | .content _ _ _ s | .step _ _ s | .ifBlock _ _ _ s => s
  | .eachBlock _ _ _ _ _ s | .scoped _ s | .response _ s => s

def attributes : Node → List Attribute
  | .message _ as _ _ | .content _ as _ _ | .reference as _ | .step as _ _ => as
  | _ => []

mutual

/-- A node with all nodes inside it, each before those inside it. -/
def walk : Node → List Node
  | .message role as children s => .message role as children s :: walkAll children
  | .content kind as children s => .content kind as children s :: walkAll children
  | .step as children s => .step as children s :: walkAll children
  | .scoped children s => .scoped children s :: walkAll children
  | .ifBlock e consequent alternate s =>
    .ifBlock e consequent alternate s :: (walkAll consequent ++ walkOption alternate)
  | .eachBlock e context index body alternate s =>
    .eachBlock e context index body alternate s :: (walkAll body ++ walkOption alternate)
  | a => [a]

def walkAll : List Node → List Node
  | [] => []
  | a :: rest => walk a ++ walkAll rest

def walkOption : Option (List Node) → List Node
  | none => []
  | some nodes => walkAll nodes

end

end Node

/-- All nodes of a template, each before those inside it. -/
def Fragment.walk (f : Fragment) : List Node := Node.walkAll f.children

end PromptTemplate
