import PromptTemplate.Template.Node

/-!
# Parameters of templates

The parameters of a template are the names that it reads before it defines them. They
are found without evaluating anything: every branch of a block and every body of a loop
is looked at, and what is defined inside one is not defined after it.
-/

namespace PromptTemplate

/-- The names defined so far, and the names read while they were not defined. -/
structure Analysis where
  defined : List String
  used : List String
deriving DecidableEq, Repr

namespace Analysis

def empty : Analysis := ⟨[], []⟩

def read (a : Analysis) (name : String) : Analysis :=
  if a.defined.contains name || a.used.contains name then a
  else { a with used := a.used ++ [name] }

def define (a : Analysis) (name : String) : Analysis :=
  { a with defined := name :: a.defined }

/-- Looks at a block; what it defines is not defined after it. -/
def inside (a : Analysis) (block : Analysis → Analysis) : Analysis :=
  { block a with defined := a.defined }

/-! ## Expressions -/

mutual

def expr (a : Analysis) : Expr → Analysis
  | .literal .. => a
  | .identifier name _ => a.read name
  | .array items _ => a.exprs items
  | .object ps _ => a.properties ps
  | .member base key _ _ => (a.expr base).key key
  | .call callee arguments _ _ => (a.expr callee).exprs arguments
  | .unary _ argument _ => a.expr argument
  | .binary _ left right _ => (a.expr left).expr right
  | .logical _ left right _ => (a.expr left).expr right
  | .conditional test consequent alternate _ =>
    ((a.expr test).expr consequent).expr alternate
  | .assign op (.identifier name _) value _ =>
    let a := if op.binary?.isSome then a.read name else a
    (a.expr value).define name
  | .assign _ target value _ => (a.expr target).expr value
  | .update _ _ argument _ => a.expr argument

def exprs (a : Analysis) : List Expr → Analysis
  | [] => a
  | e :: rest => (a.expr e).exprs rest

def key (a : Analysis) : Key → Analysis
  | .named _ => a
  | .computed e => a.expr e

def properties (a : Analysis) : List Property → Analysis
  | [] => a
  | .mk k value :: rest => ((a.key k).expr value).properties rest

end

/-! ## Nodes -/

def pieces (a : Analysis) : List Piece → Analysis
  | [] => a
  | .text .. :: rest => a.pieces rest
  | .mustache e _ :: rest => (a.expr e).pieces rest

def attributes (a : Analysis) : List Attribute → Analysis
  | [] => a
  | x :: rest =>
    match x.value with
    | .flag => a.attributes rest
    | .pieces ps => (a.pieces ps).attributes rest

/-- The name that the attributes of a step give to its response, if it is plain text. -/
def responseName? (as : List Attribute) : Option String :=
  ((as.filter (·.name == "as")).getLast?).bind (·.value.staticText?)

def defineOption (a : Analysis) : Option String → Analysis
  | some name => a.define name
  | none => a

/-- The parameters of the documents behind reference tags, by the offset of the tag. -/
abbrev Included := List (Nat × List String)

def Included.at? (included : Included) (offset : Nat) : List String :=
  ((included.find? (·.1 == offset)).map (·.2)).getD []

/-- Reads the parameters of a referenced document that the tag does not give. -/
def reference (a : Analysis) (included : Included) (as : List Attribute) (s : Span) : Analysis :=
  let missing := (Included.at? included s.start).filter fun name =>
    (Attribute.find? as name).isNone
  missing.foldl read (a.attributes as)

mutual

def node (included : Included) (a : Analysis) : Node → Analysis
  | .text .. | .config .. | .comment .. => a
  | .mustache e _ => a.expr e
  | .ifBlock e consequent alternate _ =>
    let a := (a.expr e).inside fun b => nodes included b consequent
    nodesOption included a alternate
  | .eachBlock e context index body alternate _ =>
    let a := (a.expr e).inside fun b =>
      nodes included ((b.define context).defineOption index) body
    nodesOption included a alternate
  | .message _ as children _ => nodes included (a.attributes as) children
  | .content _ as children _ => nodes included (a.attributes as) children
  | .step as children _ =>
    (nodes included (a.attributes as) children).defineOption (responseName? as)
  | .reference as s => a.reference included as s
  | .scoped children _ => nodes included a children
  | .response name _ => a.defineOption name

def nodes (included : Included) (a : Analysis) : List Node → Analysis
  | [] => a
  | x :: rest => nodes included (node included a x) rest

def nodesOption (included : Included) (a : Analysis) : Option (List Node) → Analysis
  | none => a
  | some branch => a.inside fun b => nodes included b branch

end

end Analysis

/-- The parameters of a template whose references have the given parameters. -/
def Fragment.parameters (f : Fragment) (included : Analysis.Included) : List String :=
  (Analysis.nodes included Analysis.empty f.children).used

end PromptTemplate
