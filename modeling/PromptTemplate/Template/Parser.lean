import PromptTemplate.Template.Markup

/-!
# Reading templates

Nodes are read one after another until the text ends or something comes that is not a
node: the end of a block, its other branch, or a closing tag. What it is the end of is
decided by whoever reads the block or the element. Which tags may stand inside which is
decided here, so that messages are not nested, content tags stand in messages, and steps
stand neither in messages nor in each blocks nor in steps.
-/

namespace PromptTemplate

namespace Template

open Text

/-- The tags and blocks around a place, as far as they restrict what may stand there. -/
structure Nesting where
  inMessage : Bool
  inContent : Bool
  inStep : Bool
  inEach : Bool
deriving DecidableEq, Repr

def Nesting.none : Nesting := ⟨false, false, false, false⟩

/-- What a list of nodes stops at. -/
inductive Stop where
  | otherwise (condition : Option Expr) (span : Span)
  | blockEnd (name : String) (span : Span)
  | tagEnd (name : String) (span : Span)

/-- The error of stopping where something else is wanted; without a stop, the text has
ended. -/
def Stop.unexpected (wanted : String) : Option Stop → Error
  | none => Error.unplaced (.endOfInput wanted)
  | some (.otherwise _ s) => (Cause.misplacedElse wanted).on s
  | some (.blockEnd name s) => (Cause.misplacedBlockClose name wanted).on s
  | some (.tagEnd name s) => (Cause.misplacedTagClose name wanted).on s

def blockClosing (name : String) : String := "\x7b\x7b/" ++ name ++ "\x7d\x7d"

/-! ## Kinds of elements -/

inductive ElementKind where
  | message (role : Option Role)
  | content (kind : ContentKind)
  | reference
  | step
deriving DecidableEq, Repr

namespace ElementKind

def ofName? (name : String) : Option ElementKind :=
  if name = "message" then some (.message none)
  else
    match Role.ofName? name with
    | some role => some (.message (some role))
    | none =>
      match ContentKind.ofName? name with
      | some kind => some (.content kind)
      | none =>
        if name = "ref" then some .reference
        else if name = "step" then some .step
        else none

/-- The nesting inside an element, if the element may stand where it does. -/
def enter (n : Nesting) : ElementKind → Except Cause Nesting
  | .message _ =>
    if n.inMessage then .error .messageInMessage else .ok { n with inMessage := true }
  | .content kind =>
    if n.inContent then .error .contentInContent
    else if !n.inMessage then .error (.contentOutsideMessage kind.name)
    else .ok { n with inContent := true }
  | .step =>
    if n.inMessage then .error .stepInMessage
    else if n.inStep then .error .stepInStep
    else if n.inEach then .error .stepInEach
    else .ok { n with inStep := true }
  | .reference => .ok n

/-- The node of an element; what is inside a reference is dropped. -/
def node (kind : ElementKind) (as : List Attribute) (children : List Node) (s : Span) : Node :=
  match kind with
  | .message role => .message role as children s
  | .content kind => .content kind as children s
  | .reference => .reference as s
  | .step => .step as children s

end ElementKind

/-! ## Blocks -/

def trimFirst : List Node → List Node
  | .text data s :: rest => .text (String.ofList (trimStart data.toList)) s :: rest
  | nodes => nodes

def trimLast : List Node → List Node
  | [] => []
  | [.text data s] => [.text (String.ofList (trimEnd data.toList)) s]
  | a :: rest => a :: trimLast rest

def isEmptyText : Node → Bool
  | .text data _ => data.isEmpty
  | _ => false

/-- The nodes of a block without blanks at its two ends. -/
def trimBlock (nodes : List Node) : List Node :=
  (trimLast (trimFirst nodes)).filter (!isEmptyText ·)

/-! ## Nodes -/

mutual

/-- Reads nodes up to a stop, which is read too, or to the end of the text. -/
def nodes (n : Nesting) (c : Cursor) :
    Except Error (List Node × Option (Stop × c.Shorter)) :=
  let run := literal c.rest
  let d := c.skip run.2
  have read : d.rest.length ≤ c.rest.length := Cursor.length_skip_le _ _
  let front := if run.1.isEmpty then [] else [Node.text (String.ofList run.1) (c.span d)]
  if h : d.rest = [] then .ok (front, none)
  else do
    match ← item n d h with
    | (.inr stop, ⟨e, he⟩) => return (front, some (stop, ⟨e, by omega⟩))
    | (.inl a, ⟨e, he⟩) =>
      let (more, stop) ← nodes n e
      return (front ++ a :: more, stop.map fun (s, ⟨f, hf⟩) => (s, ⟨f, by omega⟩))
termination_by c.rest.length * 4 + 2
decreasing_by
  all_goals
    have := Cursor.length_skip_le c (literal c.rest).2
    omega

/-- Reads the node or the stop that begins with a mark. -/
def item (n : Nesting) (c : Cursor) (h : c.rest ≠ []) :
    Except Error ((Node ⊕ Stop) × c.Shorter) :=
  if ['/', '*'].isPrefixOf c.rest then do
    let (a, d) ← comment ['/', '*'] ['*', '/'] c h (by decide)
    return (.inl a, d)
  else if ['<', '!', '-', '-'].isPrefixOf c.rest then do
    let (a, d) ← comment ['<', '!', '-', '-'] ['-', '-', '>'] c h (by decide)
    return (.inl a, d)
  else if ['\x7b', '\x7b'].isPrefixOf c.rest then do
    match ← braceTag c h with
    | (.output e, ⟨d, hd⟩) => return (.inl (.mustache e (c.span d)), ⟨d, hd⟩)
    | (.ifOpening e, ⟨d, hd⟩) =>
      let (a, ⟨f, hf⟩) ← ifRest n c.position e d
      return (.inl a, ⟨f, by omega⟩)
    | (.eachOpening header, ⟨d, hd⟩) =>
      let (a, ⟨f, hf⟩) ← eachRest n c.position header d
      return (.inl a, ⟨f, by omega⟩)
    | (.otherwise e, ⟨d, hd⟩) => return (.inr (.otherwise e (c.span d)), ⟨d, hd⟩)
    | (.closing name, ⟨d, hd⟩) => return (.inr (.blockEnd name (c.span d)), ⟨d, hd⟩)
  else if ['<', '/'].isPrefixOf c.rest then do
    let (name, ⟨d, hd⟩) ← closingTag c h
    return (.inr (.tagEnd name (c.span d)), ⟨d, hd⟩)
  else do
    let (a, d) ← element n c h
    return (.inl a, d)
termination_by c.rest.length * 4 + 1
decreasing_by all_goals omega

/-- The rest of an if block that began at a place, after its condition. Another condition
in its other branch makes that branch an if block by itself. -/
def ifRest (n : Nesting) (start : Position) (condition : Expr) (c : Cursor) :
    Except Error (Node × c.Shorter) := do
  let (consequent, stop) ← nodes n c
  match stop with
  | some (.blockEnd "if" _, ⟨d, hd⟩) =>
    let span := Span.between start d.position
    return (.ifBlock condition (trimBlock consequent) none span, ⟨d, hd⟩)
  | some (.otherwise none _, ⟨d, hd⟩) =>
    let (alternate, stop) ← nodes n d
    match stop with
    | some (.blockEnd "if" _, ⟨e, he⟩) =>
      let span := Span.between start e.position
      return (.ifBlock condition (trimBlock consequent) (some (trimBlock alternate)) span,
        ⟨e, by omega⟩)
    | other => .error (Stop.unexpected (blockClosing "if") (other.map (·.1)))
  | some (.otherwise (some condition') s, ⟨d, hd⟩) =>
    let (nested, ⟨e, he⟩) ← ifRest n ⟨s.start, s.line, s.column⟩ condition' d
    let span := Span.between start e.position
    return (.ifBlock condition (trimBlock consequent) (some [nested]) span, ⟨e, by omega⟩)
  | other => .error (Stop.unexpected (blockClosing "if") (other.map (·.1)))
termination_by c.rest.length * 4 + 3
decreasing_by all_goals omega

/-- The rest of an each block that began at a place, after its header. -/
def eachRest (n : Nesting) (start : Position) (header : EachHeader) (c : Cursor) :
    Except Error (Node × c.Shorter) := do
  let inside := { n with inEach := true }
  let (body, stop) ← nodes inside c
  let block (alternate : Option (List Node)) (d : Cursor) : Node :=
    .eachBlock header.expression header.context header.index (trimBlock body) alternate
      (Span.between start d.position)
  match stop with
  | some (.blockEnd "each" _, ⟨d, hd⟩) => return (block none d, ⟨d, hd⟩)
  | some (.otherwise none _, ⟨d, hd⟩) =>
    let (alternate, stop) ← nodes inside d
    match stop with
    | some (.blockEnd "each" _, ⟨e, he⟩) =>
      return (block (some (trimBlock alternate)) e, ⟨e, by omega⟩)
    | other => .error (Stop.unexpected (blockClosing "each") (other.map (·.1)))
  | some (.otherwise (some _) s, _) => .error (Cause.misplacedElseIf.on s)
  | other => .error (Stop.unexpected (blockClosing "each") (other.map (·.1)))
termination_by c.rest.length * 4 + 3
decreasing_by all_goals omega

/-- Reads an element with what is inside it. -/
def element (n : Nesting) (c : Cursor) (h : c.rest ≠ []) :
    Except Error (Node × c.Shorter) := do
  let (opening, ⟨d, hd⟩) ← openingTag c h
  match ElementKind.ofName? opening.name with
  | none => .error ((Cause.unknownTag opening.name).on (c.span d))
  | some kind =>
    match kind.enter n with
    | .error cause => .error (cause.on (c.span d))
    | .ok inside =>
      if opening.closed then
        return (kind.node opening.attributes [] (c.span d), ⟨d, hd⟩)
      else
        let (children, stop) ← nodes inside d
        let closing := s!"</{opening.name}>"
        match stop with
        | some (.tagEnd name s, ⟨e, he⟩) =>
          if name = opening.name then
            return (kind.node opening.attributes children (c.span e), ⟨e, by omega⟩)
          else .error ((Cause.mismatchedTagClose opening.name name).on s)
        | none => .error ((Cause.endOfInput closing).within c.offset c.finish)
        | other => .error (Stop.unexpected closing (other.map (·.1)))
termination_by c.rest.length * 4
decreasing_by all_goals omega

end

/-- Reads a whole text; errors are not located. -/
def read (cs : List Char) : Except Error Fragment := do
  let (config, c) ← configBlock (Cursor.start cs)
  let (children, stop) ← nodes Nesting.none c
  match stop with
  | some (stop, _) => .error (Stop.unexpected "end of input" (some stop))
  | none =>
    let whole := (Cursor.start cs).span ((Cursor.start cs).skip cs.length)
    return ⟨config.toList ++ children, whole⟩

end Template

/-- The template that a text is. -/
def Fragment.ofText (source : String) : Except Error Fragment :=
  match Template.read source.toList with
  | .ok f => .ok f
  | .error e => .error (e.locate source.toList)

end PromptTemplate
