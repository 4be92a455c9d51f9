import PromptTemplate.Expr.Evaluation
import PromptTemplate.Template.Node
import PromptTemplate.Text.Blank

/-!
# Compiling templates

A compilation walks the nodes of a template in order, evaluates its expressions and
collects messages. Text outside of all messages is gathered until a message or a step
comes and then becomes a system message by itself.

A step stops the walk. What is left is then a template again: a place for the response,
followed by the nodes that have not been walked. The frame of a block that is stopped
inside stays open, and what is left of the block is wrapped in a node that closes the
frame when it has been walked. So a later compilation of the rest, with the scope that
was left, goes on exactly there.
-/

namespace PromptTemplate

/-! ## Messages under way -/

/-- A message that is being put together. -/
structure Draft where
  role : Role
  toolId : Option String
  parts : List Part
  /-- The text outside of content tags since the last part. -/
  text : String
  /-- The text inside the open content tag, if one is open. -/
  content : Option String

namespace Draft

def empty (role : Role) (toolId : Option String) : Draft := ⟨role, toolId, [], "", none⟩

/-- Makes the text outside of content tags a part, unless it is blank. -/
def flush (d : Draft) : Draft :=
  let s := Text.trimmed d.text
  { d with parts := if s.isEmpty then d.parts else d.parts ++ [.text s], text := "" }

def emit (d : Draft) (s : String) : Draft :=
  match d.content with
  | some inside => { d with content := some (inside ++ s) }
  | none => { d with text := d.text ++ s }

def openContent (d : Draft) : Draft := { d.flush with content := some "" }

/-- Makes the text inside the content tag a part, even if it is blank. -/
def closeContent (d : Draft) (kind : ContentKind) : Draft :=
  let s := Text.trimmed (d.content.getD "")
  let part := match kind with
    | .text => Part.text s
    | .image => Part.image s
  { d with parts := d.parts ++ [part], content := none }

def message (d : Draft) : Message := Message.ofParts d.role d.flush.parts d.toolId

end Draft

/-- What a compilation has come to. -/
structure Compilation where
  world : World
  /-- The response to the step that the last compilation stopped at. -/
  response : Option (List Part)
  messages : List Message
  /-- The text outside of messages since the last message. -/
  text : String
  draft : Option Draft
  config : Option Config
  /-- The attributes of the step that this compilation stopped at. -/
  stepConfig : Option Config
  /-- How often the outermost frame was to be closed, which a scope refuses. -/
  refusedPops : Nat

/-- A compilation that has not come to anything yet. -/
def Compilation.start (world : World) (response : Option (List Part)) : Compilation :=
  ⟨world, response, [], "", none, none, none, 0⟩

abbrev Compile (α : Type) := ExceptT Error (StateM Compilation) α

/-- Whether a walk went to the end, or what it has left. -/
inductive Flow where
  | done
  | suspended (rest : List Node)

namespace Compile

/-! ## Actions -/

def evaluate (host : Host) (e : Expr) : Compile Value := do
  let c ← get
  let (result, world) := (Expr.evaluate host e).run c.world
  set { c with world := world }
  ofExcept result

def changeScope (f : Scope → Scope) : Compile Unit :=
  modify fun c => { c with world := { c.world with scope := f c.world.scope } }

/-- Adds text to the open content tag, the open message or the text outside. -/
def emit (s : String) : Compile Unit :=
  modify fun c =>
    match c.draft with
    | some d => { c with draft := some (d.emit s) }
    | none => { c with text := c.text ++ s }

/-- Makes the text outside of messages a system message, unless it is blank. -/
def flush : Compile Unit :=
  modify fun c =>
    let s := Text.trimmed c.text
    { c with
      messages := if s.isEmpty then c.messages else c.messages ++ [Message.ofText .system s]
      text := "" }

/-- The text of the pieces of an attribute; assignments leave none. -/
def piecesText (host : Host) : List Piece → Compile String
  | [] => return ""
  | .text data _ :: rest => return data ++ (← piecesText host rest)
  | .mustache e _ :: rest => do
    let v ← evaluate host e
    let s := if e.isAssignment then "" else v.output
    return s ++ (← piecesText host rest)

/-- The value of an attribute: true if it has none, the value of the expression if it is
an expression alone, and a text otherwise. -/
def attributeValue (host : Host) (a : Attribute) : Compile Value :=
  match a.value with
  | .flag => return .bool true
  | .pieces [.mustache e _] => evaluate host e
  | .pieces ps => return .string (← piecesText host ps)

/-- The value of the attribute with a name, undefined if there is none. -/
def valueNamed (host : Host) (as : List Attribute) (name : String) : Compile Value :=
  match Attribute.find? as name with
  | some a => attributeValue host a
  | none => return .undefined

/-- The role of a message tag. -/
def roleOf (host : Host) (role : Option Role) (as : List Attribute) (s : Span) :
    Compile Role := do
  match role with
  | some role => return role
  | none =>
    let v ← valueNamed host as "role"
    match v, Role.ofName? v.output with
    | .string _, some role => return role
    | _, _ => throw ((Cause.invalidRole v.output).on s)

/-- The id of a message tag, if it has one. -/
def toolIdOf (host : Host) (as : List Attribute) : Compile (Option String) :=
  match Attribute.find? as "id" with
  | some a => return some (← attributeValue host a).output
  | none => return none

def openMessage (host : Host) (role : Option Role) (as : List Attribute) (s : Span) :
    Compile Unit := do
  if (← get).draft.isSome then throw (Cause.messageInMessage.on s)
  else
    flush
    let role ← roleOf host role as s
    let id ← toolIdOf host as
    if role = .tool ∧ id.isNone then throw (Cause.toolWithoutId.on s)
    else modify fun c => { c with draft := some (Draft.empty role id) }

def closeMessage : Compile Unit :=
  modify fun c =>
    match c.draft with
    | some d => { c with messages := c.messages ++ [d.message], draft := none }
    | none => c

def openContent (kind : ContentKind) (s : Span) : Compile Unit := do
  match (← get).draft with
  | none => throw ((Cause.contentOutsideMessage kind.name).on s)
  | some d =>
    if d.content.isSome then throw (Cause.contentInContent.on s)
    else if d.role = .system ∧ kind = .image then throw (Cause.imageInSystem.on s)
    else modify fun c => { c with draft := some d.openContent }

def closeContent (kind : ContentKind) : Compile Unit :=
  modify fun c => { c with draft := c.draft.map (·.closeContent kind) }

/-- The name for the response to a step, and its other attributes as settings. -/
def stepAttributes (host : Host) (name : Option String) (config : Config) :
    List Attribute → Compile (Option String × Config)
  | [] => return (name, config)
  | a :: rest => do
    let v ← attributeValue host a
    if a.name = "as" then stepAttributes host (some v.output) config rest
    else stepAttributes host name (Dictionary.put config a.name v.toJson) rest

/-- Puts the response to a step into the conversation and under its name. -/
def respond (name : Option String) (s : Span) : Compile Unit := do
  match (← get).response with
  | none => throw (Cause.missingResponse.on s)
  | some ps =>
    modify fun c =>
      { c with
        response := none
        messages := c.messages ++ [Message.ofParts .assistant ps none] }
    match name with
    | some name => changeScope (·.set name (.string (Part.lines ps)))
    | none => return ()

/-- Closes the innermost frame. The outermost one stays, and the attempt is counted. -/
def closeFrame : Compile Unit :=
  modify fun c =>
    { c with
      world := { c.world with scope := c.world.scope.pop }
      refusedPops := c.refusedPops + if c.world.scope.outer.isEmpty then 1 else 0 }

/-! ## Walks -/

/-- Closes the frame of a block after its body, or leaves it open in what is left. -/
def leave (s : Span) : Flow → Compile Flow
  | .done => do
    closeFrame
    return .done
  | .suspended rest => return .suspended [.scoped rest s]

/-- Goes on with the nodes that follow, or leaves them. -/
def proceed (rest : List Node) (next : Compile Flow) : Flow → Compile Flow
  | .done => next
  | .suspended left => return .suspended (left ++ rest)

/-- Walks the body of a block in a frame of its own. -/
def inFrame (s : Span) (body : Compile Flow) : Compile Flow := do
  changeScope (·.push)
  leave s (← body)

/-- Walks the body of an each block once for every item, in a frame of its own. -/
def forItems (context : String) (index : Option String) (s : Span) (body : Compile Flow) :
    Nat → List Value → Compile Unit
  | _, [] => return ()
  | i, v :: rest => do
    changeScope (·.pushItem context index i v)
    match ← body with
    | .suspended _ => throw (Cause.stepInEach.on s)
    | .done =>
      closeFrame
      forItems context index s body (i + 1) rest

mutual

def walk (host : Host) : Node → Compile Flow
  | .text data _ => do
    emit data
    return .done
  | .config value _ => do
    modify fun c => { c with config := c.config <|> some value }
    return .done
  | .comment .. => return .done
  | .mustache e _ => do
    let v ← evaluate host e
    if !e.isAssignment then emit v.output
    return .done
  | .ifBlock e consequent alternate s => do
    if (← evaluate host e).isTruthy then inFrame s (walkAll host consequent)
    else walkOption host s alternate
  | .eachBlock e context index body alternate s => do
    let items := (← evaluate host e).iterated
    if items.isEmpty then
      match ← walkOption host s alternate with
      | .suspended _ => throw (Cause.stepInEach.on s)
      | .done => return .done
    else
      forItems context index s (walkAll host body) 0 items
      return .done
  | .message role as children s => do
    openMessage host role as s
    let _ ← walkAll host children
    closeMessage
    return .done
  | .content kind _ children s => do
    openContent kind s
    let _ ← walkAll host children
    closeContent kind
    return .done
  | .reference _ s => throw (Cause.unresolvedReference.on s)
  | .step as children s => do
    let (name, config) ← stepAttributes host none [] as
    match ← walkAll host children with
    | .suspended _ => throw (Cause.stepInStep.on s)
    | .done =>
      flush
      modify fun c => { c with stepConfig := some config }
      return .suspended [.response name s]
  | .scoped children s => do leave s (← walkAll host children)
  | .response name s => do
    respond name s
    return .done

/-- Walks nodes up to the end or to a step. -/
def walkAll (host : Host) : List Node → Compile Flow
  | [] => return .done
  | a :: rest => do proceed rest (walkAll host rest) (← walk host a)

/-- Walks the other branch of a block, if there is one. -/
def walkOption (host : Host) (s : Span) : Option (List Node) → Compile Flow
  | none => return .done
  | some nodes => inFrame s (walkAll host nodes)

end

/-- Walks a whole template. -/
def whole (host : Host) (f : Fragment) : Compile Flow := do
  let flow ← walkAll host f.children
  flush
  return flow

end Compile

/-- The result of a compilation. -/
structure Outcome where
  completed : Bool
  stash : Stash
  /-- What is left of the template. -/
  rest : Fragment
  /-- The messages of this compilation. -/
  messages : List Message
  /-- The config block, if this compilation came by it. -/
  config : Option Config
  stepConfig : Option Config

/-- The place of the first reference tag. -/
def Fragment.reference? (f : Fragment) : Option Span :=
  f.walk.findSome? fun
    | .reference _ s => some s
    | _ => none

/-- A computation that may call functions of the host, and records the calls even if it
fails. -/
abbrev Hosted (α : Type) := ExceptT Error (StateM (List Call)) α

/-- The outcome of a walk that went well. -/
def Compilation.outcome (c : Compilation) (f : Fragment) (flow : Flow) : Outcome :=
  let (completed, rest) := match flow with
    | .done => (true, [])
    | .suspended rest => (false, rest)
  ⟨completed, c.world.scope.stash, ⟨rest, f.span⟩, c.messages, c.config, c.stepConfig⟩

/-- Compiles a template in a scope. Errors are located in the text that the template was
read from; a template with reference tags is refused. -/
def Fragment.compile (host : Host) (source : String) (f : Fragment) (scope : Scope)
    (response : Option (List Part)) : Hosted Outcome := do
  match f.reference? with
  | some s => throw ((Cause.unresolvedReference.on s).locate source.toList)
  | none =>
    let (result, c) := (Compile.whole host f).run (Compilation.start ⟨scope, ← get⟩ response)
    set c.world.calls
    match result with
    | .ok flow => return c.outcome f flow
    | .error e => throw (e.locate source.toList)

end PromptTemplate
