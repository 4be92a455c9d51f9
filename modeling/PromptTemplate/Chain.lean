import PromptTemplate.Compilation
import PromptTemplate.Template.Parser

/-!
# Chains

A chain compiles a template step by step. The first step takes no response, every later
one takes the response to the step before it. The messages of all steps add up, and the
settings of a step tag hold for that step alone. A step that fails leaves the chain as it
was.
-/

namespace PromptTemplate

inductive ChainState where
  | notStarted
  | running
  | completed
deriving DecidableEq, Repr

inductive ChainFault where
  | responseBeforeStart
  | responseRequired
  | alreadyCompleted
  | multiStep
  | compile (e : Error)

namespace ChainFault

def message : ChainFault → String
  | .responseBeforeStart => "A response is not allowed before the chain has started"
  | .responseRequired => "A response is required to continue a chain"
  | .alreadyCompleted => "The chain has already completed"
  | .multiStep => "Use a Chain to render prompts with multiple steps"
  | .compile e => e.message

end ChainFault

structure Chain where
  source : String
  /-- What is left to compile. -/
  rest : Fragment
  scope : Scope
  messages : List Message
  config : Config
  state : ChainState

/-- The conversation after a step. -/
structure ChainStep where
  conversation : Conversation
  completed : Bool

namespace Chain

/-- A chain over a text, with some parameters in its scope. -/
def start (source : String) (parameters : List (String × Value)) : Except Error Chain :=
  (Fragment.ofText source).map fun f =>
    ⟨source, f, Scope.ofParameters parameters, [], [], .notStarted⟩

/-- What speaks against a step with or without a response. -/
def objection? (c : Chain) (response : Option (List Part)) : Option ChainFault :=
  match c.state, response with
  | .completed, _ => some .alreadyCompleted
  | .notStarted, some _ => some .responseBeforeStart
  | .running, none => some .responseRequired
  | _, _ => none

/-- The chain after a compilation. -/
def after (c : Chain) (o : Outcome) : Chain :=
  { c with
    rest := o.rest
    scope := Scope.ofStash o.stash
    messages := c.messages ++ o.messages
    config := o.config.getD c.config
    state := if o.completed then .completed else .running }

/-- Compiles up to the next step, and returns the chain to go on with. -/
def step (host : Host) (c : Chain) (response : Option (List Part)) :
    StateM (List Call) (Except ChainFault ChainStep × Chain) := do
  match c.objection? response with
  | some fault => return (.error fault, c)
  | none =>
    match ← (c.rest.compile host c.source c.scope response).run with
    | .error e => return (.error (.compile e), c)
    | .ok o =>
      let next := c.after o
      let config := Dictionary.overlay next.config (o.stepConfig.getD [])
      return (.ok ⟨⟨config, next.messages⟩, o.completed⟩, next)

end Chain

/-- The conversation of a template without steps. -/
def render (host : Host) (source : String) (parameters : List (String × Value)) :
    StateM (List Call) (Except ChainFault Conversation) := do
  match Chain.start source parameters with
  | .error e => return .error (.compile e)
  | .ok c =>
    let (result, _) ← c.step host none
    match result with
    | .error fault => return .error fault
    | .ok s => if s.completed then return .ok s.conversation else return .error .multiStep

end PromptTemplate
