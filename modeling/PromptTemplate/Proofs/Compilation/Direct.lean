import PromptTemplate.Compilation
import PromptTemplate.Proofs.Run

/-!
# Walks that do not stop at steps

A direct walk is given all responses at once. At a step it puts the next response into the
conversation and goes on with the nodes after it, in the frames that are open. A walk that
stops, and is resumed with the next response, comes to the same.
-/

namespace PromptTemplate

/-- Why a direct walk does not come to its end. -/
inductive Halt where
  | failed (e : Error)
  /-- No response is left for a step. -/
  | starved

/-- A compilation with the responses that are still to come. -/
structure Dialogue where
  compilation : Compilation
  responses : List (List Part)

abbrev Direct (α : Type) := ExceptT Halt (StateM Dialogue) α

namespace Direct

open Compile

/-- An action of compilations, which is the same in a direct walk. -/
def perform {α : Type} (p : Compile α) : Direct α := do
  let s ← get
  let (result, c) := p.run s.compilation
  set { s with compilation := c }
  match result with
  | .ok a => return a
  | .error e => throw (.failed e)

/-- Puts a response into the conversation and under a name, if there is one. -/
def say (ps : List Part) (name : Option String) : Compile Unit := do
  modify fun c => { c with messages := c.messages ++ [Message.ofParts .assistant ps none] }
  match name with
  | some name => changeScope (·.set name (.string (Part.lines ps)))
  | none => return ()

/-- Takes the next response. -/
def answer (name : Option String) : Direct Unit := do
  match (← get).responses with
  | [] => throw .starved
  | ps :: rest =>
    modify fun s => { s with responses := rest }
    perform (say ps name)

/-- Walks the body of a block in a frame of its own. -/
def inFrame (body : Direct Unit) : Direct Unit := do
  perform (changeScope (·.push))
  body
  perform closeFrame

/-- Walks the body of an each block once for every item, in a frame of its own. -/
def forItems (context : String) (index : Option String) (body : Direct Unit) :
    Nat → List Value → Direct Unit
  | _, [] => return ()
  | i, v :: rest => do
    perform (changeScope (·.pushItem context index i v))
    body
    perform closeFrame
    forItems context index body (i + 1) rest

mutual

/-- Walks a node to its end. The last two kinds of nodes are not in templates as they are
written; in what a walk has left they stand for an open frame and for a response. -/
def walk (host : Host) : Node → Direct Unit
  | .text data _ => perform (emit data)
  | .config value _ => perform (modify fun c => { c with config := c.config <|> some value })
  | .comment .. => return ()
  | .mustache e _ => perform do
    let v ← evaluate host e
    if !e.isAssignment then emit v.output
  | .ifBlock e consequent alternate _ => do
    if (← perform (evaluate host e)).isTruthy then inFrame (walkAll host consequent)
    else walkOption host alternate
  | .eachBlock e context index body alternate _ => do
    let items := (← perform (evaluate host e)).iterated
    if items.isEmpty then walkOption host alternate
    else forItems context index (walkAll host body) 0 items
  | .message role as children s => do
    perform (openMessage host role as s)
    walkAll host children
    perform closeMessage
  | .content kind _ children s => do
    perform (openContent kind s)
    walkAll host children
    perform (closeContent kind)
  | .reference _ s => throw (.failed (Cause.unresolvedReference.on s))
  | .step as children _ => do
    let (name, _) ← perform (stepAttributes host none [] as)
    walkAll host children
    perform flush
    answer name
  | .scoped children _ => do
    walkAll host children
    perform closeFrame
  | .response name _ => answer name

def walkAll (host : Host) : List Node → Direct Unit
  | [] => return ()
  | a :: rest => do
    walk host a
    walkAll host rest

def walkOption (host : Host) : Option (List Node) → Direct Unit
  | none => return ()
  | some nodes => inFrame (walkAll host nodes)

end

/-- Walks a whole template. -/
def whole (host : Host) (nodes : List Node) : Direct Unit := do
  walkAll host nodes
  perform flush

theorem run_perform {α : Type} (p : Compile α) (c : Compilation) (left : List (List Part)) :
    (perform p).run ⟨c, left⟩ =
      match p.run c with
      | (.ok a, d) => (.ok a, ⟨d, left⟩)
      | (.error e, d) => (.error (.failed e), ⟨d, left⟩) := by
  rcases hrun : p.run c with ⟨_ | _, d⟩ <;>
  · simp only [perform, run_bind, run_get, hrun, run_set]
    rfl

theorem walkAll_append (host : Host) (nodes more : List Node) :
    walkAll host (nodes ++ more) = walkAll host nodes >>= fun _ => walkAll host more := by
  induction nodes with
  | nil => simp [walkAll]
  | cons a rest ih => simp [walkAll, ih]

end Direct

end PromptTemplate
