import PromptTemplate.Compilation

/-!
# The events of a compilation

What a compilation does is told as a sequence of events: the texts that it emits, the tags
that it opens and closes, the step that it stops at and the response that it goes on with.
The walk here has variables, but no place for texts and messages. So its events are those of
the nodes that it comes to, one after another.

A sequence of events says where every text belongs: to a run of texts outside of messages, to
a run of texts of a message outside of its content tags, or to a content tag.
-/

namespace PromptTemplate

inductive Event where
  | text (s : String)
  | openMessage (role : Role) (toolId : Option String)
  | closeMessage
  | openContent
  | closeContent (kind : ContentKind)
  /-- The stop at a step. -/
  | step
  /-- The response to the step that the last compilation stopped at. -/
  | response (parts : List Part)

/-- The variables of a compilation, the response that has not been used, and the events. -/
structure Performance where
  world : World
  response : Option (List Part)
  events : List Event

abbrev Perform (α : Type) := ExceptT Error (StateM Performance) α

namespace Perform

open Compile (evaluate roleOf toolIdOf stepAttributes)

/-- An evaluation. No text is there and no message, and none is made. -/
def act {α : Type} (p : Compile α) : Perform α := do
  let s ← get
  let (result, c) := p.run (Compilation.start s.world none)
  set { s with world := c.world }
  ofExcept result

def changeScope (f : Scope → Scope) : Perform Unit :=
  modify fun s => { s with world := { s.world with scope := f s.world.scope } }

def log (e : Event) : Perform Unit := modify fun s => { s with events := s.events ++ [e] }

/-- Goes on with the response under a name, if there is one. -/
def respond (name : Option String) (s : Span) : Perform Unit := do
  match (← get).response with
  | none => throw (Cause.missingResponse.on s)
  | some ps =>
    modify fun p => { p with response := none }
    log (.response ps)
    match name with
    | some name => changeScope (·.set name (.string (Part.lines ps)))
    | none => return ()

def leave (s : Span) : Flow → Perform Flow
  | .done => do
    changeScope Scope.pop
    return .done
  | .suspended rest => return .suspended [.scoped rest s]

def proceed (rest : List Node) (next : Perform Flow) : Flow → Perform Flow
  | .done => next
  | .suspended left => return .suspended (left ++ rest)

def inFrame (s : Span) (body : Perform Flow) : Perform Flow := do
  changeScope (·.push)
  leave s (← body)

def forItems (context : String) (index : Option String) (s : Span) (body : Perform Flow) :
    Nat → List Value → Perform Unit
  | _, [] => return ()
  | i, v :: rest => do
    changeScope (·.pushItem context index i v)
    match ← body with
    | .suspended _ => throw (Cause.stepInEach.on s)
    | .done =>
      changeScope Scope.pop
      forItems context index s body (i + 1) rest

mutual

def walk (host : Host) : Node → Perform Flow
  | .text data _ => do
    log (.text data)
    return .done
  | .config .. | .comment .. => return .done
  | .mustache e _ => do
    let v ← act (evaluate host e)
    if !e.isAssignment then log (.text v.output)
    return .done
  | .ifBlock e consequent alternate s => do
    if (← act (evaluate host e)).isTruthy then inFrame s (walkAll host consequent)
    else walkOption host s alternate
  | .eachBlock e context index body alternate s => do
    let items := (← act (evaluate host e)).iterated
    if items.isEmpty then
      match ← walkOption host s alternate with
      | .suspended _ => throw (Cause.stepInEach.on s)
      | .done => return .done
    else
      forItems context index s (walkAll host body) 0 items
      return .done
  | .message role as children s => do
    let role ← act (roleOf host role as s)
    let toolId ← act (toolIdOf host as)
    log (.openMessage role toolId)
    let _ ← walkAll host children
    log .closeMessage
    return .done
  | .content kind _ children _ => do
    log .openContent
    let _ ← walkAll host children
    log (.closeContent kind)
    return .done
  | .reference _ s => throw (Cause.unresolvedReference.on s)
  | .step as children s => do
    let (name, _) ← act (stepAttributes host none [] as)
    match ← walkAll host children with
    | .suspended _ => throw (Cause.stepInStep.on s)
    | .done =>
      log .step
      return .suspended [.response name s]
  | .scoped children s => do leave s (← walkAll host children)
  | .response name s => do
    respond name s
    return .done

def walkAll (host : Host) : List Node → Perform Flow
  | [] => return .done
  | a :: rest => do proceed rest (walkAll host rest) (← walk host a)

def walkOption (host : Host) (s : Span) : Option (List Node) → Perform Flow
  | none => return .done
  | some nodes => inFrame s (walkAll host nodes)

end

end Perform

/-! ## Where the texts belong -/

/-- Texts cut by marks: each mark with the run of texts before it, and the run of texts after
the last mark. -/
structure Cut (β : Type) where
  before : List (List String × β)
  last : List String

namespace Cut

variable {β γ : Type}

def empty : Cut β := ⟨[], []⟩

/-- One more text at the end. -/
def add (c : Cut β) (s : String) : Cut β := { c with last := c.last ++ [s] }

/-- One more mark at the end. -/
def mark (c : Cut β) (b : β) : Cut β := ⟨c.before ++ [(c.last, b)], []⟩

/-- What is made of the marks and of the runs before them, in order. -/
def settled (run : List String → List γ) (made : β → List γ) (c : Cut β) : List γ :=
  c.before.flatMap fun (texts, b) => run texts ++ made b

/-- What is made of all runs and marks, in order. -/
def all (run : List String → List γ) (made : β → List γ) (c : Cut β) : List γ :=
  c.settled run made ++ run c.last

/-- What is made of a run without the blanks at its ends, unless it is blank. -/
def unlessBlank (make : String → γ) (texts : List String) : List γ :=
  let s := Text.trimmed (String.join texts)
  if s.isEmpty then [] else [make s]

theorem settled_mark (run : List String → List γ) (made : β → List γ) (c : Cut β) (b : β) :
    (c.mark b).settled run made = c.all run made ++ made b := by
  simp [settled, all, mark]

theorem all_mark {run : List String → List γ} (h : run [] = []) (made : β → List γ) (c : Cut β)
    (b : β) : (c.mark b).all run made = c.all run made ++ made b := by
  rw [all, settled_mark]
  simp [mark, h]

@[simp] theorem settled_add (run : List String → List γ) (made : β → List γ) (c : Cut β)
    (s : String) : (c.add s).settled run made = c.settled run made := rfl

theorem join_add (c : Cut β) (s : String) :
    String.join (c.add s).last = String.join c.last ++ s := by
  simp [add, String.join_append]

end Cut

/-- The events of a run of texts. -/
def Event.ofTexts (texts : List String) : List Event := texts.map .text

theorem Event.all_add {β : Type} (made : β → List Event) (c : Cut β) (s : String) :
    (c.add s).all Event.ofTexts made = c.all Event.ofTexts made ++ [.text s] := by
  simp [Cut.all, Cut.add, Cut.settled, Event.ofTexts]

/-- The part that the texts in a content tag are, without the blanks at their ends. -/
def ContentKind.part (texts : List String) : ContentKind → Part
  | .text => .text (Text.trimmed (String.join texts))
  | .image => .image (Text.trimmed (String.join texts))

/-- The texts of a message, cut by its content tags with the texts inside them. -/
abbrev Body := Cut (ContentKind × List String)

namespace Body

def events : Body → List Event :=
  Cut.all Event.ofTexts fun (kind, inside) =>
    .openContent :: Event.ofTexts inside ++ [.closeContent kind]

def parts : Body → List Part :=
  Cut.all (Cut.unlessBlank Part.text) fun (kind, inside) => [kind.part inside]

end Body

/-- What ends a run of texts outside of messages. -/
inductive Boundary where
  | message (role : Role) (toolId : Option String) (body : Body)
  | step
  | response (parts : List Part)

namespace Boundary

def events : Boundary → List Event
  | .message role toolId body => .openMessage role toolId :: body.events ++ [.closeMessage]
  | .step => [.step]
  | .response ps => [.response ps]

def messages : Boundary → List Message
  | .message role toolId body => [Message.ofParts role body.parts toolId]
  | .step => []
  | .response ps => [Message.ofParts .assistant ps none]

end Boundary

/-- The texts outside of messages, cut by the messages, the stop and the response. -/
abbrev Course := Cut Boundary

namespace Course

def events : Course → List Event := Cut.all Event.ofTexts Boundary.events

def messages : Course → List Message :=
  Cut.all (Cut.unlessBlank (Message.ofText .system)) Boundary.messages

end Course

/-! ## The events tell the course -/

namespace Event

/-- No run of texts goes on. -/
def EndsRun (es : List Event) : Prop := ∀ s, es.head? ≠ some (.text s)

theorem endsRun_nil : EndsRun [] := by
  intro s h
  cases h

theorem endsRun_cons {e : Event} (h : ∀ s, e ≠ .text s) (es : List Event) :
    EndsRun (e :: es) := by
  intro s hs
  exact h s (Option.some.inj hs)

/-- A run of texts is as long as texts follow each other. -/
theorem ofTexts_inj {texts texts' : List String} {es es' : List Event} (h : EndsRun es)
    (h' : EndsRun es') (same : ofTexts texts ++ es = ofTexts texts' ++ es') :
    texts = texts' ∧ es = es' := by
  induction texts generalizing texts' with
  | nil =>
    cases texts' with
    | nil => exact ⟨rfl, same⟩
    | cons s rest =>
      have first : es.head? = some (.text s) := congrArg List.head? same
      exact absurd first (h s)
  | cons s rest ih =>
    cases texts' with
    | nil =>
      have first : some (.text s) = es'.head? := congrArg List.head? same
      exact absurd first.symm (h' s)
    | cons s' rest' =>
      obtain ⟨hs, hrest⟩ := List.cons.inj same
      obtain ⟨rfl, rfl⟩ := ih hrest
      exact ⟨by rw [Event.text.inj hs], rfl⟩

end Event

namespace Cut

variable {β : Type} {made : β → List Event}

/-- The events of marks end the runs before them, and the mark can be told from them. -/
structure Telling (made : β → List Event) : Prop where
  endsRun (b : β) (es : List Event) : Event.EndsRun (made b ++ es)
  inj {b b' : β} {es es' : List Event} (same : made b ++ es = made b' ++ es') : b = b' ∧ es = es'

theorem all_cons (made : β → List Event) (texts : List String) (b : β)
    (before : List (List String × β)) (last : List String) :
    (⟨(texts, b) :: before, last⟩ : Cut β).all Event.ofTexts made =
      Event.ofTexts texts ++ (made b ++ (⟨before, last⟩ : Cut β).all Event.ofTexts made) := by
  simp [all, settled]

theorem all_last (made : β → List Event) (last : List String) :
    (⟨[], last⟩ : Cut β).all Event.ofTexts made = Event.ofTexts last := rfl

/-- Texts and marks can be told from their events, up to events that are of neither. -/
theorem all_inj (h : Telling made) {c c' : Cut β} {es es' : List Event}
    (ends : Event.EndsRun es) (ends' : Event.EndsRun es') (apart : ∀ b more, made b ++ more ≠ es)
    (apart' : ∀ b more, made b ++ more ≠ es')
    (same : c.all Event.ofTexts made ++ es = c'.all Event.ofTexts made ++ es') :
    c = c' ∧ es = es' := by
  obtain ⟨before, last⟩ := c
  obtain ⟨before', last'⟩ := c'
  induction before generalizing before' with
  | nil =>
    cases before' with
    | nil =>
      rw [all_last, all_last] at same
      obtain ⟨rfl, rfl⟩ := Event.ofTexts_inj ends ends' same
      exact ⟨rfl, rfl⟩
    | cons p rest' =>
      rw [all_last, all_cons, List.append_assoc, List.append_assoc] at same
      obtain ⟨-, marked⟩ := Event.ofTexts_inj ends (h.endsRun _ _) same
      exact absurd marked.symm (apart _ _)
  | cons p rest ih =>
    cases before' with
    | nil =>
      rw [all_last, all_cons, List.append_assoc, List.append_assoc] at same
      obtain ⟨-, marked⟩ := Event.ofTexts_inj (h.endsRun _ _) ends' same
      exact absurd marked (apart' _ _)
    | cons p' rest' =>
      obtain ⟨texts, b⟩ := p
      obtain ⟨texts', b'⟩ := p'
      simp only [all_cons, List.append_assoc] at same
      obtain ⟨rfl, marked⟩ := Event.ofTexts_inj (h.endsRun _ _) (h.endsRun _ _) same
      obtain ⟨rfl, more⟩ := h.inj marked
      obtain ⟨hrest, hes⟩ := ih _ more
      cases hrest
      exact ⟨rfl, hes⟩

end Cut

theorem Body.telling : Cut.Telling fun (p : ContentKind × List String) =>
    .openContent :: Event.ofTexts p.2 ++ [.closeContent p.1] where
  endsRun _ _ := Event.endsRun_cons (fun _ h => Event.noConfusion h) _
  inj := by
    rintro ⟨kind, inside⟩ ⟨kind', inside'⟩ es es' same
    simp only [List.cons_append, List.append_assoc, List.cons.injEq, true_and] at same
    have closes : ∀ kind es, Event.EndsRun (.closeContent kind :: es) :=
      fun kind es => Event.endsRun_cons (fun _ h => Event.noConfusion h) es
    obtain ⟨rfl, closed⟩ := Event.ofTexts_inj (closes _ _) (closes _ _) same
    cases closed
    exact ⟨rfl, rfl⟩

theorem Boundary.telling : Cut.Telling Boundary.events where
  endsRun b es := by
    cases b <;> exact Event.endsRun_cons (fun _ h => Event.noConfusion h) _
  inj := by
    intro b b' es es' same
    cases b with
    | message role toolId body =>
      cases b' with
      | message role' toolId' body' =>
        simp only [Boundary.events, List.cons_append, List.append_assoc, List.cons.injEq] at same
        obtain ⟨opened, inside⟩ := same
        cases opened
        have closes : ∀ es, Event.EndsRun (.closeMessage :: es) :=
          fun es => Event.endsRun_cons (fun _ h => Event.noConfusion h) es
        have apart : ∀ es (p : ContentKind × List String) more,
            (.openContent :: Event.ofTexts p.2 ++ [.closeContent p.1]) ++ more ≠
              .closeMessage :: es := by
          intro es p more h
          cases h
        obtain ⟨rfl, closed⟩ := Cut.all_inj Body.telling (closes _) (closes _) (apart _) (apart _)
          inside
        cases closed
        exact ⟨rfl, rfl⟩
      | step => cases same
      | response ps => cases same
    | step =>
      cases b' <;> cases same
      exact ⟨rfl, rfl⟩
    | response ps =>
      cases b' <;> cases same
      exact ⟨rfl, rfl⟩

/-- Every text has one place in a course, and its events tell which. -/
theorem Course.events_inj {c c' : Course} (h : c.events = c'.events) : c = c' := by
  have apart : ∀ b more, Boundary.events b ++ more ≠ [] := by
    intro b more
    cases b <;> exact List.cons_ne_nil _ _
  have same : c.events ++ [] = c'.events ++ [] := congrArg (· ++ []) h
  exact (Cut.all_inj Boundary.telling Event.endsRun_nil Event.endsRun_nil apart apart same).1

end PromptTemplate
