import PromptTemplate.Proofs.Compilation.Closure
import PromptTemplate.Proofs.Compilation.Remainder
import PromptTemplate.Proofs.Expr.Recording

/-!
# Messages and recorded calls

A compilation only adds messages, and the first one that it adds to what was left is the
response to the step at which it goes on. Calls of functions of the host are recorded and
the record is never looked at.
-/

namespace PromptTemplate

namespace Compilation

/-- The second of two compilations has the messages of the first and others after them. -/
def Extends (c d : Compilation) : Prop := c.messages <+: d.messages

instance : IsPreorder Compilation Extends where
  refl c := List.prefix_refl c.messages
  trans _ _ _ h k := h.trans k

/-- The same compilation with another record of calls. -/
def recording (c : Compilation) (calls : List Call) : Compilation :=
  { c with world := { c.world with calls := calls } }

/-- Compilations that differ only in the record of calls. -/
def SameBesideCalls (c d : Compilation) : Prop := ∃ calls, d = c.recording calls

end Compilation

namespace Compile

open Compilation

variable {host : Host} {nodes : List Node} {c d : Compilation}

/-! ## Messages -/

theorem closed_extends (host : Host) :
    Closed host fun _ p => Keeps Extends (fun _ => True) p :=
  closed_keeps (fun c _ _ => List.prefix_refl c.messages) Change.messages_apply

theorem extends_walkAll (host : Host) (nodes : List Node) :
    Keeps Extends (fun _ => True) (walkAll host nodes) :=
  walking_walkAll (closed_extends host).walking
    (fun _ => .modify fun c => List.prefix_refl c.messages) nodes fun _ _ _ => .modify fun c => List.prefix_refl c.messages

theorem extends_proceed (host : Host) (nodes : List Node) (flow : Flow) :
    Keeps Extends (fun _ => True) (proceed nodes (walkAll host nodes) flow) := by
  cases flow with
  | done => exact extends_walkAll host nodes
  | suspended left => exact .pure _

/-- The response comes after the messages that are there. -/
theorem ends_respond_message (name : Option String) (s : Span) {ps : List Part}
    (h : c.response = some ps) :
    Ends (respond name s) c
      (fun _ d => d.messages = c.messages ++ [Message.ofParts .assistant ps none])
      (fun _ _ => True) := by
  rw [respond, ends_bind, ends_get, h]
  cases name with
  | none => exact rfl
  | some name => exact rfl

/-- A walk over what is left adds the response first. -/
theorem ends_answered (host : Host) {k : Nat} (h : Remainder k nodes) {ps : List Part}
    (hresponse : c.response = some ps) :
    Ends (walkAll host nodes) c
      (fun _ d => c.messages ++ [Message.ofParts .assistant ps none] <+: d.messages)
      (fun _ _ => True) := by
  induction h with
  | here name s hrest =>
    simp only [walkAll, walk, ends_bind]
    refine (ends_respond_message name s hresponse).imp (fun _ d hd => ?_) (fun _ _ h => h)
    refine (extends_walkAll host _ d).imp (fun _ e he => ?_) (fun _ _ _ => trivial)
    rw [← hd]
    exact he
  | inside _ s hrest ih =>
    simp only [walkAll, walk, ends_bind]
    refine ih.imp (fun flow d hd => ?_) (fun _ _ h => h)
    have left := (closed_extends host).walking.leave s flow d
    refine left.imp (fun flow e he => ?_) (fun _ _ _ => trivial)
    refine (extends_proceed host _ flow e).imp (fun _ f hf => ?_) (fun _ _ _ => trivial)
    exact (hd.trans he).trans hf

/-! ## Recorded calls -/

theorem apply_recording (k : Change) (c : Compilation) (calls : List Call) :
    k.apply (c.recording calls) = (k.apply c).recording calls := by
  cases k with
  | emit s | closeMessage => cases h : c.draft <;> simp [Change.apply, recording, h]
  | flush => cases h : (Text.trimmed c.text).isEmpty <;> simp [Change.apply, recording, h]
  | _ => rfl

/-- What an action does, it does with any record of calls. -/
theorem closed_sameBesideCalls (host : Host) :
    Closed host fun _ p => Respects SameBesideCalls p where
  pure a := .pure a
  refuse _ _ := .throw _
  throw e := .throw e
  bind hp hf := .bind hp hf
  look hlook hf := by
    refine .bind_get ?_ hf
    rintro c _ ⟨calls, rfl⟩
    exact hlook _ _ rfl rfl
  evaluate e := by
    rintro c _ ⟨calls, rfl⟩
    rw [run_evaluate, run_evaluate]
    obtain ⟨hresult, hscope⟩ := Expr.unaware_evaluate host e c.world (c.recording calls).world rfl
    refine ⟨hresult, ((Expr.evaluate host e).run (c.recording calls).world).2.calls, ?_⟩
    generalize ((Expr.evaluate host e).run c.world).2 = w at hscope ⊢
    generalize ((Expr.evaluate host e).run (c.recording calls).world).2 = w' at hscope ⊢
    obtain ⟨scope, _⟩ := w'
    cases hscope
    rfl
  change k := by
    refine .modify ?_
    rintro c _ ⟨calls, rfl⟩
    exact ⟨calls, apply_recording k c calls⟩

theorem whole_sameBesideCalls (host : Host) (f : Fragment) :
    Respects SameBesideCalls (whole host f) := by
  refine walking_whole (closed_sameBesideCalls host).walking (fun config => .modify ?_) f
    fun v s _ => .modify ?_
  · rintro c _ ⟨calls, rfl⟩
    exact ⟨calls, rfl⟩
  · rintro c _ ⟨calls, rfl⟩
    exact ⟨calls, rfl⟩

end Compile

end PromptTemplate
