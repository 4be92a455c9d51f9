import PromptTemplate.Proofs.Compilation.Actions
import PromptTemplate.Proofs.Compilation.Direct
import PromptTemplate.Proofs.Expr.Recording

/-!
# Actions that do not look at earlier messages

Two compilations are alike if they stand at the same place and differ only in messages
that one of them had before, in the record of calls, and in what concerns single calls of a
chain. Every action does the same to both.
-/

namespace PromptTemplate

namespace Compilation

/-- Two compilations at the same place, the second with the messages of both and of what
came before the first. -/
structure Alike (before : List Message) (c d : Compilation) : Prop where
  scope : d.world.scope = c.world.scope
  messages : d.messages = before ++ c.messages
  text : d.text = c.text
  draft : d.draft = c.draft

end Compilation

namespace Compile

open Compilation

/-- An action that does the same to compilations that are alike. -/
def Uniform {α : Type} (p : Compile α) : Prop :=
  ∀ before : List Message, Respects (Alike before) p

namespace Uniform

variable {α β : Type}

theorem pure (a : α) : Uniform (pure a) := fun _ => .pure a

theorem throw (e : Error) : Uniform (throw e : Compile α) := fun _ => .throw e

theorem modify {f : Compilation → Compilation}
    (h : ∀ {before c d}, Alike before c d → Alike before (f c) (f d)) :
    Uniform (modify f : Compile PUnit) := fun _ => .modify h

theorem bind {p : Compile α} {f : α → Compile β} (hp : Uniform p) (hf : ∀ a, Uniform (f a)) :
    Uniform (p >>= f) := fun before => .bind (hp before) fun a => hf a before

theorem bind_get {f : Compilation → Compile β}
    (hf : ∀ {before c d}, Alike before c d → f d = f c) (h : ∀ c, Uniform (f c)) :
    Uniform (get >>= f) := fun before => .bind_get hf fun c => h c before

theorem ite {P : Prop} [Decidable P] {p q : Compile α} (hp : Uniform p) (hq : Uniform q) :
    Uniform (if P then p else q) := fun before => .ite (hp before) (hq before)

end Uniform

theorem uniform_evaluate (host : Host) (e : Expr) : Uniform (evaluate host e) := by
  intro before c d h
  rw [run_evaluate, run_evaluate]
  obtain ⟨hresult, hscope⟩ := Expr.unaware_evaluate host e c.world d.world h.scope
  exact ⟨hresult, hscope, h.messages, h.text, h.draft⟩

theorem uniform_changeScope (f : Scope → Scope) : Uniform (changeScope f) :=
  .modify fun h => ⟨congrArg f h.scope, h.messages, h.text, h.draft⟩

theorem uniform_emit (s : String) : Uniform (emit s) := by
  refine .modify fun {before c d} h => ?_
  rw [h.draft]
  cases c.draft with
  | none => exact ⟨h.scope, h.messages, congrArg (· ++ s) h.text, rfl⟩
  | some draft => exact ⟨h.scope, h.messages, h.text, rfl⟩

theorem uniform_flush : Uniform flush := by
  refine .modify fun {before c d} h => ⟨h.scope, ?_, rfl, h.draft⟩
  simp only [h.text, h.messages]
  split
  · rfl
  · exact List.append_assoc ..

theorem evaluating_uniform (host : Host) : Evaluating host fun _ p => Uniform p where
  pure a := .pure a
  refuse _ _ := .throw _
  bind hp hf := .bind hp hf
  evaluate e := uniform_evaluate host e

theorem uniform_openMessage (host : Host) (role : Option Role) (as : List Attribute) (s : Span) :
    Uniform (openMessage host role as s) := by
  refine .bind_get (fun h => by rw [h.draft]) fun c => .ite (.throw _) ?_
  refine .bind uniform_flush fun _ => .bind ((evaluating_uniform host).roleOf role as s) fun role => ?_
  refine .bind ((evaluating_uniform host).toolIdOf as) fun id => .ite (.throw _) ?_
  exact .modify fun h => ⟨h.scope, h.messages, h.text, rfl⟩

theorem uniform_closeMessage : Uniform closeMessage := by
  refine .modify fun {before c d} h => ?_
  rw [h.draft]
  cases c.draft with
  | none => exact h
  | some draft =>
    exact ⟨h.scope, by simp [h.messages], h.text, rfl⟩

theorem uniform_openContent (kind : ContentKind) (s : Span) : Uniform (openContent kind s) := by
  refine .bind_get (fun h => by rw [h.draft]) fun c => ?_
  cases c.draft with
  | none => exact .throw _
  | some draft =>
    refine .ite (.throw _) (.ite (.throw _) ?_)
    exact .modify fun h => ⟨h.scope, h.messages, h.text, rfl⟩

theorem uniform_closeContent (kind : ContentKind) : Uniform (closeContent kind) :=
  .modify fun h =>
    ⟨h.scope, h.messages, h.text, congrArg (Option.map (·.closeContent kind)) h.draft⟩

theorem uniform_closeFrame : Uniform closeFrame :=
  .modify fun h => ⟨congrArg Scope.pop h.scope, h.messages, h.text, h.draft⟩

theorem uniform_say (ps : List Part) (name : Option String) : Uniform (Direct.say ps name) := by
  refine .bind (.modify fun h => ⟨h.scope, by simp [h.messages], h.text, h.draft⟩) fun _ => ?_
  cases name with
  | none => exact .pure _
  | some name => exact uniform_changeScope _

end Compile

end PromptTemplate
