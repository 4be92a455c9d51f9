import PromptTemplate.Expr.Evaluation
import PromptTemplate.Proofs.Run

/-!
# The record of calls

Calls of functions of the host are recorded and the record is never looked at: in worlds
with the same scope an evaluation comes to the same result and to the same scope, whatever
has been called before.
-/

namespace PromptTemplate

/-- Worlds that differ only in the record of calls. -/
def World.SameScope (w u : World) : Prop := u.scope = w.scope

namespace Eval

/-- A computation that does not look at the record of calls. -/
def Unaware {α : Type} (p : Eval α) : Prop := Respects World.SameScope p

variable {α : Type}

theorem unaware_placed (s : Span) (r : Except Cause α) : Unaware (placed s r) := by
  cases r with
  | ok a => exact .pure a
  | error c => exact .throw _

/-- What is done with the scope is the same in the same scope. -/
theorem unaware_scope {f : Scope → Eval α} (h : ∀ s, Unaware (f s)) :
    Unaware (Eval.scope >>= f) := by
  intro w u hwu
  change ((f u.scope).run u).1 = ((f w.scope).run w).1 ∧
    World.SameScope ((f w.scope).run w).2 ((f u.scope).run u).2
  rw [show u.scope = w.scope from hwu]
  exact h w.scope w u hwu

theorem unaware_lookup (name : String) (s : Span) : Unaware (lookup name s) := by
  refine unaware_scope fun scope => ?_
  cases scope.get? name with
  | some v => exact .pure v
  | none => exact .throw _

theorem unaware_store (name : String) (v : Value) : Unaware (store name v) :=
  .modify fun h => congrArg (fun scope : Scope => scope.set name v) h

theorem unaware_invoke (host : Host) (f : Callable) (arguments : List Value) (s : Span) :
    Unaware (invoke host f arguments s) := by
  refine .bind (.modify fun h => h) fun _ => ?_
  cases host f arguments with
  | ok v => exact .pure v
  | error problem => exact .throw _

theorem unaware_settled {chain : Eval (Option Value)} (h : Unaware chain) :
    Unaware (settled chain) := .bind h fun _ => .pure _

end Eval

namespace Expr

open Eval

mutual

theorem unaware_link (host : Host) : ∀ e : Expr, Unaware (link host e)
  | .literal .. => by
    rw [link]
    exact .pure _
  | .identifier name s => by
    rw [link]
    exact .bind (unaware_lookup name s) fun _ => .pure _
  | .array items _ => by
    rw [link]
    exact .bind (unaware_values host items) fun _ => .pure _
  | .object properties _ => by
    rw [link]
    exact .bind (unaware_members host properties []) fun _ => .pure _
  | .member base key optional s => by
    rw [link]
    refine .bind (unaware_link host base) ?_
    rintro (_ | target)
    · exact .pure _
    · refine .ite (.pure _) (.bind (unaware_keyName host key) fun name => ?_)
      exact .bind (unaware_placed s _) fun _ => .pure _
  | .call callee arguments optional s => by
    rw [link]
    refine .bind (unaware_link host callee) ?_
    rintro (_ | target)
    · exact .pure _
    · refine .ite (.pure _) ?_
      have refused : Unaware (throw ((Cause.notAFunction callee.describe).on s) :
          Eval (Option Value)) := .throw _
      cases target with
      | function f =>
        refine .bind (unaware_values host arguments) fun vs => ?_
        exact .bind (unaware_invoke host f vs s) fun _ => .pure _
      | _ => exact refused
  | .unary op argument _ => by
    have plain : Unaware (do
        let v ← settled (link host argument)
        return some (Value.unary op v)) :=
      .bind (unaware_settled (unaware_link host argument)) fun _ => .pure _
    by_cases named : ∃ name place, op = .typeof ∧ argument = .identifier name place
    · obtain ⟨name, place, rfl, rfl⟩ := named
      rw [link]
      exact .bind (unaware_scope fun _ => .pure _) fun _ => .ite (.pure _) plain
    · rw [link]
      · exact .bind (.pure _) fun _ => .ite (.pure _) plain
      · intro name place hop hargument
        exact named ⟨name, place, hop, hargument⟩
  | .binary op left right s => by
    rw [link]
    refine .bind (unaware_settled (unaware_link host left)) fun l => ?_
    refine .bind (unaware_settled (unaware_link host right)) fun r => ?_
    exact .bind (unaware_placed s _) fun _ => .pure _
  | .logical op left right _ => by
    rw [link]
    refine .bind (unaware_settled (unaware_link host left)) fun l => .ite (.pure _) ?_
    exact .bind (unaware_settled (unaware_link host right)) fun _ => .pure _
  | .conditional test consequent alternate _ => by
    rw [link]
    refine .bind (unaware_settled (unaware_link host test)) fun t => .ite ?_ ?_
    · exact .bind (unaware_settled (unaware_link host consequent)) fun _ => .pure _
    · exact .bind (unaware_settled (unaware_link host alternate)) fun _ => .pure _
  | .assign op target value s => by
    have operand := unaware_settled (unaware_link host value)
    by_cases plain : ∃ name place, target = .identifier name place
    · obtain ⟨name, place, rfl⟩ := plain
      rw [link]
      have finish : ∀ v, Unaware (do store name v; return some v) :=
        fun v => .bind (unaware_store name v) fun _ => .pure _
      cases op.binary? with
      | none => exact .bind operand finish
      | some op =>
        refine .bind (unaware_lookup name place) fun old => .bind operand fun v => ?_
        exact .bind (unaware_placed s _) finish
    · rw [link]
      · refine .bind (unaware_path host target.span target) ?_
        rintro ⟨root, steps⟩
        refine .bind (unaware_lookup root target.span) fun before => ?_
        have finish : ∀ result, Unaware (do
            let after ← lookup root target.span
            store root (← ofExcept (after.writePath steps result))
            return some result) := by
          intro result
          refine .bind (unaware_lookup root target.span) fun after => ?_
          refine .bind (.ofExcept (after.writePath steps result)) fun changed => ?_
          exact .bind (unaware_store root changed) fun _ => .pure _
        cases op.binary? with
        | none => exact .bind operand finish
        | some op =>
          refine .bind (.ofExcept (before.readPath steps)) fun old => .bind operand fun v => ?_
          exact .bind (unaware_placed s _) finish
      · intro name place htarget
        exact plain ⟨name, place, htarget⟩
  | .update op before argument s => by
    by_cases plain : ∃ name place, argument = .identifier name place
    · obtain ⟨name, place, rfl⟩ := plain
      rw [link]
      refine .bind (unaware_lookup name place) fun v => .bind (unaware_placed s _) fun old => ?_
      exact .bind (unaware_store name _) fun _ => .pure _
    · rw [link]
      · refine .bind (unaware_path host argument.span argument) ?_
        rintro ⟨root, steps⟩
        refine .bind (unaware_lookup root argument.span) fun whole => ?_
        refine .bind (.ofExcept (whole.readPath steps)) fun v => ?_
        refine .bind (unaware_placed s _) fun old => .bind (.ofExcept _) fun changed => ?_
        exact .bind (unaware_store root changed) fun _ => .pure _
      · intro name place hargument
        exact plain ⟨name, place, hargument⟩

theorem unaware_values (host : Host) : ∀ es : List Expr, Unaware (values host es)
  | [] => by
    rw [values]
    exact .pure _
  | e :: rest => by
    rw [values]
    refine .bind (unaware_settled (unaware_link host e)) fun v => ?_
    exact .bind (unaware_values host rest) fun _ => .pure _

theorem unaware_members (host : Host) : ∀ (ps : List Property) (done : Dictionary Value),
    Unaware (members host ps done)
  | [], _ => by
    rw [members]
    exact .pure _
  | .mk key value :: rest, done => by
    rw [members]
    refine .bind (unaware_keyName host key) fun name => ?_
    refine .bind (unaware_settled (unaware_link host value)) fun v => ?_
    exact unaware_members host rest _

theorem unaware_keyName (host : Host) : ∀ key : Key, Unaware (keyName host key)
  | .named _ => by
    rw [keyName]
    exact .pure _
  | .computed e => by
    rw [keyName]
    exact .bind (unaware_settled (unaware_link host e)) fun _ => .pure _

theorem unaware_path (host : Host) (whole : Span) : ∀ e : Expr, Unaware (path host whole e)
  | .identifier name _ => by
    rw [path]
    exact .pure _
  | .member base key false s => by
    rw [path]
    refine .bind (unaware_path host whole base) fun root => ?_
    exact .bind (unaware_keyName host key) fun name => .pure _
  | .member _ _ true _ | .literal .. | .array .. | .object .. | .call .. | .unary .. | .binary ..
  | .logical .. | .conditional .. | .assign .. | .update .. => .throw _

end

/-- An evaluation comes to the same whatever has been called before. -/
theorem unaware_evaluate (host : Host) (e : Expr) : Unaware (evaluate host e) :=
  unaware_settled (unaware_link host e)

end Expr

end PromptTemplate
