import PromptTemplate.Expr.Evaluation
import PromptTemplate.Proofs.Run
import PromptTemplate.Proofs.Value.Paths

/-!
# Storing along paths

An assignment finds the path of its target and then the value to store; an update has both
from its target. The write is the last thing that can fail, and it changes a copy of what
the variable holds, so that a write that fails leaves everything as it was before it.
-/

namespace PromptTemplate

namespace Eval

variable {w : World}

theorem run_lookup_eq (name : String) (s : Span) (w : World) :
    (lookup name s).run w =
      match w.scope.get? name with
      | some v => (.ok v, w)
      | none => (.error ((Cause.undeclared name).on s), w) := by
  have parts : lookup name s = scope >>= fun t => match t.get? name with
    | some v => return v
    | none => throw ((Cause.undeclared name).on s) := rfl
  have here : scope.run w = (.ok w.scope, w) := rfl
  rw [parts, run_bind_ok here]
  cases w.scope.get? name <;> rfl

theorem run_lookup {name : String} {v : Value} (found : w.scope.get? name = some v) (s : Span) :
    (lookup name s).run w = (.ok v, w) := by
  rw [run_lookup_eq, found]

theorem run_lookup_none {name : String} (missing : w.scope.get? name = none) (s : Span) :
    (lookup name s).run w = (.error ((Cause.undeclared name).on s), w) := by
  rw [run_lookup_eq, missing]

theorem run_ofExcept {α : Type} (r : Except Error α) (w : World) :
    (ofExcept r : Eval α).run w = (r, w) := by
  cases r <;> rfl

theorem run_placed {α : Type} {r : Except Cause α} {a : α} (h : r = .ok a) (s : Span) (w : World) :
    (placed s r).run w = (.ok a, w) := by
  rw [h]
  rfl

theorem run_settled (chain : Eval (Option Value)) (w : World) :
    (settled chain).run w = ((chain.run w).1.map fun o => o.getD .undefined, (chain.run w).2) := by
  rw [settled, run_bind]
  rcases chain.run w with ⟨_ | _, u⟩ <;> rfl

end Eval

namespace Expr

open Eval

/-- A target is a variable or something else. -/
theorem identifier_or (target : Expr) : (∃ name place, target = .identifier name place) ∨
    ∀ name place, target ≠ .identifier name place := by
  cases target with
  | identifier name place => exact .inl ⟨name, place, rfl⟩
  | _ =>
    right
    intro name place heq
    cases heq

/-- Whether an operator asks for the kind of a variable that is not there. -/
def asksUndeclared (op : UnaryOp) (argument : Expr) : Eval Bool := do
  match op, argument with
  | .typeof, .identifier name _ => return !(← scope).contains name
  | _, _ => return false

theorem link_unary (host : Host) (op : UnaryOp) (argument : Expr) (s : Span) :
    link host (.unary op argument s) = (do
      if ← asksUndeclared op argument then return some (.string "undefined")
      else
        let v ← settled (link host argument)
        return some (Value.unary op v)) := by
  by_cases named : ∃ name place, op = .typeof ∧ argument = .identifier name place
  · obtain ⟨name, place, rfl, rfl⟩ := named
    rw [link]
    rfl
  · have other : ∀ name place, op = .typeof → argument = .identifier name place → False :=
      fun name place hop hargument => named ⟨name, place, hop, hargument⟩
    rw [link]
    · rw [asksUndeclared]
      exact other
    · exact other

/-- What an assignment is about to store: the value on its right, or the result of its
operator on the old value and it. -/
def outcome (host : Host) (op : AssignOp) (old : Eval Value) (value : Expr) (s : Span) :
    Eval Value :=
  match op.binary? with
  | none => settled (link host value)
  | some op => do
    let old ← old
    let v ← settled (link host value)
    placed s (Value.binary op old v)

/-- The last part of an assignment to a path. -/
def finish (name : String) (s : Span) (steps : List Value.Step) (result : Value) :
    Eval (Option Value) := do
  let after ← lookup name s
  store name (← ofExcept (after.writePath steps result))
  return some result

theorem link_assign_identifier (host : Host) (op : AssignOp) (name : String) (place : Span)
    (value : Expr) (s : Span) :
    link host (.assign op (.identifier name place) value s) = (do
      let result ← outcome host op (lookup name place) value s
      store name result
      return some result) := by
  rw [link, outcome]
  cases op.binary? <;> simp only [bind_assoc]

theorem link_assign_path (host : Host) (op : AssignOp) {target : Expr}
    (compound : ∀ name place, target ≠ .identifier name place) (value : Expr) (s : Span) :
    link host (.assign op target value s) = (do
      let (name, steps) ← path host target.span target
      let before ← lookup name target.span
      let result ← outcome host op (ofExcept (before.readPath steps)) value s
      finish name target.span steps result) := by
  rw [link]
  · cases hop : op.binary? <;> simp only [outcome, finish, hop, bind_assoc]
  · exact fun name place h => compound name place h

theorem link_update_path (host : Host) (op : UpdateOp) (before : Bool) {target : Expr}
    (compound : ∀ name place, target ≠ .identifier name place) (s : Span) :
    link host (.update op before target s) = (do
      let (name, steps) ← path host target.span target
      let whole ← lookup name target.span
      let old ← ofExcept (whole.readPath steps)
      let x ← placed s (op.operand old)
      let changed ← ofExcept (whole.writePath steps (.number (x + op.delta)))
      store name changed
      return some (.number (if before then x + op.delta else x))) := by
  rw [link]
  exact fun name place h => compound name place h

/-- An assignment or an update that gets as far as its write: from one world it comes to
another one, in which a variable holds a value, and is about to write a value along a path
from there. -/
inductive Storing (host : Host) : Expr → World → World → String → Value → List Value.Step →
    Value → Prop where
  | assign {op : AssignOp} {target value : Expr} {s : Span} {w u t : World} {name : String}
    {steps : List Value.Step} {before whole v : Value}
    (hpath : (path host target.span target).run w = (.ok (name, steps), u))
    (hbefore : u.scope.get? name = some before)
    (hvalue : (outcome host op (ofExcept (before.readPath steps)) value s).run u = (.ok v, t))
    (hwhole : t.scope.get? name = some whole) :
    Storing host (.assign op target value s) w t name whole steps v
  | update {op : UpdateOp} {before : Bool} {target : Expr} {s : Span} {w t : World}
    {name : String} {steps : List Value.Step} {whole old : Value} {x : Float}
    (hpath : (path host target.span target).run w = (.ok (name, steps), t))
    (hwhole : t.scope.get? name = some whole) (hread : whole.readPath steps = .ok old)
    (hnumber : op.operand old = .ok x) :
    Storing host (.update op before target s) w t name whole steps (.number (x + op.delta))

/-- The path of a variable has no steps, and writing it as a whole does not fail. -/
theorem not_refused_of_identifier {host : Host} {place span : Span} {name root : String}
    {steps : List Value.Step} {w t : World} {whole v : Value} {err : Error}
    (hpath : (path host span (.identifier name place)).run w = (.ok (root, steps), t)) :
    whole.writePath steps v ≠ .error err := by
  rw [path] at hpath
  cases hpath
  intro refused
  cases refused

/-- A write that fails is the end of the evaluation, and what happened before it stays. -/
theorem Storing.run_of_refused {host : Host} {e : Expr} {w t : World} {name : String}
    {whole v : Value} {steps : List Value.Step} {err : Error}
    (h : Storing host e w t name whole steps v) (refused : whole.writePath steps v = .error err) :
    (link host e).run w = (.error err, t) := by
  cases h with
  | @assign op target value s _ u _ _ _ before _ _ hpath hbefore hvalue hwhole =>
    rcases identifier_or target with ⟨root, place, rfl⟩ | compound
    · exact absurd refused (not_refused_of_identifier hpath)
    · have refusal : (finish name target.span steps v).run t = (.error err, t) := by
        rw [finish, run_bind_ok (run_lookup hwhole target.span), refused]
        rfl
      rw [link_assign_path host op compound value s, run_bind_ok hpath]
      rw [run_bind_ok (run_lookup hbefore target.span), run_bind_ok hvalue]
      exact refusal
  | @update op before target s _ _ _ _ _ old x hpath hwhole hread hnumber =>
    rcases identifier_or target with ⟨root, place, rfl⟩ | compound
    · exact absurd refused (not_refused_of_identifier hpath)
    · rw [link_update_path host op before compound s, run_bind_ok hpath]
      rw [run_bind_ok (run_lookup hwhole target.span), hread, run_bind_ok (run_ofExcept _ t)]
      rw [run_bind_ok (run_placed hnumber s t), refused, run_bind_error (run_ofExcept _ t)]

/-- A write along a path that succeeds can be read back and is seen nowhere else, and where
one fails the variable holds what it held when all there is to evaluate was evaluated. -/
theorem paths_store (host : Host) :
    (∀ root steps v result, Value.writePath root steps v = .ok result →
      root.Rewritten steps v result) ∧
    ∀ e w t name whole steps v err, Storing host e w t name whole steps v →
      whole.writePath steps v = .error err →
      (link host e).run w = (.error err, t) ∧ t.scope.get? name = some whole := by
  constructor
  · intro root steps v result h
    exact Value.rewritten_of_writePath h
  · intro e w t name whole steps v err h refused
    refine ⟨h.run_of_refused refused, ?_⟩
    cases h with
    | assign _ _ _ hwhole => exact hwhole
    | update _ hwhole _ _ => exact hwhole

/-- An item past the end of an array is written, a member of a text is not. -/
theorem paths_store_item_member :
    let s : Span := ⟨0, 0, 1, 1⟩
    let items := Value.object [("a", .array [.null])]
    let longer := Value.object [("a", .array [.null, .undefined, .bool true])]
    let steps : List Value.Step := [⟨"a", false, s⟩, ⟨"2", true, s⟩]
    let w : World := ⟨Scope.ofParameters [("t", .string "x")], []⟩
    let err := (Cause.unassignableProperty "b" "string").on s
    let e := Expr.assign .plain (.member (.identifier "t" s) (.named "b") false s)
      (.literal (.bool true) s) s
    let host : Host := fun _ _ => .error ""
    items.Rewritten steps (.bool true) longer ∧
      (link host e).run w = (.error err, w) ∧ w.scope.get? "t" = some (.string "x") := by
  intro s items longer steps w err e host
  have index : Value.index? "2" = some 2 := by decide
  have written : items.writePath steps (.bool true) = .ok longer := by
    simp [items, longer, steps, Value.writePath, Value.withProperty, Value.grow, Value.resize,
      Value.maxGap, index, Dictionary.get?, Dictionary.put, Except.map]
  have stored : Storing host e w w "t" (.string "x") [⟨"b", false, s⟩] (.bool true) :=
    .assign rfl rfl rfl rfl
  constructor
  · exact (paths_store host).1 items steps (.bool true) longer written
  · exact (paths_store host).2 e w w "t" (.string "x") [⟨"b", false, s⟩] (.bool true) err stored rfl

end Expr

end PromptTemplate
