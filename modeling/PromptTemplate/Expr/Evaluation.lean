import PromptTemplate.Scope
import PromptTemplate.Value.Operator

/-!
# Evaluating expressions

An evaluation runs in a world: the scope, which assignments change, and the record of
the calls made to functions of the host. The world survives an error, so what was
assigned and called before it stays. Every error is placed at the expression, or the
part of it, that could not be evaluated.

A chain of members and calls stops at an optional link that meets undefined or null; the
links after it are not evaluated, and the whole chain is undefined.
-/

namespace PromptTemplate

/-- A call of a function with some arguments. -/
structure Call where
  callee : Callable
  arguments : List Value

/-- What the functions of the host do. -/
abbrev Host := Callable → List Value → Except String Value

structure World where
  scope : Scope
  calls : List Call

/-- A computation that may change the world and may fail, and leaves a world either way. -/
abbrev Eval (α : Type) := ExceptT Error (StateM World) α

namespace Eval

/-- A result whose error is placed at a piece of text. -/
def placed {α : Type} (s : Span) (r : Except Cause α) : Eval α :=
  match r with
  | .ok a => pure a
  | .error cause => throw (cause.on s)

def scope : Eval Scope := return (← get).scope

/-- The value of a variable, which has to be declared. -/
def lookup (name : String) (s : Span) : Eval Value := do
  match (← scope).get? name with
  | some v => return v
  | none => throw ((Cause.undeclared name).on s)

def changeScope (f : Scope → Scope) : Eval Unit :=
  modify fun w => { w with scope := f w.scope }

def store (name : String) (v : Value) : Eval Unit :=
  changeScope (·.set name v)

/-- Calls a function of the host and records the call. -/
def invoke (host : Host) (f : Callable) (arguments : List Value) (s : Span) : Eval Value := do
  modify fun w => { w with calls := w.calls ++ [⟨f, arguments⟩] }
  match host f arguments with
  | .ok v => return v
  | .error problem => throw ((Cause.callFailed f.name problem).on s)

/-- The value of a chain, which is undefined if the chain stopped early. -/
def settled (chain : Eval (Option Value)) : Eval Value :=
  return (← chain).getD .undefined

end Eval

namespace Literal

def value : Literal → Value
  | .undefined => .undefined
  | .null => .null
  | .bool b => .bool b
  | .number x => .number x
  | .string s => .string s

end Literal

/-- The number that an update starts from. -/
def UpdateOp.operand (op : UpdateOp) (v : Value) : Except Cause Float :=
  match v with
  | .number x => .ok x
  | v => .error (.invalidUpdate op.symbol v.kindName)

namespace LogicalOp

/-- Whether the left operand is the result. -/
def takesLeft (op : LogicalOp) (left : Value) : Bool :=
  match op with
  | .and => !left.isTruthy
  | .or => left.isTruthy
  | .nullish => !left.isNullish

end LogicalOp

namespace Expr

open Eval

mutual

/-- Evaluates an expression; the result is missing exactly if the expression is a chain
that stopped at an optional link. -/
def link (host : Host) : Expr → Eval (Option Value)
  | .literal v _ => return some v.value
  | .identifier name s => return some (← lookup name s)
  | .array items _ => return some (.array (← values host items))
  | .object properties _ => return some (.object (← members host properties []))
  | .member base key optional s => do
    match ← link host base with
    | none => return none
    | some target =>
      if optional && target.isNullish then return none
      else
        let (name, computed) ← keyName host key
        let strict := !computed && !optional && !base.hasOptionalLink
        return some (← placed s (target.property strict name))
  | .call callee arguments optional s => do
    match ← link host callee with
    | none => return none
    | some target =>
      if optional && target.isNullish then return none
      else
        match target with
        | .function f =>
          let arguments ← values host arguments
          return some (← invoke host f arguments s)
        | _ => throw ((Cause.notAFunction callee.describe).on s)
  | .unary op argument _ => do
    let undeclared ← match op, argument with
      | .typeof, .identifier name _ => pure (!(← scope).contains name)
      | _, _ => pure false
    if undeclared then return some (.string "undefined")
    else
      let v ← settled (link host argument)
      return some (Value.unary op v)
  | .binary op left right s => do
    let l ← settled (link host left)
    let r ← settled (link host right)
    return some (← placed s (Value.binary op l r))
  | .logical op left right _ => do
    let l ← settled (link host left)
    if op.takesLeft l then return some l
    else return some (← settled (link host right))
  | .conditional test consequent alternate _ => do
    let t ← settled (link host test)
    if t.isTruthy then return some (← settled (link host consequent))
    else return some (← settled (link host alternate))
  | .assign op (.identifier name place) value s => do
    let result ← match op.binary? with
      | none => settled (link host value)
      | some op => do
        let old ← lookup name place
        let v ← settled (link host value)
        placed s (Value.binary op old v)
    store name result
    return some result
  | .assign op target value s => do
    let (root, steps) ← path host target.span target
    let before ← lookup root target.span
    let result ← match op.binary? with
      | none => settled (link host value)
      | some op => do
        let old ← ofExcept (before.readPath steps)
        let v ← settled (link host value)
        placed s (Value.binary op old v)
    let after ← lookup root target.span
    store root (← ofExcept (after.writePath steps result))
    return some result
  | .update op before (.identifier name place) s => do
    let old ← placed s (op.operand (← lookup name place))
    store name (.number (old + op.delta))
    return some (.number (if before then old + op.delta else old))
  | .update op before argument s => do
    let (root, steps) ← path host argument.span argument
    let whole ← lookup root argument.span
    let old ← placed s (op.operand (← ofExcept (whole.readPath steps)))
    store root (← ofExcept (whole.writePath steps (.number (old + op.delta))))
    return some (.number (if before then old + op.delta else old))

def values (host : Host) : List Expr → Eval (List Value)
  | [] => return []
  | e :: rest => do
    let v ← settled (link host e)
    return v :: (← values host rest)

/-- Puts the properties of an object literal one after the other. -/
def members (host : Host) : List Property → Dictionary Value → Eval (Dictionary Value)
  | [], done => return done
  | .mk key value :: rest, done => do
    let (name, _) ← keyName host key
    let v ← settled (link host value)
    members host rest (Dictionary.put done name v)

/-- The name that a key stands for, and whether it is computed. -/
def keyName (host : Host) : Key → Eval (String × Bool)
  | .named name => return (name, false)
  | .computed e => do
    let v ← settled (link host e)
    return (v.keyText, true)

/-- The variable at the root of a target and the keys below it, the computed ones
evaluated from left to right. -/
def path (host : Host) (whole : Span) : Expr → Eval (String × List Value.Step)
  | .identifier name _ => return (name, [])
  | .member base key false s => do
    let (root, steps) ← path host whole base
    let (name, computed) ← keyName host key
    return (root, steps ++ [⟨name, computed, s⟩])
  | _ => throw (Cause.unassignable.on whole)

end

/-- Evaluates an expression. -/
def evaluate (host : Host) (e : Expr) : Eval Value :=
  settled (link host e)

end Expr

end PromptTemplate
