import PromptTemplate.Expr.Basic
import Mathlib.Data.List.Basic

/-!
# Expressions inside expressions

The expressions inside an expression are listed each before those inside it, in the order
in which they are written.
-/

namespace PromptTemplate

mutual

/-- The expressions inside an expression, at any depth. -/
def Expr.inside : Expr → List Expr
  | .literal .. | .identifier .. => []
  | .array items _ => Expr.insideAll items
  | .object properties _ => Expr.insideProperties properties
  | .member base key _ _ => base :: base.inside ++ key.inside
  | .call callee arguments _ _ => callee :: callee.inside ++ Expr.insideAll arguments
  | .unary _ argument _ => argument :: argument.inside
  | .binary _ left right _ => left :: left.inside ++ right :: right.inside
  | .logical _ left right _ => left :: left.inside ++ right :: right.inside
  | .conditional test consequent alternate _ =>
    test :: test.inside ++ consequent :: consequent.inside ++ alternate :: alternate.inside
  | .assign _ target value _ => target :: target.inside ++ value :: value.inside
  | .update _ _ argument _ => argument :: argument.inside

def Expr.insideAll : List Expr → List Expr
  | [] => []
  | e :: rest => e :: e.inside ++ Expr.insideAll rest

def Key.inside : Key → List Expr
  | .named _ => []
  | .computed e => e :: e.inside

def Expr.insideProperties : List Property → List Expr
  | [] => []
  | .mk key value :: rest =>
    key.inside ++ value :: value.inside ++ Expr.insideProperties rest

end

namespace Expr

/-- An expression and the expressions inside it. -/
def subexpressions (e : Expr) : List Expr := e :: e.inside

theorem mem_subexpressions_self (e : Expr) : e ∈ e.subexpressions := List.mem_cons_self

end Expr

end PromptTemplate
