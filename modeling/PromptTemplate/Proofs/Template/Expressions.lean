import PromptTemplate.Proofs.Expr.Subexpressions
import PromptTemplate.Proofs.Template.Outline
import PromptTemplate.Proofs.Template.Written

/-!
# The expressions of templates

The expressions of a node are those in its braces and in the values of its attributes.
-/

namespace PromptTemplate

/-- The expression of a part of the value of an attribute. -/
def Piece.expression? : Piece → Option Expr
  | .text .. => none
  | .mustache e _ => some e

/-- The expressions in the value of an attribute. -/
def AttributeValue.expressions : AttributeValue → List Expr
  | .flag => []
  | .pieces ps => ps.filterMap Piece.expression?

/-- The expressions in the values of attributes. -/
def Attribute.expressions (as : List Attribute) : List Expr :=
  as.flatMap (·.value.expressions)

namespace Node

/-- The expressions of a node itself, without those of the nodes inside it. -/
def expressions : Node → List Expr
  | .mustache e _ | .ifBlock e _ _ _ | .eachBlock e _ _ _ _ _ => [e]
  | .message _ as _ _ | .content _ as _ _ | .step as _ _ | .reference as _ =>
    Attribute.expressions as
  | .text .. | .config .. | .comment .. | .scoped .. | .response .. => []

/-- The expressions of nodes and of all nodes inside them. -/
def allExpressions (ns : List Node) : List Expr := (walkAll ns).flatMap expressions

theorem allExpressions_append (ns ms : List Node) :
    allExpressions (ns ++ ms) = allExpressions ns ++ allExpressions ms := by
  rw [allExpressions, walkAll_append, List.flatMap_append, allExpressions, allExpressions]

theorem allExpressions_eq_flatMap (ns : List Node) :
    allExpressions ns = ns.flatMap fun a => a.walk.flatMap expressions := by
  induction ns with
  | nil => rfl
  | cons a ns ih =>
    rw [allExpressions, walkAll, List.flatMap_append, List.flatMap_cons, ← ih, allExpressions]

theorem allExpressions_singleton (a : Node) : allExpressions [a] = a.walk.flatMap expressions := by
  rw [allExpressions_eq_flatMap, List.flatMap_singleton]

theorem allExpressions_trimBlock (ns : List Node) :
    allExpressions (Template.trimBlock ns) = allExpressions ns := by
  rw [allExpressions_eq_flatMap, allExpressions_eq_flatMap]
  exact Template.flatMap_trimBlock (fun _ _ => rfl) ns

end Node

end PromptTemplate
