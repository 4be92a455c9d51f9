import PromptTemplate.Proofs.Run
import PromptTemplate.Compilation

/-!
# What attributes are evaluated by

The values of attributes, the role and the id of a message and the settings of a step are
found by evaluating expressions, one after another. What evaluations have in common, and
what is kept by doing one thing after another, is common to all of these.
-/

namespace PromptTemplate

namespace Compile

/-- A property of computations that evaluations and the refusal of a role have, and that what
is put together from computations with the property has, too. -/
structure Evaluating (host : Host) (P : (α : Type) → Compile α → Prop) : Prop where
  pure {α : Type} (a : α) : P α (pure a)
  refuse {α : Type} (name : String) (s : Span) : P α (throw ((Cause.invalidRole name).on s))
  bind {α β : Type} {p : Compile α} {f : α → Compile β} (hp : P α p) (hf : ∀ a, P β (f a)) :
    P β (p >>= f)
  evaluate (e : Expr) : P Value (evaluate host e)

namespace Evaluating

variable {host : Host} {P : (α : Type) → Compile α → Prop} (h : Evaluating host P)
include h

theorem piecesText (ps : List Piece) : P String (piecesText host ps) := by
  induction ps with
  | nil => exact h.pure _
  | cons p rest ih =>
    cases p with
    | text data s => exact h.bind ih fun _ => h.pure _
    | mustache e s => exact h.bind (h.evaluate e) fun _ => h.bind ih fun _ => h.pure _

theorem attributeValue (a : Attribute) : P Value (attributeValue host a) := by
  rw [Compile.attributeValue]
  split
  · exact h.pure _
  · exact h.evaluate _
  · exact h.bind (h.piecesText _) fun _ => h.pure _

theorem valueNamed (as : List Attribute) (name : String) : P Value (valueNamed host as name) := by
  rw [Compile.valueNamed]
  split
  · exact h.attributeValue _
  · exact h.pure _

theorem roleOf (role : Option Role) (as : List Attribute) (s : Span) :
    P Role (roleOf host role as s) := by
  cases role with
  | some role => exact h.pure _
  | none =>
    refine h.bind (h.valueNamed as "role") fun v => ?_
    split
    · exact h.pure _
    · exact h.refuse _ s

theorem toolIdOf (as : List Attribute) : P (Option String) (toolIdOf host as) := by
  rw [Compile.toolIdOf]
  split
  · exact h.bind (h.attributeValue _) fun _ => h.pure _
  · exact h.pure _

theorem stepAttributes (as : List Attribute) (name : Option String) (config : Config) :
    P (Option String × Config) (stepAttributes host name config as) := by
  induction as generalizing name config with
  | nil => exact h.pure _
  | cons a rest ih =>
    apply h.bind (h.attributeValue a)
    intro v
    split
    · exact ih _ _
    · exact ih _ _

end Evaluating

end Compile

end PromptTemplate
