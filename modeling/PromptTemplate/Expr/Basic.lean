import PromptTemplate.Text.Position

/-!
# Expressions

Every expression carries the piece of text that it was read from. Parentheses leave
no trace but this: a parenthesised expression is the expression inside with the span
of the parentheses.
-/

namespace PromptTemplate

inductive Literal where
  | undefined
  | null
  | bool (b : Bool)
  | number (x : Float)
  | string (s : String)
deriving DecidableEq

inductive UnaryOp where
  | neg | plus | not | bitNot | typeof | void
deriving DecidableEq, Repr

inductive BinaryOp where
  | add | sub | mul | div | rem | pow
  | eq | notEq | strictEq | strictNotEq
  | lt | le | gt | ge
  | shl | shr | ushr | bitAnd | bitOr | bitXor
  | isIn | instanceOf
deriving DecidableEq, Repr

inductive LogicalOp where
  | and | or | nullish
deriving DecidableEq, Repr

inductive UpdateOp where
  | increment | decrement
deriving DecidableEq, Repr

/-- A plain assignment stores the value on its right, a compound one the result of a
binary operator on the old value and it. -/
inductive AssignOp where
  | plain
  | add | sub | mul | pow | div | rem
  | shl | shr | ushr | bitAnd | bitOr | bitXor
deriving DecidableEq, Repr

mutual

inductive Expr where
  | literal (value : Literal) (span : Span)
  | identifier (name : String) (span : Span)
  | array (items : List Expr) (span : Span)
  | object (properties : List Property) (span : Span)
  | member (base : Expr) (key : Key) (optional : Bool) (span : Span)
  | call (callee : Expr) (arguments : List Expr) (optional : Bool) (span : Span)
  | unary (op : UnaryOp) (argument : Expr) (span : Span)
  | binary (op : BinaryOp) (left right : Expr) (span : Span)
  | logical (op : LogicalOp) (left right : Expr) (span : Span)
  | conditional (test consequent alternate : Expr) (span : Span)
  | assign (op : AssignOp) (target value : Expr) (span : Span)
  | update (op : UpdateOp) (before : Bool) (argument : Expr) (span : Span)

/-- The name of a property, or an expression in brackets that computes it. -/
inductive Key where
  | named (name : String)
  | computed (e : Expr)

inductive Property where
  | mk (key : Key) (value : Expr)

end

namespace UnaryOp

def symbol : UnaryOp → String
  | .neg => "-"
  | .plus => "+"
  | .not => "!"
  | .bitNot => "~"
  | .typeof => "typeof"
  | .void => "void"

end UnaryOp

namespace BinaryOp

def all : List BinaryOp :=
  [.add, .sub, .mul, .div, .rem, .pow, .eq, .notEq, .strictEq, .strictNotEq, .lt, .le, .gt, .ge,
   .shl, .shr, .ushr, .bitAnd, .bitOr, .bitXor, .isIn, .instanceOf]

theorem mem_all (op : BinaryOp) : op ∈ all := by
  cases op <;> decide

def symbol : BinaryOp → String
  | .add => "+"
  | .sub => "-"
  | .mul => "*"
  | .div => "/"
  | .rem => "%"
  | .pow => "**"
  | .eq => "=="
  | .notEq => "!="
  | .strictEq => "==="
  | .strictNotEq => "!=="
  | .lt => "<"
  | .le => "<="
  | .gt => ">"
  | .ge => ">="
  | .shl => "<<"
  | .shr => ">>"
  | .ushr => ">>>"
  | .bitAnd => "&"
  | .bitOr => "|"
  | .bitXor => "^"
  | .isIn => "in"
  | .instanceOf => "instanceof"

end BinaryOp

namespace LogicalOp

def symbol : LogicalOp → String
  | .and => "&&"
  | .or => "||"
  | .nullish => "??"

end LogicalOp

namespace UpdateOp

def symbol : UpdateOp → String
  | .increment => "++"
  | .decrement => "--"

/-- What an update adds to the old value. -/
def delta : UpdateOp → Float
  | .increment => 1
  | .decrement => -1

end UpdateOp

namespace AssignOp

/-- The binary operator that a compound assignment applies. -/
def binary? : AssignOp → Option BinaryOp
  | .plain => none
  | .add => some .add
  | .sub => some .sub
  | .mul => some .mul
  | .pow => some .pow
  | .div => some .div
  | .rem => some .rem
  | .shl => some .shl
  | .shr => some .shr
  | .ushr => some .ushr
  | .bitAnd => some .bitAnd
  | .bitOr => some .bitOr
  | .bitXor => some .bitXor

end AssignOp

namespace Expr

def span : Expr → Span
  | .literal _ s | .identifier _ s | .array _ s | .object _ s | .member _ _ _ s
  | .call _ _ _ s | .unary _ _ s | .binary _ _ _ s | .logical _ _ _ s
  | .conditional _ _ _ s | .assign _ _ _ s | .update _ _ _ s => s

/-- The same expression with another span of its own. -/
def withSpan (s : Span) : Expr → Expr
  | .literal v _ => .literal v s
  | .identifier n _ => .identifier n s
  | .array es _ => .array es s
  | .object ps _ => .object ps s
  | .member o k q _ => .member o k q s
  | .call c as q _ => .call c as q s
  | .unary op e _ => .unary op e s
  | .binary op l r _ => .binary op l r s
  | .logical op l r _ => .logical op l r s
  | .conditional t c a _ => .conditional t c a s
  | .assign op t v _ => .assign op t v s
  | .update op b e _ => .update op b e s

@[simp] theorem span_withSpan (e : Expr) (s : Span) : (e.withSpan s).span = s := by
  cases e <;> rfl

/-- An assignment shows no output where it is written. -/
def isAssignment : Expr → Bool
  | .assign .. => true
  | _ => false

/-- Whether a link of the chain of members and calls that the expression ends is
optional. -/
def hasOptionalLink : Expr → Bool
  | .member base _ optional _ => optional || base.hasOptionalLink
  | .call callee _ optional _ => optional || callee.hasOptionalLink
  | _ => false

/-- Whether the expression can be assigned to: a variable, or a member that no
optional link leads to. -/
def isTarget : Expr → Bool
  | .identifier .. => true
  | .member base _ optional _ => !optional && !base.hasOptionalLink
  | _ => false

/-- The operator of the outermost operation; of an assignment, the operator that it
applies to the old value. -/
def operatorSymbol? : Expr → Option String
  | .unary op .. => some op.symbol
  | .binary op .. => some op.symbol
  | .logical op .. => some op.symbol
  | .update op .. => some op.symbol
  | .assign op .. => op.binary?.map BinaryOp.symbol
  | _ => none

/-- How an error message names the function of a call. -/
def describe : Expr → String
  | .identifier name _ => name
  | .member base (.named name) _ _ => s!"{base.describe}.{name}"
  | .member base (.computed _) _ _ => s!"{base.describe}[...]"
  | _ => "expression"

end Expr

end PromptTemplate
