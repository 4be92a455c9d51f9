import PromptTemplate.Expr.Parser
import PromptTemplate.Proofs.Expr.Subexpressions

/-!
# Expressions as tokens

How tightly the forms of expressions bind, from the loosest to the tightest:

    0   assignments                      (to the right)
    1   conditionals                     (to the right)
    2   ||  ??
    3   &&
    4   |
    5   ^
    6   &
    7   ==  !=  ===  !==
    8   <  >  <=  >=  in  instanceof
    9   <<  >>  >>>
    10  +  -
    11  *  /  %
    12  **                               (to the right)
    13  unary operators, updates before their operand
    14  updates after their operand
    15  members and calls
    16  literals, names, arrays and objects

An expression is written with a subexpression in parentheses exactly if the subexpression
binds looser than its place allows.
-/

namespace PromptTemplate

namespace Operator

/-- The operators between two operands, the loosest first. -/
def table : List (List Operator) :=
  [[.logical .or, .logical .nullish],
   [.logical .and],
   [.binary .bitOr],
   [.binary .bitXor],
   [.binary .bitAnd],
   [.binary .eq, .binary .notEq, .binary .strictEq, .binary .strictNotEq],
   [.binary .lt, .binary .gt, .binary .le, .binary .ge, .binary .isIn, .binary .instanceOf],
   [.binary .shl, .binary .shr, .binary .ushr],
   [.binary .add, .binary .sub],
   [.binary .mul, .binary .div, .binary .rem],
   [.binary .pow]]

def level (op : Operator) : Nat := table.findIdx (·.contains op) + 2

/-- The loosest level that the left operand may have without parentheses. -/
def leftPlace : Operator → Nat
  | .binary .pow => level (.binary .pow) + 1
  | op => op.level

/-- The loosest level that the right operand may have without parentheses. -/
def rightPlace : Operator → Nat
  | .binary .pow => level (.binary .pow)
  | op => op.level + 1

def kind : Operator → Token.Kind
  | .logical .or => .mark .orOr
  | .logical .nullish => .mark .questionQuestion
  | .logical .and => .mark .andAnd
  | .binary .bitOr => .mark .pipe
  | .binary .bitXor => .mark .caret
  | .binary .bitAnd => .mark .amp
  | .binary .eq => .mark .eqEq
  | .binary .notEq => .mark .notEq
  | .binary .strictEq => .mark .eqEqEq
  | .binary .strictNotEq => .mark .notEqEq
  | .binary .lt => .mark .lt
  | .binary .gt => .mark .gt
  | .binary .le => .mark .le
  | .binary .ge => .mark .ge
  | .binary .isIn => .keyword .isIn
  | .binary .instanceOf => .keyword .instanceOf
  | .binary .shl => .mark .shl
  | .binary .shr => .mark .shr
  | .binary .ushr => .mark .ushr
  | .binary .add => .mark .plus
  | .binary .sub => .mark .minus
  | .binary .mul => .mark .star
  | .binary .div => .mark .slash
  | .binary .rem => .mark .percent
  | .binary .pow => .mark .starStar

end Operator

def UnaryOp.kind : UnaryOp → Token.Kind
  | .not => .mark .not
  | .neg => .mark .minus
  | .plus => .mark .plus
  | .bitNot => .mark .tilde
  | .typeof => .keyword .typeof
  | .void => .keyword .void

def UpdateOp.kind : UpdateOp → Token.Kind
  | .increment => .mark .plusPlus
  | .decrement => .mark .minusMinus

def AssignOp.mark : AssignOp → Mark
  | .plain => .assign
  | .add => .plusAssign
  | .sub => .minusAssign
  | .mul => .starAssign
  | .pow => .starStarAssign
  | .div => .slashAssign
  | .rem => .percentAssign
  | .shl => .shlAssign
  | .shr => .shrAssign
  | .ushr => .ushrAssign
  | .bitAnd => .ampAssign
  | .bitOr => .pipeAssign
  | .bitXor => .caretAssign

def Literal.kind : Literal → Token.Kind
  | .undefined => .keyword .undefined
  | .null => .keyword .null
  | .bool true => .keyword .isTrue
  | .bool false => .keyword .isFalse
  | .number x => .number x
  | .string s => .string s

/-- A name after a point may be a keyword. -/
def Token.Kind.ofName (name : String) : Token.Kind :=
  match Keyword.ofWord? name.toList with
  | some k => .keyword k
  | none => .identifier name

namespace Expr

def level : Expr → Nat
  | .assign .. => 0
  | .conditional .. => 1
  | .logical op .. => (Operator.logical op).level
  | .binary op .. => (Operator.binary op).level
  | .unary .. | .update _ true .. => 13
  | .update _ false .. => 14
  | .member .. | .call .. => 15
  | .literal .. | .identifier .. | .array .. | .object .. => 16

/-- Puts tokens in parentheses if their level is looser than a place allows. -/
def enclosed (place level : Nat) (ks : List Token.Kind) : List Token.Kind :=
  if level < place then .mark .leftParen :: (ks ++ [.mark .rightParen]) else ks

mutual

/-- The tokens of an expression. -/
def tokens : Expr → List Token.Kind
  | .literal value _ => [value.kind]
  | .identifier name _ => [.identifier name]
  | .array items _ => .mark .leftBracket :: (itemTokens items ++ [.mark .rightBracket])
  | .object properties _ =>
    .mark .leftBrace :: (propertyTokens properties ++ [.mark .rightBrace])
  | .member base key optional _ => enclosed 15 base.level base.tokens ++ linkTokens optional key
  | .call callee arguments optional _ =>
    enclosed 15 callee.level callee.tokens ++ ((if optional then [.mark .questionDot] else []) ++
      .mark .leftParen :: (itemTokens arguments ++ [.mark .rightParen]))
  | .unary op argument _ => op.kind :: enclosed 13 argument.level argument.tokens
  | .update op true argument _ => op.kind :: enclosed 13 argument.level argument.tokens
  | .update op false argument _ => enclosed 15 argument.level argument.tokens ++ [op.kind]
  | .binary op left right _ =>
    enclosed (Operator.binary op).leftPlace left.level left.tokens ++ (Operator.binary op).kind ::
      enclosed (Operator.binary op).rightPlace right.level right.tokens
  | .logical op left right _ =>
    enclosed (Operator.logical op).leftPlace left.level left.tokens ++ (Operator.logical op).kind ::
      enclosed (Operator.logical op).rightPlace right.level right.tokens
  | .conditional test consequent alternate _ =>
    enclosed 2 test.level test.tokens ++ .mark .question ::
      (consequent.tokens ++ .mark .colon :: alternate.tokens)
  | .assign op target value _ =>
    enclosed 15 target.level target.tokens ++ .mark op.mark :: value.tokens

/-- Expressions with commas between them. -/
def itemTokens : List Expr → List Token.Kind
  | [] => []
  | [e] => e.tokens
  | e :: f :: rest => e.tokens ++ .mark .comma :: itemTokens (f :: rest)

/-- The link of a member. -/
def linkTokens (optional : Bool) : Key → List Token.Kind
  | .named name => [.mark (if optional then .questionDot else .dot), .ofName name]
  | .computed e => (if optional then [.mark .questionDot] else []) ++
      .mark .leftBracket :: (e.tokens ++ [.mark .rightBracket])

/-- The key of a property. -/
def keyTokens : Key → List Token.Kind
  | .named name => [.string name]
  | .computed e => .mark .leftBracket :: (e.tokens ++ [.mark .rightBracket])

/-- Properties with commas between them. -/
def propertyTokens : List Property → List Token.Kind
  | [] => []
  | [.mk key value] => keyTokens key ++ .mark .colon :: value.tokens
  | .mk key value :: p :: rest =>
    keyTokens key ++ .mark .colon :: (value.tokens ++ .mark .comma :: propertyTokens (p :: rest))

end

/-- A power is enclosed on the left of a power, a negation is not. -/
example (s : Span) (a b c : String) :
    let power (l r : Expr) := Expr.binary .pow l r s
    (power (power (.unary .neg (.identifier a s) s) (.identifier b s)) (.identifier c s)).tokens =
      [.mark .leftParen, .mark .minus, .identifier a, .mark .starStar, .identifier b,
        .mark .rightParen, .mark .starStar, .identifier c] := rfl

/-! ## Expressions up to their places in a text -/

mutual

/-- The same expression without the places that it was read from. -/
def bare : Expr → Expr
  | .literal value _ => .literal value Span.none
  | .identifier name _ => .identifier name Span.none
  | .array items _ => .array (bareAll items) Span.none
  | .object properties _ => .object (bareProperties properties) Span.none
  | .member base key optional _ => .member base.bare (bareKey key) optional Span.none
  | .call callee arguments optional _ =>
    .call callee.bare (bareAll arguments) optional Span.none
  | .unary op argument _ => .unary op argument.bare Span.none
  | .binary op left right _ => .binary op left.bare right.bare Span.none
  | .logical op left right _ => .logical op left.bare right.bare Span.none
  | .conditional test consequent alternate _ =>
    .conditional test.bare consequent.bare alternate.bare Span.none
  | .assign op target value _ => .assign op target.bare value.bare Span.none
  | .update op before argument _ => .update op before argument.bare Span.none

def bareAll : List Expr → List Expr
  | [] => []
  | e :: rest => e.bare :: bareAll rest

def bareKey : Key → Key
  | .named name => .named name
  | .computed e => .computed e.bare

def bareProperties : List Property → List Property
  | [] => []
  | .mk key value :: rest => .mk (bareKey key) value.bare :: bareProperties rest

end

/-- Whether an expression writes, if it writes itself, to what can be assigned to. -/
def FitsTarget : Expr → Prop
  | .assign _ target _ _ => target.isTarget = true
  | .update _ _ argument _ => argument.isTarget = true
  | _ => True

/-- All assignments and updates in an expression write to what can be assigned to. -/
def WellTargeted (e : Expr) : Prop := ∀ x ∈ e.subexpressions, x.FitsTarget

end Expr

end PromptTemplate
