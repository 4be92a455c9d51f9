import PromptTemplate.Expr.Basic
import PromptTemplate.Token.Lexer

/-!
# Reading expressions

From the loosest binding to the tightest: assignment, conditional, the binary operators
by precedence, unary operators and updates before their operand, updates after it, and
chains of members and calls. Assignments, conditionals and powers associate to the
right, all other binary operators to the left.

A reader takes at least one token off its input, so what it returns as the rest is
shorter. The input is the tokens before the first end token; `stop` is that end token,
which is where the errors of a missing token are placed.
-/

namespace PromptTemplate

namespace AssignOp

def ofMark? : Mark → Option AssignOp
  | .assign => some .plain
  | .plusAssign => some .add
  | .minusAssign => some .sub
  | .starAssign => some .mul
  | .starStarAssign => some .pow
  | .slashAssign => some .div
  | .percentAssign => some .rem
  | .shlAssign => some .shl
  | .shrAssign => some .shr
  | .ushrAssign => some .ushr
  | .ampAssign => some .bitAnd
  | .pipeAssign => some .bitOr
  | .caretAssign => some .bitXor
  | _ => none

end AssignOp

namespace UnaryOp

def ofKind? : Token.Kind → Option UnaryOp
  | .mark .not => some .not
  | .mark .minus => some .neg
  | .mark .plus => some .plus
  | .mark .tilde => some .bitNot
  | .keyword .typeof => some .typeof
  | .keyword .void => some .void
  | _ => none

end UnaryOp

namespace UpdateOp

def ofKind? : Token.Kind → Option UpdateOp
  | .mark .plusPlus => some .increment
  | .mark .minusMinus => some .decrement
  | _ => none

end UpdateOp

namespace Literal

def ofKind? : Token.Kind → Option Literal
  | .number x => some (.number x)
  | .string s => some (.string s)
  | .keyword .isTrue => some (.bool true)
  | .keyword .isFalse => some (.bool false)
  | .keyword .null => some .null
  | .keyword .undefined => some .undefined
  | _ => none

end Literal

/-- An operator between two operands. -/
inductive Operator where
  | binary (op : BinaryOp)
  | logical (op : LogicalOp)
deriving DecidableEq, Repr

namespace Operator

def ofKind? : Token.Kind → Option Operator
  | .mark .orOr => some (.logical .or)
  | .mark .questionQuestion => some (.logical .nullish)
  | .mark .andAnd => some (.logical .and)
  | .mark .pipe => some (.binary .bitOr)
  | .mark .caret => some (.binary .bitXor)
  | .mark .amp => some (.binary .bitAnd)
  | .mark .eqEq => some (.binary .eq)
  | .mark .notEq => some (.binary .notEq)
  | .mark .eqEqEq => some (.binary .strictEq)
  | .mark .notEqEq => some (.binary .strictNotEq)
  | .mark .lt => some (.binary .lt)
  | .mark .gt => some (.binary .gt)
  | .mark .le => some (.binary .le)
  | .mark .ge => some (.binary .ge)
  | .keyword .isIn => some (.binary .isIn)
  | .keyword .instanceOf => some (.binary .instanceOf)
  | .mark .shl => some (.binary .shl)
  | .mark .shr => some (.binary .shr)
  | .mark .ushr => some (.binary .ushr)
  | .mark .plus => some (.binary .add)
  | .mark .minus => some (.binary .sub)
  | .mark .star => some (.binary .mul)
  | .mark .slash => some (.binary .div)
  | .mark .percent => some (.binary .rem)
  | .mark .starStar => some (.binary .pow)
  | _ => none

/-- How tightly the operator binds. -/
def precedence : Operator → Nat
  | .logical .or | .logical .nullish => 1
  | .logical .and => 2
  | .binary .bitOr => 3
  | .binary .bitXor => 4
  | .binary .bitAnd => 5
  | .binary .eq | .binary .notEq | .binary .strictEq | .binary .strictNotEq => 6
  | .binary .lt | .binary .le | .binary .gt | .binary .ge => 7
  | .binary .isIn | .binary .instanceOf => 7
  | .binary .shl | .binary .shr | .binary .ushr => 8
  | .binary .add | .binary .sub => 9
  | .binary .mul | .binary .div | .binary .rem => 10
  | .binary .pow => 11

/-- The least precedence of an operator inside the right operand. -/
def rightLevel : Operator → Nat
  | .binary .pow => 11
  | op => op.precedence + 1

def apply (op : Operator) (left right : Expr) : Expr :=
  let span := Span.cover left.span right.span
  match op with
  | .binary op => .binary op left right span
  | .logical op => .logical op left right span

end Operator

namespace Expr.Parser

abbrev Shorter (ts : List Token) := { rest : List Token // rest.length < ts.length }

abbrev NoLonger (ts : List Token) := { rest : List Token // rest.length ≤ ts.length }

/-- The token that a reader looks at. -/
def current (stop : Token) (ts : List Token) : Token :=
  ts.head?.getD stop

/-- The error of a reader that cannot go on. -/
def fail {α : Type} (stop : Token) (ts : List Token) (cause : Cause) : Except Error α :=
  .error (cause.on (current stop ts).span)

/-- Takes a token off that a function gives a meaning to. -/
def take? {α : Type} (meaning : Token.Kind → Option α) :
    (ts : List Token) → Option (α × Shorter ts)
  | [] => none
  | t :: ts => (meaning t.kind).map fun a => (a, ⟨ts, by simp⟩)

/-- Takes a mark off that has to be there, and returns where it stood. -/
def expect (stop : Token) (m : Mark) (ts : List Token) : Except Error (Span × Shorter ts) :=
  match ts with
  | t :: more =>
    if t.kind = .mark m then .ok (t.span, ⟨more, by simp⟩)
    else fail stop (t :: more) (.expectedToken m.symbol t.kind.display)
  | [] => fail stop [] (.expectedToken m.symbol stop.kind.display)

/-- A property may be named by an identifier or a keyword. -/
def nameOf? : Token.Kind → Option String
  | .identifier name => some name
  | .keyword k => some k.symbol
  | _ => none

def propertyName (stop : Token) (ts : List Token) :
    Except Error (String × Span × Shorter ts) :=
  match ts with
  | t :: more =>
    match nameOf? t.kind with
    | some name => .ok (name, t.span, ⟨more, by simp⟩)
    | none => fail stop (t :: more) .expectedPropertyName
  | [] => fail stop [] .expectedPropertyName

/-- The name of a property in an object literal, if it is written as one token. -/
def keyOf? : Token.Kind → Option String
  | .string s => some s
  | .number x => some (Number.text x)
  | k => nameOf? k

def identifierOf? : Token.Kind → Option String
  | .identifier name => some name
  | _ => none

def startsWith (m : Mark) (ts : List Token) : Bool :=
  ts.head?.any (·.kind == .mark m)

mutual

def assignment (stop : Token) (ts : List Token) : Except Error (Expr × Shorter ts) := do
  let ⟨target, rest, _⟩ ← conditional stop ts
  match take? (fun | .mark m => AssignOp.ofMark? m | _ => none) rest with
  | none => return (target, ⟨rest, by omega⟩)
  | some ⟨op, more, _⟩ =>
    if target.isTarget then
      let ⟨value, after, _⟩ ← assignment stop more
      return (.assign op target value (Span.cover target.span value.span), ⟨after, by omega⟩)
    else .error (Cause.invalidTarget.on target.span)
termination_by ts.length * 10 + 7

def conditional (stop : Token) (ts : List Token) : Except Error (Expr × Shorter ts) := do
  let ⟨test, rest, _⟩ ← binary stop 0 ts
  if startsWith .question rest then
    let ⟨_, more, _⟩ ← expect stop .question rest
    let ⟨consequent, more, _⟩ ← assignment stop more
    let ⟨_, more, _⟩ ← expect stop .colon more
    let ⟨alternate, more, _⟩ ← assignment stop more
    let span := Span.cover test.span alternate.span
    return (.conditional test consequent alternate span, ⟨more, by omega⟩)
  else return (test, ⟨rest, by omega⟩)
termination_by ts.length * 10 + 6

/-- An operand with the operators of at least the given precedence that follow it. -/
def binary (stop : Token) (level : Nat) (ts : List Token) :
    Except Error (Expr × Shorter ts) := do
  let ⟨left, rest, _⟩ ← unary stop ts
  let ⟨e, rest, _⟩ ← operators stop level left rest
  return (e, ⟨rest, by omega⟩)
termination_by ts.length * 10 + 5

def operators (stop : Token) (level : Nat) (left : Expr) (ts : List Token) :
    Except Error (Expr × NoLonger ts) :=
  match take? Operator.ofKind? ts with
  | none => .ok (left, ⟨ts, Nat.le_refl _⟩)
  | some ⟨op, more, _⟩ =>
    if op.precedence < level then .ok (left, ⟨ts, Nat.le_refl _⟩)
    else do
      let ⟨right, rest, _⟩ ← binary stop op.rightLevel more
      let ⟨e, rest, _⟩ ← operators stop level (op.apply left right) rest
      return (e, ⟨rest, by omega⟩)
termination_by ts.length * 10

def unary (stop : Token) (ts : List Token) : Except Error (Expr × Shorter ts) :=
  let start := (current stop ts).span
  match take? UnaryOp.ofKind? ts with
  | some ⟨op, more, _⟩ => do
    let ⟨argument, rest, _⟩ ← unary stop more
    return (.unary op argument (Span.cover start argument.span), ⟨rest, by omega⟩)
  | none =>
    match take? UpdateOp.ofKind? ts with
    | some ⟨op, more, _⟩ => do
      let ⟨argument, rest, _⟩ ← unary stop more
      if argument.isTarget then
        return (.update op true argument (Span.cover start argument.span), ⟨rest, by omega⟩)
      else .error ((Cause.invalidOperand "prefix" op.symbol).on argument.span)
    | none => postfixed stop ts
termination_by ts.length * 10 + 4

def postfixed (stop : Token) (ts : List Token) : Except Error (Expr × Shorter ts) := do
  let ⟨e, rest, _⟩ ← chain stop ts
  match take? UpdateOp.ofKind? rest with
  | none => return (e, ⟨rest, by omega⟩)
  | some ⟨op, more, _⟩ =>
    if e.isTarget then
      let span := Span.cover e.span (current stop rest).span
      return (.update op false e span, ⟨more, by omega⟩)
    else .error ((Cause.invalidOperand "postfix" op.symbol).on e.span)
termination_by ts.length * 10 + 3

def chain (stop : Token) (ts : List Token) : Except Error (Expr × Shorter ts) := do
  let ⟨base, rest, _⟩ ← primary stop ts
  let ⟨e, rest, _⟩ ← links stop base rest
  return (e, ⟨rest, by omega⟩)
termination_by ts.length * 10 + 2

/-- The members and calls that follow an expression. -/
def links (stop : Token) (base : Expr) (ts : List Token) : Except Error (Expr × NoLonger ts) :=
  match ts with
  | ⟨.mark .dot, _⟩ :: more => do
    let ⟨name, stopped, rest, _⟩ ← propertyName stop more
    let e := Expr.member base (.named name) false (Span.cover base.span stopped)
    let ⟨e, rest, _⟩ ← links stop e rest
    return (e, ⟨rest, by simp; omega⟩)
  | ⟨.mark .questionDot, _⟩ :: more => do
    let ⟨e, rest, _⟩ ← optionalLink stop base more
    let ⟨e, rest, _⟩ ← links stop e rest
    return (e, ⟨rest, by simp; omega⟩)
  | ⟨.mark .leftBracket, s⟩ :: more => do
    let ⟨e, rest, _⟩ ← computedMember stop base false (⟨.mark .leftBracket, s⟩ :: more)
    let ⟨e, rest, _⟩ ← links stop e rest
    return (e, ⟨rest, by simp at *; omega⟩)
  | ⟨.mark .leftParen, s⟩ :: more => do
    let ⟨e, rest, _⟩ ← call stop base false (⟨.mark .leftParen, s⟩ :: more)
    let ⟨e, rest, _⟩ ← links stop e rest
    return (e, ⟨rest, by simp at *; omega⟩)
  | ts => .ok (base, ⟨ts, Nat.le_refl _⟩)
termination_by ts.length * 10 + 1
decreasing_by all_goals (simp at *; try omega)

/-- The link after the mark of an optional one. -/
def optionalLink (stop : Token) (base : Expr) (ts : List Token) :
    Except Error (Expr × Shorter ts) :=
  if startsWith .leftBracket ts then computedMember stop base true ts
  else if startsWith .leftParen ts then call stop base true ts
  else do
    let ⟨name, stopped, rest⟩ ← propertyName stop ts
    return (.member base (.named name) true (Span.cover base.span stopped), rest)
termination_by ts.length * 10 + 1

def computedMember (stop : Token) (base : Expr) (optional : Bool) (ts : List Token) :
    Except Error (Expr × Shorter ts) := do
  let ⟨_, more, _⟩ ← expect stop .leftBracket ts
  let ⟨key, more, _⟩ ← assignment stop more
  let ⟨stopped, more, _⟩ ← expect stop .rightBracket more
  let span := Span.cover base.span stopped
  return (.member base (.computed key) optional span, ⟨more, by omega⟩)
termination_by ts.length * 10

def call (stop : Token) (callee : Expr) (optional : Bool) (ts : List Token) :
    Except Error (Expr × Shorter ts) := do
  let ⟨_, more, _⟩ ← expect stop .leftParen ts
  let ⟨arguments, stopped, more, _⟩ ← items stop .rightParen more
  return (.call callee arguments optional (Span.cover callee.span stopped), ⟨more, by omega⟩)
termination_by ts.length * 10

def primary (stop : Token) (ts : List Token) : Except Error (Expr × Shorter ts) :=
  match ts with
  | [] => fail stop [] .expectedExpression
  | ⟨kind, span⟩ :: more =>
    match Literal.ofKind? kind with
    | some value => .ok (.literal value span, ⟨more, by simp⟩)
    | none =>
      match kind with
      | .identifier name => .ok (.identifier name span, ⟨more, by simp⟩)
      | .mark .leftParen => do
        let ⟨e, rest, _⟩ ← assignment stop more
        let ⟨stopped, rest, _⟩ ← expect stop .rightParen rest
        return (e.withSpan (Span.cover span stopped), ⟨rest, by simp; omega⟩)
      | .mark .leftBracket => do
        let ⟨es, stopped, rest, _⟩ ← items stop .rightBracket more
        return (.array es (Span.cover span stopped), ⟨rest, by simp; omega⟩)
      | .mark .leftBrace => do
        let ⟨ps, stopped, rest, _⟩ ← properties stop more
        return (.object ps (Span.cover span stopped), ⟨rest, by simp; omega⟩)
      | .invalid fault => .error ((Cause.lexical fault).on span)
      | .tagEnd | .inputEnd => .error (Cause.expectedExpression.on span)
      | other => .error ((Cause.unexpectedToken other.display).on span)
termination_by ts.length * 10

/-- Expressions with commas between them up to a closing mark, before which one more
comma may stand. -/
def items (stop : Token) (closing : Mark) (ts : List Token) :
    Except Error (List Expr × Span × Shorter ts) :=
  if startsWith closing ts then do
    let ⟨stopped, more⟩ ← expect stop closing ts
    return ([], stopped, more)
  else do
    let ⟨e, rest, _⟩ ← assignment stop ts
    if startsWith closing rest then
      let ⟨stopped, more, _⟩ ← expect stop closing rest
      return ([e], stopped, ⟨more, by omega⟩)
    else
      let ⟨_, more, _⟩ ← expect stop .comma rest
      let ⟨es, stopped, more, _⟩ ← items stop closing more
      return (e :: es, stopped, ⟨more, by omega⟩)
termination_by ts.length * 10 + 8

def property (stop : Token) (ts : List Token) : Except Error (Property × Shorter ts) := do
  let ⟨key, rest, _⟩ ← propertyKey stop ts
  match key, startsWith .colon rest, take? identifierOf? ts with
  | .named name, false, some _ =>
    return (.mk key (.identifier name (current stop ts).span), ⟨rest, by omega⟩)
  | key, _, _ =>
    let ⟨_, rest, _⟩ ← expect stop .colon rest
    let ⟨value, rest, _⟩ ← assignment stop rest
    return (.mk key value, ⟨rest, by omega⟩)
termination_by ts.length * 10 + 8

def propertyKey (stop : Token) (ts : List Token) : Except Error (Key × Shorter ts) :=
  match take? keyOf? ts with
  | some ⟨name, more⟩ => .ok (.named name, more)
  | none =>
    if startsWith .leftBracket ts then do
      let ⟨_, more, _⟩ ← expect stop .leftBracket ts
      let ⟨key, more, _⟩ ← assignment stop more
      let ⟨_, more, _⟩ ← expect stop .rightBracket more
      return (.computed key, ⟨more, by omega⟩)
    else fail stop ts .expectedPropertyName
termination_by ts.length * 10

/-- The properties of an object literal after its opening brace. -/
def properties (stop : Token) (ts : List Token) :
    Except Error (List Property × Span × Shorter ts) :=
  if startsWith .rightBrace ts then do
    let ⟨stopped, more⟩ ← expect stop .rightBrace ts
    return ([], stopped, more)
  else do
    let ⟨p, rest, _⟩ ← property stop ts
    if startsWith .rightBrace rest then
      let ⟨stopped, more, _⟩ ← expect stop .rightBrace rest
      return ([p], stopped, ⟨more, by omega⟩)
    else
      let ⟨_, more, _⟩ ← expect stop .comma rest
      let ⟨ps, stopped, more, _⟩ ← properties stop more
      return (p :: ps, stopped, ⟨more, by omega⟩)
termination_by ts.length * 10 + 9

end

/-- The end token of a list, or one put just after its last token. -/
def stopOf (ts : List Token) : Token :=
  match ts.find? (·.kind.isEnd) with
  | some t => t
  | none =>
    match ts.getLast? with
    | some t => ⟨.inputEnd, { t.span with start := t.span.stop }⟩
    | none => ⟨.inputEnd, Span.none⟩

end Expr.Parser

namespace Expr

open PromptTemplate.Expr.Parser

/-- The expression that the tokens before the first end token are; nothing may be left
over. -/
def ofTokens (ts : List Token) : Except Error Expr := do
  let stop := stopOf ts
  let body := ts.takeWhile (!·.kind.isEnd)
  if body.isEmpty then fail stop [] .expectedExpression
  else
    let ⟨e, rest, _⟩ ← assignment stop body
    match rest with
    | [] => return e
    | t :: _ => .error ((Cause.unexpectedToken t.kind.display).on t.span)

/-- The expression that a text is. -/
def ofText (s : String) : Except Error Expr :=
  ofTokens (Token.ofText s.toList)

end Expr

end PromptTemplate
