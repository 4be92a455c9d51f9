import PromptTemplate.Expr.Basic
import PromptTemplate.Json.Depth
import PromptTemplate.Json.Record

/-!
# Expressions as JSON

The form in which expressions are stored and shown: an expression is the record of its
kind and its span, and a kind is a variant. A number literal that is not finite has no
such form: it is written as null, which is refused when it is read.
-/

namespace PromptTemplate

namespace Span

def toJson (s : Span) : Json :=
  .object [("start", .natural s.start), ("end", .natural s.stop), ("line", .natural s.line),
    ("column", .natural s.column)]

def ofJson? (j : Json) : Option Span := do
  let start ← (← j.member? "start").natural?
  let stop ← (← j.member? "end").natural?
  let line ← (← j.member? "line").natural?
  let column ← (← j.member? "column").natural?
  return ⟨start, stop, line, column⟩

end Span

/-- A type whose values have names, given with all its values. -/
def named? {α : Type} (all : List α) (name : α → String) (j : Json) : Option α :=
  j.text?.bind fun s => all.find? (name · == s)

namespace UnaryOp

def all : List UnaryOp := [.neg, .plus, .not, .bitNot, .typeof, .void]

def name : UnaryOp → String
  | .neg => "Neg"
  | .plus => "Plus"
  | .not => "Not"
  | .bitNot => "BitNot"
  | .typeof => "Typeof"
  | .void => "Void"

end UnaryOp

namespace BinaryOp

def name : BinaryOp → String
  | .add => "Add"
  | .sub => "Sub"
  | .mul => "Mul"
  | .div => "Div"
  | .rem => "Rem"
  | .pow => "Pow"
  | .eq => "Eq"
  | .notEq => "NotEq"
  | .strictEq => "StrictEq"
  | .strictNotEq => "StrictNotEq"
  | .lt => "Lt"
  | .le => "Le"
  | .gt => "Gt"
  | .ge => "Ge"
  | .shl => "Shl"
  | .shr => "Shr"
  | .ushr => "UShr"
  | .bitAnd => "BitAnd"
  | .bitOr => "BitOr"
  | .bitXor => "BitXor"
  | .isIn => "In"
  | .instanceOf => "Instanceof"

end BinaryOp

namespace LogicalOp

def all : List LogicalOp := [.and, .or, .nullish]

def name : LogicalOp → String
  | .and => "And"
  | .or => "Or"
  | .nullish => "Nullish"

end LogicalOp

namespace UpdateOp

def all : List UpdateOp := [.increment, .decrement]

def name : UpdateOp → String
  | .increment => "Increment"
  | .decrement => "Decrement"

end UpdateOp

namespace AssignOp

def all : List AssignOp :=
  [.plain, .add, .sub, .mul, .pow, .div, .rem, .shl, .shr, .ushr, .bitAnd, .bitOr, .bitXor]

def name (op : AssignOp) : String :=
  match op.binary? with
  | none => "Assign"
  | some op => op.name

end AssignOp

namespace Literal

def toJson : Literal → Json
  | .undefined => .string "Undefined"
  | .null => .string "Null"
  | .bool b => .variant "Bool" (.bool b)
  | .number x => .variant "Number" (.finite x)
  | .string s => .variant "String" (.string s)

def ofJson? (j : Json) : Option Literal :=
  match j.variant? with
  | some ("Bool", data) => data.bool?.map .bool
  | some ("Number", data) => data.float?.map .number
  | some ("String", data) => data.text?.map .string
  | some _ => none
  | none =>
    if j.text? = some "Undefined" then some .undefined
    else if j.text? = some "Null" then some .null
    else none

end Literal

namespace Expr

/-- An expression from its kind and its span. -/
def record (kind : Json) (span : Span) : Json :=
  .object [("kind", kind), ("span", span.toJson)]

mutual

def toJson : Expr → Json
  | .literal value s => record (.variant "Literal" value.toJson) s
  | .identifier name s => record (.variant "Identifier" (.string name)) s
  | .array items s => record (.variant "Array" (.array (toJsonItems items))) s
  | .object ps s => record (.variant "Object" (.array (toJsonProperties ps))) s
  | .member base key optional s =>
    record (.variant "Member" (.object [("object", base.toJson), ("property", keyToJson key),
      ("optional", .bool optional)])) s
  | .call callee arguments optional s =>
    record (.variant "Call" (.object [("callee", callee.toJson),
      ("arguments", .array (toJsonItems arguments)), ("optional", .bool optional)])) s
  | .unary op argument s =>
    record (.variant "Unary" (.object [("op", .string op.name),
      ("argument", argument.toJson)])) s
  | .binary op left right s =>
    record (.variant "Binary" (.object [("op", .string op.name), ("left", left.toJson),
      ("right", right.toJson)])) s
  | .logical op left right s =>
    record (.variant "Logical" (.object [("op", .string op.name), ("left", left.toJson),
      ("right", right.toJson)])) s
  | .conditional test consequent alternate s =>
    record (.variant "Conditional" (.object [("test", test.toJson),
      ("consequent", consequent.toJson), ("alternate", alternate.toJson)])) s
  | .assign op target value s =>
    record (.variant "Assign" (.object [("op", .string op.name), ("target", target.toJson),
      ("value", value.toJson)])) s
  | .update op before argument s =>
    record (.variant "Update" (.object [("op", .string op.name), ("prefix", .bool before),
      ("argument", argument.toJson)])) s

def keyToJson : Key → Json
  | .named name => .variant "Static" (.string name)
  | .computed e => .variant "Computed" e.toJson

def propertyToJson : Property → Json
  | .mk key value => .object [("key", keyToJson key), ("value", value.toJson)]

def toJsonItems : List Expr → List Json
  | [] => []
  | e :: rest => e.toJson :: toJsonItems rest

def toJsonProperties : List Property → List Json
  | [] => []
  | p :: rest => propertyToJson p :: toJsonProperties rest

end

/-- Reads the key of a member or a property with a reader of expressions. -/
def key? (expr? : Json → Option Expr) (j : Json) : Option Key :=
  match j.variant? with
  | some ("Static", data) => data.text?.map .named
  | some ("Computed", data) => (expr? data).map .computed
  | _ => none

def property? (expr? : Json → Option Expr) (j : Json) : Option Property := do
  let key ← key? expr? (← j.member? "key")
  let value ← expr? (← j.member? "value")
  return .mk key value

/-- Reads a kind with a reader of the expressions inside it. -/
def kind? (expr? : Json → Option Expr) (kind : Json) (s : Span) : Option Expr := do
  let (name, data) ← kind.variant?
  let sub (field : String) : Option Expr := (data.member? field).bind expr?
  let flag (field : String) : Option Bool := (data.member? field).bind Json.bool?
  match name with
  | "Literal" => return .literal (← Literal.ofJson? data) s
  | "Identifier" => return .identifier (← data.text?) s
  | "Array" => return .array (← data.list? expr?) s
  | "Object" => return .object (← data.list? (property? expr?)) s
  | "Member" =>
    let key ← key? expr? (← data.member? "property")
    return .member (← sub "object") key (← flag "optional") s
  | "Call" =>
    let arguments ← (← data.member? "arguments").list? expr?
    return .call (← sub "callee") arguments (← flag "optional") s
  | "Unary" =>
    let op ← named? UnaryOp.all UnaryOp.name (← data.member? "op")
    return .unary op (← sub "argument") s
  | "Binary" =>
    let op ← named? BinaryOp.all BinaryOp.name (← data.member? "op")
    return .binary op (← sub "left") (← sub "right") s
  | "Logical" =>
    let op ← named? LogicalOp.all LogicalOp.name (← data.member? "op")
    return .logical op (← sub "left") (← sub "right") s
  | "Conditional" =>
    return .conditional (← sub "test") (← sub "consequent") (← sub "alternate") s
  | "Assign" =>
    let op ← named? AssignOp.all AssignOp.name (← data.member? "op")
    return .assign op (← sub "target") (← sub "value") s
  | "Update" =>
    let op ← named? UpdateOp.all UpdateOp.name (← data.member? "op")
    return .update op (← flag "prefix") (← sub "argument") s
  | _ => none

/-- Reads expressions nested less deep than the bound. -/
def within? : Nat → Json → Option Expr
  | 0, _ => none
  | bound + 1, j => do
    let span ← Span.ofJson? (← j.member? "span")
    kind? (within? bound) (← j.member? "kind") span

def ofJson? (j : Json) : Option Expr := within? (j.depth + 1) j

end Expr

end PromptTemplate
