import PromptTemplate.Expr.Basic
import PromptTemplate.Value.Equality
import PromptTemplate.Value.Property

/-!
# Operators on values

Arithmetic is on numbers, except that a sum with a text or a container joins texts. Bits
are those of 32-bit integers, and a shift counts modulo 32. Two texts are ordered by
their characters, anything else by its number, and nothing that is not a number is
before, after or level with another.
-/

namespace PromptTemplate.Value

def isText : Value → Bool
  | .string _ => true
  | _ => false

def sum (a b : Value) : Value :=
  let l := a.primitive
  let r := b.primitive
  if l.isText || r.isText then .string (l.text ++ r.text)
  else .number (l.toNumber + r.toNumber)

/-- How two texts are ordered: by code points. -/
def compareTexts (s t : String) : Ordering :=
  if s < t then .lt else if s = t then .eq else .gt

/-- How two numbers are ordered, unless one of them is none. -/
def compareNumbers (x y : Float) : Option Ordering :=
  if x < y then some .lt
  else if x == y then some .eq
  else if y < x then some .gt
  else none

def compare (a b : Value) : Option Ordering :=
  match a.primitive, b.primitive with
  | .string s, .string t => some (compareTexts s t)
  | l, r => compareNumbers l.toNumber r.toNumber

/-- The number of places of a shift. -/
def shiftCount (v : Value) : UInt32 := v.toUInt32 &&& 31

/-- Whether a key is one of a container. -/
def hasKey (a b : Value) : Except Cause Value :=
  let key := a.keyText
  match b with
  | .object members => .ok (.bool (Dictionary.contains members key))
  | .array items =>
    .ok (.bool (key == "length" || (index? key).any fun i => decide (i < items.length)))
  | _ => .error (.inOperand key b.kindName)

def ofInt32 (n : Int32) : Value := .number (Float.ofInt n.toInt)

/-- Applies a binary operator. -/
def binary (op : BinaryOp) (a b : Value) : Except Cause Value :=
  match op with
  | .add => .ok (sum a b)
  | .sub => .ok (.number (a.toNumber - b.toNumber))
  | .mul => .ok (.number (a.toNumber * b.toNumber))
  | .div => .ok (.number (a.toNumber / b.toNumber))
  | .rem => .ok (.number (Number.remainder a.toNumber b.toNumber))
  | .pow => .ok (.number (Number.power a.toNumber b.toNumber))
  | .eq => .ok (.bool (looseEq a b))
  | .notEq => .ok (.bool (!looseEq a b))
  | .strictEq => .ok (.bool (strictEq a b))
  | .strictNotEq => .ok (.bool (!strictEq a b))
  | .lt => .ok (.bool ((compare a b).any Ordering.isLT))
  | .le => .ok (.bool ((compare a b).any Ordering.isLE))
  | .gt => .ok (.bool ((compare a b).any Ordering.isGT))
  | .ge => .ok (.bool ((compare a b).any Ordering.isGE))
  | .shl => .ok (ofInt32 (a.toUInt32 <<< b.shiftCount).toInt32)
  | .shr => .ok (ofInt32 (a.toInt32 >>> b.shiftCount.toInt32))
  | .ushr => .ok (.number (Float.ofNat (a.toUInt32 >>> b.shiftCount).toNat))
  | .bitAnd => .ok (ofInt32 (a.toInt32 &&& b.toInt32))
  | .bitOr => .ok (ofInt32 (a.toInt32 ||| b.toInt32))
  | .bitXor => .ok (ofInt32 (a.toInt32 ^^^ b.toInt32))
  | .isIn => hasKey a b
  | .instanceOf => .error .instanceofOperator

/-- Applies a unary operator. -/
def unary (op : UnaryOp) (v : Value) : Value :=
  match op with
  | .neg => .number (-v.toNumber)
  | .plus => .number v.toNumber
  | .not => .bool !v.isTruthy
  | .bitNot => ofInt32 (~~~v.toInt32)
  | .typeof => .string v.typeName
  | .void => .undefined

end PromptTemplate.Value
