import PromptTemplate.Dictionary
import PromptTemplate.Number.Decimal

/-!
# JSON values

Integers and doubles are different values, as in `1` and `1.0`. An object keeps the
order of its members. The text of a value has no blanks between its parts.
-/

namespace PromptTemplate

inductive Json where
  | null
  | bool (b : Bool)
  | integer (n : Int)
  | double (x : Float)
  | string (s : String)
  | array (items : List Json)
  | object (members : List (String × Json))
deriving Inhabited

namespace Json

/-- An integer is kept exactly when it is at least minus two to the 63 and below two
to the 64. -/
def isInteger (n : Int) : Bool :=
  decide (-(Nat.pow 2 63 : Int) ≤ n ∧ n < (Nat.pow 2 64 : Int))

/-- A number as a double. -/
def float? : Json → Option Float
  | .integer n => some (Float.ofInt n)
  | .double x => some x
  | _ => none

def member? (name : String) : Json → Option Json
  | .object members => Dictionary.get? members name
  | _ => none

def text? : Json → Option String
  | .string s => some s
  | _ => none

def natural? : Json → Option Nat
  | .integer n => n.toNat?
  | _ => none

def hexDigit (n : Nat) : Char :=
  if n < 10 then Char.ofNat (n + 48) else Char.ofNat (n + 87)

/-- Quotes, backslashes and control characters are escaped, all else is written as
it is. -/
def escape (c : Char) : List Char :=
  if c = '"' then ['\\', '"']
  else if c = '\\' then ['\\', '\\']
  else if c = '\n' then ['\\', 'n']
  else if c = '\r' then ['\\', 'r']
  else if c = '\t' then ['\\', 't']
  else if c.toNat = 8 then ['\\', 'b']
  else if c.toNat = 12 then ['\\', 'f']
  else if c.toNat < 32 then
    ['\\', 'u', '0', '0', hexDigit (c.toNat / 16), hexDigit (c.toNat % 16)]
  else [c]

/-- A text that goes on with any other text. -/
abbrev Opening := List Char → List Char

def quoted (s : String) : Opening :=
  fun rest => '"' :: (s.toList.flatMap escape ++ '"' :: rest)

/-- Parts of a text with a comma between them. -/
def separated : List Opening → Opening
  | [] => id
  | [a] => a
  | a :: more => fun rest => a (',' :: separated more rest)

/-- A list or an object from the texts of its parts. -/
def bracketed (opening closing : Char) (parts : List Opening) : Opening :=
  fun rest => opening :: separated parts (closing :: rest)

/-- A member of an object from the text of its value. -/
def labelled (name : String) (value : Opening) : Opening :=
  fun rest => quoted name (':' :: value rest)

mutual

/-- The text of a value. -/
def opening : Json → Opening
  | .null => ("null".toList ++ ·)
  | .bool b => ((if b then "true" else "false").toList ++ ·)
  | .integer n => ((toString n).toList ++ ·)
  | .double x => ((if x.isFinite then Number.Layout.document.write x else "null").toList ++ ·)
  | .string s => quoted s
  | .array items => bracketed '[' ']' (itemOpenings items)
  | .object members => bracketed '\x7b' '\x7d' (memberOpenings members)

def itemOpenings : List Json → List Opening
  | [] => []
  | a :: rest => opening a :: itemOpenings rest

def memberOpenings : List (String × Json) → List Opening
  | [] => []
  | (k, a) :: rest => labelled k (opening a) :: memberOpenings rest

end

def write (j : Json) : String := String.ofList (opening j [])

end Json

end PromptTemplate
