import PromptTemplate.Json.Basic
import PromptTemplate.Number.Reading
import PromptTemplate.Yaml.Document

/-!
# What scalars mean

A plain scalar without a tag is null, a boolean or a number if it is written like one,
and a string if not. Integers come in four bases; decimal digits after a zero are no
number. An integer that is too large for the range of integers is an error as long as it
fits into 128 bits, and a double beyond.
-/

namespace PromptTemplate.Yaml

def isNull (text : String) : Bool :=
  ["null", "Null", "NULL", "~"].contains text

def bool? (text : String) : Option Bool :=
  if ["true", "True", "TRUE"].contains text then some true
  else if ["false", "False", "FALSE"].contains text then some false
  else none

/-- Digits behind a zero. -/
def isPadded (cs : List Char) : Bool :=
  let ds := (Number.signed cs).2
  1 < ds.length && ds.head? == some '0' && ds.all Char.isDigit

/-- Digits of a base that name a number up to a limit. -/
def digits? (base limit : Nat) (cs : List Char) : Option Nat :=
  if cs.isEmpty || !cs.all (Number.isDigitOf base) then none
  else
    let n := Number.ofDigits base cs
    if n ≤ limit then some n else none

/-- An integer without a sign, in the base that it announces. -/
def magnitude? (limit : Nat) (cs : List Char) : Option Nat :=
  match cs with
  | '0' :: 'x' :: ds => digits? 16 limit ds
  | '0' :: 'o' :: ds => digits? 8 limit ds
  | '0' :: 'b' :: ds => digits? 2 limit ds
  | _ => if isPadded cs then none else digits? 10 limit cs

def integer? (text : String) : Option Int :=
  match text.toList with
  | '-' :: cs => (magnitude? (Nat.pow 2 127) cs).map fun n => -(n : Int)
  | '+' :: cs => (magnitude? (Nat.pow 2 128 - 1) cs).map fun n => (n : Int)
  | cs => (magnitude? (Nat.pow 2 128 - 1) cs).map fun n => (n : Int)

def float? (text : String) : Option Float :=
  let cs := text.toList
  let unsigned := if cs.head? = some '+' then cs.drop 1 else cs
  if cs.head? = some '+' ∧ unsigned.head?.any fun c => c == '+' || c == '-' then none
  else if [".inf", ".Inf", ".INF"].contains (String.ofList unsigned) then
    some (Number.infinity false)
  else if ["-.inf", "-.Inf", "-.INF"].contains text then some (Number.infinity true)
  else if [".nan", ".NaN", ".NAN"].contains text then some Number.nan
  else
    match Number.decimal? unsigned with
    | some x => if x.isFinite then some x else none
    | none => none

/-- A double as JSON, which has only those that are finite. -/
def ofFloat (x : Float) : Json := if x.isFinite then .double x else .null

def ofInteger? (n : Int) : Option Json :=
  if Json.isInteger n then some (.integer n) else none

/-- The value of a plain scalar without a tag; none if it is an error. -/
def ofPlain? (text : String) : Option Json :=
  if text.isEmpty || isNull text then some .null
  else
    match bool? text with
    | some b => some (.bool b)
    | none =>
      match integer? text with
      | some n => ofInteger? n
      | none =>
        if isPadded text.toList then some (.string text)
        else
          match float? text with
          | some x => some (ofFloat x)
          | none => some (.string text)

/-- The value of a scalar. A tag asks for its kind of value, and tags of a document's
own have none. -/
def ofScalar? (tag : Option Tag) (style : Style) (text : String) : Option Json :=
  match tag with
  | some (.own _) => none
  | some .bool => (bool? text).map .bool
  | some .integer => (integer? text).bind ofInteger?
  | some .float => (float? text).map ofFloat
  | some .null => if isNull text then some .null else none
  | some .other => some (.string text)
  | none => if style = .plain then ofPlain? text else some (.string text)

end PromptTemplate.Yaml
