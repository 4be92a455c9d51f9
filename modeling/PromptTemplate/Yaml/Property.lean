import PromptTemplate.Number.Reading
import PromptTemplate.Yaml.Cursor
import PromptTemplate.Yaml.Token

/-!
# Names, tags and directives

A tag is a handle and a suffix, or a whole name in angle brackets. A directive takes up
a line and declares the version of the language or the meaning of a handle.
-/

namespace PromptTemplate.Yaml

/-- The name of an anchor; what follows it must not belong to another word. -/
def anchorName? (cs : List Char) : Option (List Char) :=
  let name := cs.takeWhile isLetter
  let after := cs.drop name.length
  if name.isEmpty then none
  else if isSeparated after || after.head?.any "?:,]\x7d%@`".toList.contains then some name
  else none

/-! ## Tags -/

def isUriMark (c : Char) : Bool := ";/?:@&=+$.!~*'()".toList.contains c

/-- How many bytes a character has whose first byte is given. -/
def sequenceLength (byte : Nat) : Nat :=
  if byte < 0x80 then 1
  else if 0xC0 ≤ byte ∧ byte < 0xE0 then 2
  else if 0xE0 ≤ byte ∧ byte < 0xF0 then 3
  else if 0xF0 ≤ byte ∧ byte < 0xF8 then 4
  else 0

/-- The byte of a percent sign and two hexadecimal digits. -/
def escapedByte? : List Char → Option Nat
  | '%' :: a :: b :: _ =>
    if Number.isDigitOf 16 a && Number.isDigitOf 16 b then some (Number.ofDigits 16 [a, b])
    else none
  | _ => none

/-- Bytes that continue a character. -/
def continuation? : Nat → List Char → Option (List Nat)
  | 0, _ => some []
  | n + 1, cs => do
    let byte ← escapedByte? cs
    if 0x80 ≤ byte ∧ byte < 0xC0 then
      let more ← continuation? n (cs.drop 3)
      return byte :: more
    else none

/-- The bytes of an escaped character. -/
def escapedBytes? (cs : List Char) : Option (List Nat) := do
  let byte ← escapedByte? cs
  if sequenceLength byte = 0 then none
  else
    let more ← continuation? (sequenceLength byte - 1) (cs.drop 3)
    return byte :: more

/-- Reads a part of a tag, with how many characters it takes up. The marks of
collections belong to it only between angle brackets. -/
def uri? (bracketed : Bool) (cs : List Char) : Option (List Char × Nat) :=
  match cs with
  | [] => some ([], 0)
  | c :: more =>
    if c = '%' then
      match escapedBytes? (c :: more) with
      | none => none
      | some bytes =>
        (uri? bracketed (more.drop (3 * bytes.length - 1))).map fun (text, n) =>
          (bytes.map Char.ofNat ++ text, n + 3 * bytes.length)
    else if isLetter c || isUriMark c || (bracketed && (c == ',' || c == '[' || c == ']')) then
      (uri? bracketed more).map fun (text, n) => (c :: text, n + 1)
    else some ([], 0)
termination_by cs.length
decreasing_by all_goals simp only [List.length_drop, List.length_cons]; omega

/-- The handle at the front: a mark alone, or letters between two marks, or letters
after one. -/
def tagHandle? : List Char → Option (List Char)
  | '!' :: cs =>
    let name := cs.takeWhile isLetter
    if (cs.drop name.length).head? = some '!' then some ('!' :: name ++ ['!'])
    else some ('!' :: name)
  | _ => none

/-- Reads a tag, from its first mark. -/
def tag? (flow : Bool) (c : Cursor) : Option (Token × Cursor) := do
  let (t, d) ←
    if (c.rest.drop 1).head? = some '<' then do
      let (name, n) ← uri? true (c.rest.drop 2)
      let d := c.skip (2 + n)
      if n = 0 ∨ d.rest.head? ≠ some '>' then none
      else some (Token.tag "" (String.ofList name), d.skip 1)
    else do
      let handle ← tagHandle? c.rest
      let d := c.skip handle.length
      let (name, n) ← uri? false d.rest
      if 1 < handle.length ∧ handle.getLast? = some '!' then
        if n = 0 then none
        else some (Token.tag (String.ofList handle) (String.ofList name), d.skip n)
      else
        let suffix := handle.drop 1 ++ name
        if suffix.isEmpty then some (Token.tag "" "!", d)
        else some (Token.tag "!" (String.ofList suffix), d.skip n)
  if isSeparated d.rest || (flow && d.rest.head? == some ',') then some (t, d) else none

/-! ## Directives -/

/-- A part of a version: one to nine digits. -/
def versionPart? (c : Cursor) : Option (Nat × Cursor) :=
  let digits := c.rest.takeWhile Char.isDigit
  if digits.isEmpty ∨ 9 < digits.length then none
  else some (Number.ofDigits 10 digits, c.skip digits.length)

def versionDirective? (c : Cursor) : Option (Token × Cursor) := do
  let (major, d) ← versionPart? (c.skipWhile isGap)
  if d.rest.head? ≠ some '.' then none
  else
    let (minor, e) ← versionPart? (d.skip 1)
    return (.version major minor, e)

def handleDirective? (c : Cursor) : Option (Token × Cursor) := do
  let c := c.skipWhile isGap
  let handle ← tagHandle? c.rest
  let d := c.skip handle.length
  if (1 < handle.length ∧ handle.getLast? ≠ some '!') ∨ !d.rest.head?.any isGap then none
  else
    let e := d.skipWhile isGap
    let (meaning, n) ← uri? true e.rest
    if n = 0 ∨ !isSeparated (e.rest.drop n) then none
    else some (.handle (String.ofList handle) (String.ofList meaning), e.skip n)

/-- Reads a directive after its percent sign, up to the end of its line. -/
def directive? (c : Cursor) : Option (Token × Cursor) := do
  let name := c.rest.takeWhile isLetter
  let d := c.skip name.length
  let (t, d) ←
    if !isSeparated d.rest then none
    else if name = "YAML".toList then versionDirective? d
    else if name = "TAG".toList then handleDirective? d
    else none
  let d := d.skipWhile isGap
  let d := if d.rest.head? = some '#' then d.skipWhile (!isBreak ·) else d
  match d.newLine? with
  | some (_, e) => some (t, e)
  | none => if d.rest.isEmpty then some (t, d) else none

end PromptTemplate.Yaml
