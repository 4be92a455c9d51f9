import PromptTemplate.Text.Position

/-!
# Characters and places of YAML text

A cursor is what is left of a text and how many bytes of its UTF-8 form, lines and columns
lie before it, all counted from zero. Two characters for one line break count as one break.
-/

namespace PromptTemplate.Yaml

/-- The characters that a document may consist of. -/
def isAllowed (c : Char) : Bool :=
  let n := c.toNat
  n == 0x09 || n == 0x0A || n == 0x0D || (0x20 ≤ n && n ≤ 0x7E) || n == 0x85
    || (0xA0 ≤ n && n ≤ 0xFFFD) || 0x10000 ≤ n

def isGap (c : Char) : Bool := c == ' ' || c == '\t'

def isBreak (c : Char) : Bool :=
  let n := c.toNat
  n == 0x0A || n == 0x0D || n == 0x85 || n == 0x2028 || n == 0x2029

/-- Whether a text ends, breaks its line or goes on with a blank. -/
def isSeparated (cs : List Char) : Bool :=
  cs.head?.all fun c => isGap c || isBreak c

def isLetter (c : Char) : Bool :=
  c.isAlphanum || c == '_' || c == '-'

/-- The characters that separate and enclose the items of a collection in brackets. -/
def isFlowMark (c : Char) : Bool :=
  c == ',' || c == '[' || c == ']' || c == '\x7b' || c == '\x7d'

/-- What a line break stands for in a text. -/
def breakText (c : Char) : Char :=
  if c.toNat = 0x2028 ∨ c.toNat = 0x2029 then c else '\n'

structure Cursor where
  rest : List Char
  offset : Nat
  line : Nat
  column : Nat

namespace Cursor

def start (cs : List Char) : Cursor := ⟨cs, 0, 0, 0⟩

/-- Passes some characters of a line. -/
def skip (c : Cursor) (n : Nat) : Cursor :=
  { c with
    rest := c.rest.drop n
    offset := c.offset + Text.byteLength (c.rest.take n)
    column := c.column + n }

/-- Passes the characters of a line as long as they fit. -/
def skipWhile (c : Cursor) (fits : Char → Bool) : Cursor :=
  c.skip (c.rest.takeWhile fits).length

/-- Passes a line break and tells what it stands for. -/
def newLine? (c : Cursor) : Option (Char × Cursor) :=
  match c.rest with
  | '\r' :: '\n' :: rest => some ('\n', ⟨rest, c.offset + 2, c.line + 1, 0⟩)
  | b :: rest =>
    if isBreak b then some (breakText b, ⟨rest, c.offset + b.utf8Size, c.line + 1, 0⟩) else none
  | [] => none

/-- Three equal characters at the beginning of a line that stand alone. -/
def isMark (c : Cursor) (mark : Char) : Bool :=
  c.column == 0 && c.rest.take 3 == [mark, mark, mark] && isSeparated (c.rest.drop 3)

/-- Whether a document starts or ends here. -/
def isDocumentMark (c : Cursor) : Bool := c.isMark '-' || c.isMark '.'

theorem length_rest_newLine? {c d : Cursor} {b : Char} (h : c.newLine? = some (b, d)) :
    d.rest.length < c.rest.length := by
  unfold newLine? at h
  split at h
  · rename_i rest hc
    obtain ⟨rfl, rfl⟩ := Prod.mk.injEq .. ▸ Option.some.inj h
    simp only [hc, List.length_cons]; omega
  · rename_i b rest _ hc
    split at h
    · obtain ⟨rfl, rfl⟩ := Prod.mk.injEq .. ▸ Option.some.inj h
      simp [hc]
    · simp at h
  · simp at h

end Cursor

end PromptTemplate.Yaml
