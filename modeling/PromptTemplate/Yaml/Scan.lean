import PromptTemplate.Yaml.Property
import PromptTemplate.Yaml.Scalar

/-!
# Reading YAML tokens

Outside of brackets, structure is told by columns: a line that begins left of open block
collections ends them, and an item or a key to the right of all of them begins a new one.
Whether a word is a key shows only at the colon behind it. So the place of every word
that may be one is remembered, as a candidate, and the tokens that belong before the key
are put there afterwards. A candidate expires with its line or after 1024 bytes; if
it stands where only a key can stand, that is an error.
-/

namespace PromptTemplate.Yaml

/-- A place where a key may have begun. -/
structure Candidate where
  /-- Only a key can stand here. -/
  required : Bool
  /-- The number of tokens before it. -/
  before : Nat
  offset : Nat
  line : Nat
  column : Nat

structure Scan where
  cursor : Cursor
  /-- The tokens so far, the last one first. -/
  tokens : List Token
  /-- The columns of the open block collections, the innermost first. -/
  indents : List Nat
  /-- Whether a key may begin here. -/
  fresh : Bool
  candidate : Option Candidate
  /-- The candidates outside of each open bracket, the innermost first. -/
  outer : List (Option Candidate)

namespace Scan

def start (cs : List Char) : Scan := ⟨Cursor.start cs, [], [], true, none, []⟩

def inFlow (s : Scan) : Bool := !s.outer.isEmpty

/-- The least column of what belongs to the innermost block collection. -/
def margin (s : Scan) : Nat :=
  match s.indents with
  | [] => 0
  | n :: _ => n + 1

def emit (s : Scan) (t : Token) : Scan := { s with tokens := t :: s.tokens }

/-- Passes some characters that make a token. -/
def emitMark (s : Scan) (t : Token) (n : Nat) : Scan :=
  { s with tokens := t :: s.tokens, cursor := s.cursor.skip n }

/-! ## Candidates -/

def Candidate.isExpired (k : Candidate) (c : Cursor) : Bool :=
  k.line < c.line || k.offset + 1024 < c.offset

/-- Forgets a candidate that has expired. -/
def expire? (c : Cursor) : Option Candidate → Option (Option Candidate)
  | none => some none
  | some k =>
    if !Candidate.isExpired k c then some (some k)
    else if k.required then none
    else some none

def expireAll? (s : Scan) : Option Scan := do
  let candidate ← expire? s.cursor s.candidate
  let outer ← s.outer.mapM (expire? s.cursor)
  return { s with candidate := candidate, outer := outer }

/-- Gives up the candidate. -/
def dismiss? (s : Scan) : Option Scan :=
  if s.candidate.any (·.required) then none else some { s with candidate := none }

/-- Makes this place the candidate, if a key may begin here. -/
def propose? (s : Scan) : Option Scan :=
  if !s.fresh then some s
  else
    let c := s.cursor
    (dismiss? s).map fun s =>
      let required := !s.inFlow && s.indents.head? == some c.column
      { s with candidate := some ⟨required, s.tokens.length, c.offset, c.line, c.column⟩ }

/-! ## Block collections -/

/-- Ends the innermost block collections, as far as their columns fit. -/
def close (s : Scan) (fits : Nat → Bool) : Scan :=
  if s.inFlow then s
  else
    let closed := (s.indents.takeWhile fits).length
    { s with
      indents := s.indents.drop closed
      tokens := List.replicate closed .blockEnd ++ s.tokens }

/-- Puts a token behind the first tokens, of which the number is given. -/
def insert (s : Scan) (before : Nat) (t : Token) : Scan :=
  let later := s.tokens.length - before
  { s with tokens := s.tokens.take later ++ t :: s.tokens.drop later }

/-- Begins a block collection at a column, if it lies right of all others. -/
def enter (s : Scan) (column before : Nat) (t : Token) : Scan :=
  if s.inFlow || column < s.margin then s
  else { s.insert before t with indents := column :: s.indents }

def enterHere (s : Scan) (t : Token) : Scan :=
  s.enter s.cursor.column s.tokens.length t

/-! ## Tokens -/

def documentMark? (s : Scan) (t : Token) : Option Scan :=
  (s.close fun _ => true).dismiss?.map fun s => { s.emitMark t 3 with fresh := false }

def directiveLine? (s : Scan) : Option Scan := do
  let s ← (s.close fun _ => true).dismiss?
  let (t, c) ← directive? (s.cursor.skip 1)
  return { s.emit t with cursor := c, fresh := false }

def openBracket? (s : Scan) (t : Token) : Option Scan :=
  s.propose?.map fun s =>
    { s.emitMark t 1 with outer := s.candidate :: s.outer, candidate := none, fresh := true }

def closeBracket? (s : Scan) (t : Token) : Option Scan :=
  s.dismiss?.map fun s =>
    { s.emitMark t 1 with
      candidate := s.outer.head?.getD none, outer := s.outer.tail, fresh := false }

def commaMark? (s : Scan) : Option Scan :=
  s.dismiss?.map fun s => { s.emitMark .comma 1 with fresh := true }

def itemMark? (s : Scan) : Option Scan :=
  if !s.inFlow && !s.fresh then none
  else
    (s.enterHere .blockSequence).dismiss?.map fun s =>
      { s.emitMark .item 1 with fresh := true }

def keyMark? (s : Scan) : Option Scan :=
  if !s.inFlow && !s.fresh then none
  else
    (s.enterHere .blockMapping).dismiss?.map fun s =>
      { s.emitMark .key 1 with fresh := !s.inFlow }

/-- A colon makes the candidate a key. -/
def valueMark? (s : Scan) : Option Scan :=
  match s.candidate with
  | some k =>
    let s := (s.insert k.before .key).enter k.column k.before .blockMapping
    some { s.emitMark .value 1 with candidate := none, fresh := false }
  | none =>
    if !s.inFlow && !s.fresh then none
    else
      let s := s.enterHere .blockMapping
      some { s.emitMark .value 1 with fresh := !s.inFlow }

def anchorMark? (s : Scan) (t : String → Token) : Option Scan := do
  let s ← s.propose?
  let name ← anchorName? (s.cursor.rest.drop 1)
  return { s.emitMark (t (String.ofList name)) (name.length + 1) with fresh := false }

def tagMark? (s : Scan) : Option Scan := do
  let s ← s.propose?
  let (t, c) ← tag? s.inFlow s.cursor
  return { s.emit t with cursor := c, fresh := false }

def blockScalar? (s : Scan) (folding : Bool) : Option Scan := do
  let s ← s.dismiss?
  let (text, c) ← block? folding s.margin (s.cursor.skip 1)
  let style := if folding then Style.folded else Style.literal
  return { s.emit (.scalar style (String.ofList text)) with cursor := c, fresh := true }

def quotedScalar? (s : Scan) (quote : Char) : Option Scan := do
  let s ← s.propose?
  let (text, c) ← quoted? quote (s.cursor.skip 1)
  return { s.emit (.scalar .quoted (String.ofList text)) with cursor := c, fresh := false }

def plainScalar? (s : Scan) : Option Scan := do
  let s ← s.propose?
  let (text, c, broken) ← plain? s.inFlow s.margin s.cursor
  return { s.emit (.scalar .plain (String.ofList text)) with cursor := c, fresh := broken }

/-- The characters that begin something other than a plain scalar. -/
def isIndicator (c : Char) : Bool :=
  "-?:,[]\x7b\x7d#&*!|>'\"%@`".toList.contains c

/-- Whether a plain scalar may begin with a character. -/
def beginsPlain (s : Scan) (c : Char) (next : List Char) : Bool :=
  !(isGap c || isBreak c || isIndicator c)
    || (c == '-' && !next.head?.any isGap)
    || (!s.inFlow && (c == '?' || c == ':') && !isSeparated next)

/-- Reads the token that begins with a character. -/
def fetch? (s : Scan) (c : Char) (next : List Char) : Option Scan :=
  if s.cursor.column = 0 ∧ c = '%' then s.directiveLine?
  else if s.cursor.isMark '-' then s.documentMark? .documentStart
  else if s.cursor.isMark '.' then s.documentMark? .documentEnd
  else if c = '[' then s.openBracket? .flowSequence
  else if c = '\x7b' then s.openBracket? .flowMapping
  else if c = ']' then s.closeBracket? .flowSequenceEnd
  else if c = '\x7d' then s.closeBracket? .flowMappingEnd
  else if c = ',' then s.commaMark?
  else if c = '-' ∧ isSeparated next then s.itemMark?
  else if c = '?' ∧ (s.inFlow ∨ isSeparated next) then s.keyMark?
  else if c = ':' ∧ (s.inFlow ∨ isSeparated next) then s.valueMark?
  else if c = '*' then s.anchorMark? .aliased
  else if c = '&' then s.anchorMark? .anchor
  else if c = '!' then s.tagMark?
  else if c = '|' ∧ !s.inFlow then s.blockScalar? false
  else if c = '>' ∧ !s.inFlow then s.blockScalar? true
  else if c = '\'' ∨ c = '"' then s.quotedScalar? c
  else if s.beginsPlain c next then s.plainScalar?
  else none

/-! ## All tokens -/

/-- Passes blanks, comments and line breaks. Tabs are not blanks where a key may begin;
outside of brackets a key may begin on each new line. -/
def skipSpace (s : Scan) : Scan :=
  let c := s.cursor
  let c := if c.column = 0 ∧ c.rest.head? = some (Char.ofNat 0xFEFF) then c.skip 1 else c
  let c := c.skipWhile fun b => b == ' ' || (b == '\t' && (s.inFlow || !s.fresh))
  let c := if c.rest.head? = some '#' then c.skipWhile (!isBreak ·) else c
  match c.newLine? with
  | none => { s with cursor := c }
  | some (_, d) =>
    if _h : d.rest.length < s.cursor.rest.length then
      skipSpace { s with cursor := d, fresh := s.fresh || !s.inFlow }
    else { s with cursor := d }
termination_by s.cursor.rest.length

def run? (s : Scan) : Option (List Token) := do
  let t ← s.skipSpace.expireAll?
  let t := t.close (t.cursor.column < ·)
  match t.cursor.rest with
  | [] => (t.close fun _ => true).dismiss?.map (·.tokens.reverse)
  | c :: next =>
    let u ← t.fetch? c next
    if _h : u.cursor.rest.length < s.cursor.rest.length then run? u else none
termination_by s.cursor.rest.length

end Scan

/-- The tokens of a text, or nothing if it is malformed. -/
def tokens? (cs : List Char) : Option (List Token) :=
  if cs.all isAllowed then (Scan.start cs).run? else none

end PromptTemplate.Yaml
