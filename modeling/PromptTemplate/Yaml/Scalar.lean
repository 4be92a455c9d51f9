import PromptTemplate.Number.Reading
import PromptTemplate.Yaml.Cursor

/-!
# The texts of YAML scalars

A text that runs over several lines is folded: a single line break becomes a space, and
of several the first is dropped. A literal block keeps its breaks. Each reader returns
the text with the cursor behind it, or nothing if the text is malformed.
-/

namespace PromptTemplate.Yaml

/-! ## Gaps -/

/-- Blanks and line breaks inside a text. -/
structure Gap where
  /-- The blanks before the first break. -/
  blanks : List Char
  /-- Whether a line ends in the gap. -/
  broken : Bool
  first : Option Char
  others : List Char

namespace Gap

def none : Gap := ⟨[], false, .none, []⟩

/-- A gap that begins with an escaped line break, which stands for nothing. -/
def escaped : Gap := ⟨[], true, .none, []⟩

/-- What a gap stands for. -/
def text (g : Gap) : List Char :=
  if !g.broken then g.blanks
  else
    match g.first with
    | .none => g.others
    | some b =>
      if b = '\n' then if g.others.isEmpty then [' '] else g.others
      else b :: g.others

end Gap

/-- Reads a gap. After a line break tabs may not stand left of the margin. -/
def readGap (margin : Nat) (g : Gap) (c : Cursor) : Option (Gap × Cursor) :=
  match _h : c.newLine? with
  | some (b, d) =>
    if g.broken then readGap margin { g with others := g.others ++ [b] } d
    else readGap margin ⟨[], true, some b, []⟩ d
  | none =>
    match _h : c.rest with
    | [] => some (g, c)
    | b :: _ =>
      if !isGap b then some (g, c)
      else if !g.broken then readGap margin { g with blanks := g.blanks ++ [b] } (c.skip 1)
      else if b = '\t' ∧ c.column < margin then none
      else readGap margin g (c.skip 1)
termination_by c.rest.length
decreasing_by
  · exact Cursor.length_rest_newLine? _h
  · exact Cursor.length_rest_newLine? _h
  · simp_all [Cursor.skip]
  · simp_all [Cursor.skip]

/-! ## Plain scalars -/

/-- The characters of a plain scalar up to the next gap or mark. In brackets a colon
that touches a mark is malformed. -/
def plainWord (flow : Bool) : List Char → Option (List Char)
  | [] => some []
  | c :: cs =>
    if isGap c || isBreak c || (flow && isFlowMark c) then some []
    else if c = ':' then
      if flow && cs.head?.any fun d => isFlowMark d || d == '?' then none
      else if isSeparated cs then some []
      else (plainWord flow cs).map (c :: ·)
    else (plainWord flow cs).map (c :: ·)

/-- Reads a plain scalar from one of its words, which has a gap before it. The last
result tells whether the scalar ends with a line break. -/
def plainFrom (flow : Bool) (margin : Nat) (g : Gap) (c : Cursor) :
    Option (List Char × Cursor × Bool) :=
  if c.isDocumentMark ∨ c.rest.head? = some '#' then some ([], c, g.broken)
  else
    match plainWord flow c.rest with
    | none => none
    | some [] => some ([], c, g.broken)
    | some word =>
      let after := c.skip word.length
      if !(after.rest.head?.any fun b => isGap b || isBreak b) then
        some (g.text ++ word, after, false)
      else
        match readGap margin Gap.none after with
        | none => none
        | some (next, d) =>
          if !flow && d.column < margin then some (g.text ++ word, d, next.broken)
          else if _h : d.rest.length < c.rest.length then
            (plainFrom flow margin next d).map fun (more, e, broken) =>
              (g.text ++ word ++ more, e, broken)
          else none
termination_by c.rest.length

def plain? (flow : Bool) (margin : Nat) (c : Cursor) : Option (List Char × Cursor × Bool) :=
  plainFrom flow margin Gap.none c

/-! ## Quoted scalars -/

/-- The character that an escaped character stands for. -/
def escaped? (c : Char) : Option Char :=
  match c with
  | '0' => some (Char.ofNat 0x00)
  | 'a' => some (Char.ofNat 0x07)
  | 'b' => some (Char.ofNat 0x08)
  | 't' => some '\t'
  | '\t' => some '\t'
  | 'n' => some '\n'
  | 'v' => some (Char.ofNat 0x0B)
  | 'f' => some (Char.ofNat 0x0C)
  | 'r' => some '\r'
  | 'e' => some (Char.ofNat 0x1B)
  | ' ' => some ' '
  | '"' => some '"'
  | '/' => some '/'
  | '\\' => some '\\'
  | 'N' => some (Char.ofNat 0x85)
  | '_' => some (Char.ofNat 0xA0)
  | 'L' => some (Char.ofNat 0x2028)
  | 'P' => some (Char.ofNat 0x2029)
  | _ => none

/-- The number of hexadecimal digits after an escaped letter. -/
def escapeDigits (c : Char) : Nat :=
  match c with
  | 'x' => 2
  | 'u' => 4
  | 'U' => 8
  | _ => 0

/-- The character of an escape by number. -/
def numbered? (count : Nat) (cs : List Char) : Option Char :=
  let digits := cs.take count
  if digits.length < count || !digits.all (Number.isDigitOf 16) then none
  else
    let n := Number.ofDigits 16 digits
    if n.isValidChar then some (Char.ofNat n) else none

/-- The characters of a quoted scalar up to a gap, the closing quote or an escaped line
break, with how many characters they take up and whether such a break follows. -/
def quotedWord (quote : Char) (cs : List Char) : Option (List Char × Nat × Bool) :=
  match cs with
  | [] => some ([], 0, false)
  | c :: more =>
    if isGap c || isBreak c then some ([], 0, false)
    else if c = quote then
      if quote = '\'' ∧ more.head? = some quote then
        (quotedWord quote (more.drop 1)).map fun (text, n, b) => (quote :: text, n + 2, b)
      else some ([], 0, false)
    else if quote = '"' ∧ c = '\\' then
      match more with
      | [] => none
      | e :: rest =>
        if isBreak e then some ([], 1, true)
        else if escapeDigits e = 0 then
          match escaped? e with
          | none => none
          | some d => (quotedWord quote rest).map fun (text, n, b) => (d :: text, n + 2, b)
        else
          match numbered? (escapeDigits e) rest with
          | none => none
          | some d =>
            (quotedWord quote (rest.drop (escapeDigits e))).map fun (text, n, b) =>
              (d :: text, n + 2 + escapeDigits e, b)
    else (quotedWord quote more).map fun (text, n, b) => (c :: text, n + 1, b)
termination_by cs.length
decreasing_by all_goals simp only [List.length_drop, List.length_cons]; omega

/-- Reads a quoted scalar after its opening quote. -/
def quoted? (quote : Char) (c : Cursor) : Option (List Char × Cursor) :=
  if c.isDocumentMark then none
  else
    match quotedWord quote c.rest with
    | none => none
    | some (word, n, escapedBreak) =>
      let stopped := c.skip n
      let (g, after) :=
        match escapedBreak, stopped.newLine? with
        | true, some (_, d) => (Gap.escaped, d)
        | _, _ => (Gap.none, stopped)
      if after.rest.head? = some quote then some (word, after.skip 1)
      else
        match readGap 0 g after with
        | none => none
        | some (g, d) =>
          if _h : d.rest.length < c.rest.length then
            (quoted? quote d).map fun (more, e) => (word ++ g.text ++ more, e)
          else none
termination_by c.rest.length

/-! ## Block scalars -/

/-- What becomes of the line breaks at the end of a block. -/
inductive Chomp where
  | strip
  | clip
  | keep
deriving DecidableEq, Repr

/-- The header of a block: an indentation and a chomping mark in either order. -/
def blockHeader? (cs : List Char) : Option (Option Nat × Chomp × Nat) :=
  let chomp? (c : Char) : Option Chomp :=
    if c = '+' then some .keep else if c = '-' then some .strip else none
  let digit? (c : Char) : Option Nat := if c.isDigit then some (Number.digitValue c) else none
  let (width, chomp, n) :=
    match cs.head?.bind chomp?, cs.head?.bind digit? with
    | some k, _ =>
      match (cs.drop 1).head?.bind digit? with
      | some w => (some w, k, 2)
      | none => (none, k, 1)
    | none, some w =>
      match (cs.drop 1).head?.bind chomp? with
      | some k => (some w, k, 2)
      | none => (some w, .clip, 1)
    | none, none => (none, .clip, 0)
  if width = some 0 then none else some (width, chomp, n)

/-- Reads the indentation of a line and the empty lines before it, up to the given
width if there is one. The result has the breaks, the greatest column and the cursor. -/
def indentation? (width : Option Nat) (c : Cursor) : Option (List Char × Nat × Cursor) :=
  let spaces := (c.rest.takeWhile (· == ' ')).length
  let d := c.skip (match width with | none => spaces | some w => min spaces (w - c.column))
  if (width.all fun w => d.column < w) && d.rest.head? == some '\t' then none
  else
    match d.newLine? with
    | none => some ([], d.column, d)
    | some (b, e) =>
      if _h : e.rest.length < c.rest.length then
        (indentation? width e).map fun (breaks, most, f) => (b :: breaks, max d.column most, f)
      else none
termination_by c.rest.length

/-- Reads the lines of a block; `lead` is the break before the current line, `others`
are the breaks of the empty lines after it, and `indented` tells whether the line before
begins with a blank. Returned are the text and the breaks after its last line. -/
def blockLines? (folding : Bool) (width : Nat) (lead others : List Char) (indented : Bool)
    (c : Cursor) : Option (List Char × List Char × List Char × Cursor) :=
  if c.column ≠ width ∨ c.rest.isEmpty then some ([], lead, others, c)
  else
    let blank := c.rest.head?.any isGap
    let joint :=
      if folding && lead == ['\n'] && !indented && !blank then
        if others.isEmpty then [' '] else others
      else lead ++ others
    let line := c.rest.takeWhile fun b => !isBreak b
    let ended := c.skip line.length
    let (lead, d) :=
      match ended.newLine? with
      | some (b, d) => ([b], d)
      | none => ([], ended)
    match indentation? (some width) d with
    | none => none
    | some (others, _, e) =>
      if _h : e.rest.length < c.rest.length then
        (blockLines? folding width lead others blank e).map fun (more, tail) =>
          (joint ++ line ++ more, tail)
      else none
termination_by c.rest.length

/-- Reads a block after its opening mark. Its lines are indented at least to the margin,
unless its header says by how much. -/
def block? (folding : Bool) (margin : Nat) (c : Cursor) : Option (List Char × Cursor) := do
  let (width, chomp, n) ← blockHeader? c.rest
  let spaced := (c.skip n).skipWhile isGap
  let ended :=
    if spaced.rest.head? = some '#' then spaced.skipWhile (!isBreak ·) else spaced
  let first ←
    match ended.newLine? with
    | some (_, d) => some d
    | none => if ended.rest.isEmpty then some ended else none
  let wanted := width.map (margin - 1 + ·)
  let (breaks, most, d) ← indentation? wanted first
  let (body, lead, others, e) ←
    blockLines? folding (wanted.getD (max most (max margin 1))) [] breaks false d
  let tail :=
    match chomp with
    | .strip => []
    | .clip => lead
    | .keep => lead ++ others
  return (body ++ tail, e)

end PromptTemplate.Yaml
