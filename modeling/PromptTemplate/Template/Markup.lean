import PromptTemplate.Config
import PromptTemplate.Expr.EachHeader
import PromptTemplate.Template.Node
import PromptTemplate.Text.Cursor

/-!
# The parts of templates

The readers here take off what does not contain nodes: literal text, comments, the
config block, tags in braces and the opening and closing tags of elements. A backslash
makes the next character literal where it could begin markup, and an angle bracket begins
a tag only before a letter or a slash and a letter.
-/

namespace PromptTemplate.Template

open Text

/-! ## Literal text -/

def isEscapable (c : Char) : Bool :=
  c == '<' || c == '\x7b' || c == '\x7d' || c == '/' || c == '\\'

/-- Whether the name of a tag follows an opening angle bracket. -/
def beginsTag : List Char → Bool
  | '/' :: cs => cs.head?.any Char.isAlpha
  | cs => cs.head?.any Char.isAlpha

def beginsMarkup (cs : List Char) : Bool :=
  ['/', '*'].isPrefixOf cs || ['<', '!', '-', '-'].isPrefixOf cs
    || ['\x7b', '\x7b'].isPrefixOf cs || (cs.head? == some '<' && beginsTag (cs.drop 1))

/-- The literal text at the front, and how many characters it takes up. -/
def literal : List Char → List Char × Nat
  | [] => ([], 0)
  | c :: cs =>
    if c = '\\' ∧ cs.head?.any isEscapable then
      let (data, n) := literal (cs.drop 1)
      (cs.take 1 ++ data, n + 2)
    else if beginsMarkup (c :: cs) then ([], 0)
    else
      let (data, n) := literal cs
      (c :: data, n + 1)
termination_by cs => cs.length
decreasing_by all_goals simp only [List.length_drop, List.length_cons]; omega

/-- The characters before the first occurrence of a mark. -/
def before? (mark : List Char) : List Char → Option (List Char)
  | [] => if mark.isEmpty then some [] else none
  | c :: cs =>
    if mark.isPrefixOf (c :: cs) then some [] else (before? mark cs).map (c :: ·)

/-! ## Comments -/

/-- Splits a text at the characters of a kind; pieces may be empty. -/
def splitAtAll (splits : Char → Bool) : List Char → List (List Char)
  | [] => [[]]
  | c :: cs =>
    if splits c then [] :: splitAtAll splits cs
    else
      match splitAtAll splits cs with
      | [] => [[c]]
      | piece :: more => (c :: piece) :: more

/-- The codes that a comment lists after its marker. -/
def ignoredCodes (data : List Char) : List String :=
  let marker := "parley-ignore".toList
  let body := trim data
  if marker.isPrefixOf body then
    let codes := splitAtAll (fun c => c == ',' || isBlank c) (body.drop marker.length)
    (codes.filter (!·.isEmpty)).map String.ofList
  else []

/-- Reads a comment between two marks. -/
def comment (opening closing : List Char) (c : Cursor) (h : c.rest ≠ [])
    (ho : 0 < opening.length) : Except Error (Node × c.Shorter) :=
  match before? closing (c.rest.drop opening.length) with
  | none =>
    .error ((Cause.endOfInput s!"'{String.ofList closing}'").within c.offset c.finish)
  | some data =>
    let d := c.skip (opening.length + data.length + closing.length)
    .ok (.comment (String.ofList data) (ignoredCodes data) (c.span d),
      ⟨d, Cursor.length_skip_lt h (by omega)⟩)

/-! ## The config block -/

/-- Whether only blank characters follow on the first line. -/
def isFence (cs : List Char) : Bool :=
  ['-', '-', '-'].isPrefixOf cs && ((cs.drop 3).takeWhile (· ≠ '\n')).all isBlank

/-- The lines before the one that closes a config block, and the length of that line. -/
def configBody? : List Char → Option (List Char × Nat)
  | [] => none
  | c :: cs =>
    let line := (c :: cs).takeWhile (· ≠ '\n')
    if trimEnd line = ['-', '-', '-'] then some ([], line.length)
    else if line.length = (c :: cs).length then none
    else
      (configBody? ((c :: cs).drop (line.length + 1))).map fun (body, n) =>
        (line ++ '\n' :: body, n)
termination_by cs => cs.length
decreasing_by simp only [List.length_drop, List.length_cons]; omega

/-- Reads the config block that a text may begin with. -/
def configBlock (c : Cursor) : Except Error (Option Node × Cursor) :=
  let start := c.skipBlank
  if !isFence start.rest then .ok (none, c)
  else
    let opened := start.skip (((start.rest).takeWhile (· ≠ '\n')).length + 1)
    match configBody? opened.rest with
    | none =>
      .error ((Cause.endOfInput "closing '---' of the config block").within
        start.offset start.finish)
    | some (body, n) =>
      let stop := opened.skip (body.length + n)
      match Config.read (String.ofList body) with
      | .error fault => .error ((Cause.invalidConfig fault.message).on (start.span stop))
      | .ok config => .ok (some (.config config (start.span stop)), stop)

/-! ## Tags in braces -/

def isWordPart (c : Char) : Bool := c.isAlphanum || c == '_'

def word (cs : List Char) : List Char := cs.takeWhile isWordPart

/-- The tokens up to the closing braces of a tag that begins at the first cursor; the
second cursor is where its tokens begin. -/
def tagTokens (start c : Cursor) : Except Error (List Token × c.NoLonger) :=
  let scanned := Token.ofTag c.position c.rest
  match scanned.1.getLast? with
  | some ⟨.tagEnd, _⟩ =>
    .ok (scanned.1, ⟨⟨scanned.2.1, scanned.2.2⟩, Token.length_ofTag_le c.position c.rest⟩)
  | some ⟨.invalid fault, span⟩ => .error ((Cause.lexical fault).on span)
  | _ => .error ((Cause.endOfInput "'\x7d\x7d'").within start.offset start.finish)

/-- Reads the closing braces of a tag that has nothing more in it. -/
def tagEnd (start c : Cursor) : Except Error c.NoLonger := do
  let (tokens, d) ← tagTokens start c
  match tokens with
  | t :: _ :: _ => .error ((Cause.tokenInBlockTag t.kind.display).on t.span)
  | _ => return d

/-- Reads an expression in braces. -/
def mustache (c : Cursor) (h : c.rest ≠ []) : Except Error (Expr × c.Shorter) := do
  let ⟨tokens, d, hd⟩ ← tagTokens c (c.skip 2)
  let e ← Expr.ofTokens tokens
  return (e, ⟨d, Nat.lt_of_le_of_lt hd (Cursor.length_skip_lt h (by omega))⟩)

/-- What stands in braces. -/
inductive BraceTag where
  | output (expression : Expr)
  | ifOpening (condition : Expr)
  | eachOpening (header : EachHeader)
  | otherwise (condition : Option Expr)
  | closing (name : String)

/-- Reads a tag in braces. -/
def braceTag (c : Cursor) (h : c.rest ≠ []) : Except Error (BraceTag × c.Shorter) :=
  let marker := (c.skip 2).skipBlank
  let name := word (marker.rest.drop 1)
  let named := marker.skip (1 + name.length)
  have shorter : named.rest.length < c.rest.length := by
    have opened : (c.skip 2).rest.length < c.rest.length := Cursor.length_skip_lt h (by omega)
    have spaced : marker.rest.length ≤ (c.skip 2).rest.length := Cursor.length_skipWhile_le _ _
    have read : named.rest.length ≤ marker.rest.length := Cursor.length_skip_le _ _
    omega
  if marker.sees '#' then
    if name = "if".toList then do
      let ⟨tokens, d, hd⟩ ← tagTokens c named
      let condition ← Expr.ofTokens tokens
      return (.ifOpening condition, ⟨d, by omega⟩)
    else if name = "each".toList then do
      let ⟨tokens, d, hd⟩ ← tagTokens c named
      let header ← EachHeader.ofTokens tokens (c.span d)
      return (.eachOpening header, ⟨d, by omega⟩)
    else .error ((Cause.unknownBlock (String.ofList name)).on (c.span named))
  else if marker.sees ':' then
    if name ≠ "else".toList then
      .error ((Cause.unknownContinuation (String.ofList name)).on (c.span named))
    else
      let spaced := named.skipBlank
      let next := word spaced.rest
      if next = "if".toList then do
        let ⟨tokens, d, hd⟩ ← tagTokens c (spaced.skip next.length)
        let condition ← Expr.ofTokens tokens
        return (.otherwise (some condition), ⟨d, by
          have blanks : spaced.rest.length ≤ named.rest.length := Cursor.length_skipWhile_le _ _
          have read := Cursor.length_skip_le spaced next.length
          omega⟩)
      else do
        let ⟨d, hd⟩ ← tagEnd c named
        return (.otherwise none, ⟨d, by omega⟩)
  else if marker.sees '/' then do
    let ⟨d, hd⟩ ← tagEnd c named
    return (.closing (String.ofList name), ⟨d, by omega⟩)
  else do
    let (e, d) ← mustache c h
    return (.output e, d)

/-! ## Elements -/

def isTagNamePart (c : Char) : Bool := c.isAlphanum || c == '-' || c == '_'

/-- Reads a closing tag. -/
def closingTag (c : Cursor) (h : c.rest ≠ []) : Except Error (String × c.Shorter) :=
  let name := (c.rest.drop 2).takeWhile isTagNamePart
  let named := c.skip (2 + name.length)
  let spaced := named.skipBlank
  if spaced.sees '>' then
    .ok (String.ofList name, ⟨spaced.skip 1, by
      have opened : named.rest.length < c.rest.length := Cursor.length_skip_lt h (by omega)
      have blanks : spaced.rest.length ≤ named.rest.length := Cursor.length_skipWhile_le _ _
      have read := Cursor.length_skip_le spaced 1
      omega⟩)
  else .error ((Cause.malformedClosingTag (String.ofList name)).on (c.span named))

/-- The rest of a quoted value after its opening quote at the first cursor: texts and
tags in braces. -/
def quotedPieces (start : Cursor) (quote : Char) (c : Cursor) :
    Except Error (List Piece × c.NoLonger) :=
  let stops (cs : List Char) : Bool := cs.head? == some quote || ['\x7b', '\x7b'].isPrefixOf cs
  let rec run : List Char → List Char
    | [] => []
    | x :: cs => if stops (x :: cs) then [] else x :: run cs
  let data := run c.rest
  let d := c.skip data.length
  have read : d.rest.length ≤ c.rest.length := Cursor.length_skip_le _ _
  let front := if data.isEmpty then [] else [Piece.text (String.ofList data) (c.span d)]
  if h : d.rest = [] then
    .error ((Cause.endOfInput s!"closing {quote}").within start.offset start.finish)
  else if d.sees quote then
    .ok (front, ⟨d.skip 1, Nat.le_trans (Cursor.length_skip_le _ _) read⟩)
  else do
    let ⟨e, next, hn⟩ ← mustache d h
    let ⟨more, last, hl⟩ ← quotedPieces start quote next
    return (front ++ Piece.mustache e (d.span next) :: more, ⟨last, by omega⟩)
termination_by c.rest.length

def endsValue (c : Char) : Bool :=
  isBlank c || c == '>' || c == '/' || c == '"' || c == '\'' || c == '='

/-- Reads the value of an attribute: a tag in braces, a quoted text with such tags, or
a word. -/
def attributePieces (c : Cursor) : Except Error (List Piece × c.NoLonger) :=
  if h : c.rest = [] then .error ((Cause.endOfInput "attribute value").within c.offset c.offset)
  else if ['\x7b', '\x7b'].isPrefixOf c.rest then do
    let ⟨e, d, hd⟩ ← mustache c h
    return ([.mustache e (c.span d)], ⟨d, Nat.le_of_lt hd⟩)
  else if c.sees '"' || c.sees '\'' then do
    let ⟨ps, d, hd⟩ ← quotedPieces c (c.rest.headD '"') (c.skip 1)
    return (ps, ⟨d, Nat.le_trans hd (Cursor.length_skip_le _ _)⟩)
  else
    let data := c.rest.takeWhile (!endsValue ·)
    let d := c.skip data.length
    if data.isEmpty then .error (Cause.malformedAttributeValue.within c.offset (c.offset + 1))
    else .ok ([.text (String.ofList data) (c.span d)], ⟨d, Cursor.length_skip_le _ _⟩)

def isAttributeNamePart (c : Char) : Bool :=
  c.isAlphanum || c == '_' || c == '-' || c == ':' || c == '.'

/-- Reads the value of an attribute if there is one. -/
def attributeValue (c : Cursor) : Except Error (AttributeValue × c.NoLonger) :=
  let spaced := c.skipBlank
  have blanks : spaced.rest.length ≤ c.rest.length := Cursor.length_skipWhile_le _ _
  if spaced.sees '=' then do
    let valued := (spaced.skip 1).skipBlank
    have more : valued.rest.length ≤ (spaced.skip 1).rest.length :=
      Cursor.length_skipWhile_le _ _
    have mark := Cursor.length_skip_le spaced 1
    let ⟨ps, d, hd⟩ ← attributePieces valued
    return (.pieces ps, ⟨d, by omega⟩)
  else .ok (.flag, ⟨spaced, blanks⟩)

/-- Reads attributes up to the end of a tag, and tells whether the tag closes itself.
The names already used are given. -/
def attributes (used : List String) (c : Cursor) :
    Except Error (List Attribute × Bool × c.NoLonger) :=
  let d := c.skipBlank
  have blanks : d.rest.length ≤ c.rest.length := Cursor.length_skipWhile_le _ _
  if h : d.rest = [] then .error ((Cause.endOfInput "'>'").within d.offset d.offset)
  else if ['/', '>'].isPrefixOf d.rest then
    .ok ([], true, ⟨d.skip 2, Nat.le_trans (Cursor.length_skip_le _ _) blanks⟩)
  else if d.sees '>' then
    .ok ([], false, ⟨d.skip 1, Nat.le_trans (Cursor.length_skip_le _ _) blanks⟩)
  else
    let letters := d.rest.takeWhile isAttributeNamePart
    let name := String.ofList letters
    let named := d.skip letters.length
    if hn : letters.length = 0 then
      .error (Cause.malformedAttribute.within d.offset (d.offset + 1))
    else if !letters.head?.any fun x => x.isAlpha || x == '_' then
      .error (Cause.malformedAttribute.within d.offset (d.offset + 1))
    else if used.contains name then .error ((Cause.duplicateAttribute name).on (d.span named))
    else do
      have read : named.rest.length < d.rest.length := Cursor.length_skip_lt h (by omega)
      let ⟨value, e, he⟩ ← attributeValue named
      let ⟨more, closed, f, hf⟩ ← attributes (name :: used) e
      return (⟨name, value, d.span e⟩ :: more, closed, ⟨f, by omega⟩)
termination_by c.rest.length

/-- An opening tag. -/
structure Opening where
  name : String
  attributes : List Attribute
  /-- Whether the tag closes itself. -/
  closed : Bool

def openingTag (c : Cursor) (h : c.rest ≠ []) : Except Error (Opening × c.Shorter) := do
  let letters := (c.rest.drop 1).takeWhile isTagNamePart
  let named := c.skip (1 + letters.length)
  have read : named.rest.length < c.rest.length := Cursor.length_skip_lt h (by omega)
  let ⟨as, closed, d, hd⟩ ← attributes [] named
  return (⟨String.ofList letters, as, closed⟩, ⟨d, by omega⟩)

end PromptTemplate.Template
