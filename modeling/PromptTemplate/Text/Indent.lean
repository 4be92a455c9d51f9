import PromptTemplate.Text.Blank
import PromptTemplate.Text.Position

/-!
# Common indentation

`removeIndent` takes the indentation of the least indented line off every line, counted
in bytes, and trims the result. Blank lines have no say in how much is taken off. A line
that cannot be cut there, being shorter or having a character across the cut, loses all
its indentation.
-/

namespace PromptTemplate.Text

/-- The lines of a text, without the line ends; a carriage return before a line feed is
part of the line end. -/
def lines : List Char → List (List Char)
  | [] => []
  | c :: cs =>
    if c = '\n' then [] :: lines cs
    else if c = '\r' ∧ cs.head? = some '\n' then lines cs
    else
      match lines cs with
      | [] => [[c]]
      | line :: rest => (c :: line) :: rest

def isBlankLine (line : List Char) : Bool := line.all isBlank

/-- The number of bytes of blank characters at the start of a line. -/
def indentation (line : List Char) : Nat :=
  byteLength (line.takeWhile isBlank)

/-- The least indentation of the lines that are not blank. -/
def commonIndentation (ls : List (List Char)) : Nat :=
  ((ls.filter (!isBlankLine ·)).map indentation).min?.getD 0

def removeIndentation (amount : Nat) (line : List Char) : List Char :=
  match cut? line amount with
  | some (_, rest) => rest
  | none => trimStart line

def removeIndent (s : String) : String :=
  let ls := lines s.toList
  let amount := commonIndentation ls
  String.ofList (trim (List.intercalate ['\n'] (ls.map (removeIndentation amount))))

end PromptTemplate.Text
