import PromptTemplate.Error
import PromptTemplate.Number.Decimal

/-!
# Tokens

The words of expressions. A word that is always written the same way is a keyword or
a mark, and `symbol` is how it is written; the other words carry what was read. A
list of tokens ends with a terminator: the end of the input, the closing braces of a
tag, or an invalid token.
-/

namespace PromptTemplate

inductive Keyword where
  | isTrue | isFalse | null | undefined | typeof | void | isIn | instanceOf
deriving DecidableEq, Repr

namespace Keyword

def all : List Keyword :=
  [.isTrue, .isFalse, .null, .undefined, .typeof, .void, .isIn, .instanceOf]

def chars : Keyword → List Char
  | .isTrue => ['t', 'r', 'u', 'e']
  | .isFalse => ['f', 'a', 'l', 's', 'e']
  | .null => ['n', 'u', 'l', 'l']
  | .undefined => ['u', 'n', 'd', 'e', 'f', 'i', 'n', 'e', 'd']
  | .typeof => ['t', 'y', 'p', 'e', 'o', 'f']
  | .void => ['v', 'o', 'i', 'd']
  | .isIn => ['i', 'n']
  | .instanceOf => ['i', 'n', 's', 't', 'a', 'n', 'c', 'e', 'o', 'f']

def symbol (k : Keyword) : String := String.ofList k.chars

/-- The keyword that a word is. -/
def ofWord? (word : List Char) : Option Keyword :=
  all.find? (·.chars == word)

end Keyword

inductive Mark where
  | leftParen | rightParen | leftBracket | rightBracket | leftBrace | rightBrace
  | comma | colon | semicolon | dot | question | questionDot
  | plus | minus | star | starStar | slash | percent | plusPlus | minusMinus
  | lt | gt | le | ge | eqEq | notEq | eqEqEq | notEqEq
  | amp | pipe | caret | tilde | shl | shr | ushr
  | not | andAnd | orOr | questionQuestion
  | assign | plusAssign | minusAssign | starAssign | starStarAssign | slashAssign
  | percentAssign | shlAssign | shrAssign | ushrAssign | ampAssign | pipeAssign | caretAssign
deriving DecidableEq, Repr

namespace Mark

def chars : Mark → List Char
  | .leftParen => ['(']
  | .rightParen => [')']
  | .leftBracket => ['[']
  | .rightBracket => [']']
  | .leftBrace => ['{']
  | .rightBrace => ['}']
  | .comma => [',']
  | .colon => [':']
  | .semicolon => [';']
  | .dot => ['.']
  | .question => ['?']
  | .questionDot => ['?', '.']
  | .plus => ['+']
  | .minus => ['-']
  | .star => ['*']
  | .starStar => ['*', '*']
  | .slash => ['/']
  | .percent => ['%']
  | .plusPlus => ['+', '+']
  | .minusMinus => ['-', '-']
  | .lt => ['<']
  | .gt => ['>']
  | .le => ['<', '=']
  | .ge => ['>', '=']
  | .eqEq => ['=', '=']
  | .notEq => ['!', '=']
  | .eqEqEq => ['=', '=', '=']
  | .notEqEq => ['!', '=', '=']
  | .amp => ['&']
  | .pipe => ['|']
  | .caret => ['^']
  | .tilde => ['~']
  | .shl => ['<', '<']
  | .shr => ['>', '>']
  | .ushr => ['>', '>', '>']
  | .not => ['!']
  | .andAnd => ['&', '&']
  | .orOr => ['|', '|']
  | .questionQuestion => ['?', '?']
  | .assign => ['=']
  | .plusAssign => ['+', '=']
  | .minusAssign => ['-', '=']
  | .starAssign => ['*', '=']
  | .starStarAssign => ['*', '*', '=']
  | .slashAssign => ['/', '=']
  | .percentAssign => ['%', '=']
  | .shlAssign => ['<', '<', '=']
  | .shrAssign => ['>', '>', '=']
  | .ushrAssign => ['>', '>', '>', '=']
  | .ampAssign => ['&', '=']
  | .pipeAssign => ['|', '=']
  | .caretAssign => ['^', '=']

def symbol (m : Mark) : String := String.ofList m.chars

/-- All marks, the longer ones first. -/
def all : List Mark :=
  [.ushrAssign, .eqEqEq, .notEqEq, .ushr, .starStarAssign, .shlAssign, .shrAssign, .questionDot,
   .starStar, .plusPlus, .minusMinus, .le, .ge, .eqEq, .notEq, .shl, .shr, .andAnd, .orOr,
   .questionQuestion, .plusAssign, .minusAssign, .starAssign, .slashAssign, .percentAssign,
   .ampAssign, .pipeAssign, .caretAssign, .leftParen, .rightParen, .leftBracket, .rightBracket,
   .leftBrace, .rightBrace, .comma, .colon, .semicolon, .dot, .question, .plus, .minus, .star,
   .slash, .percent, .lt, .gt, .amp, .pipe, .caret, .tilde, .not, .assign]

theorem mem_all (m : Mark) : m ∈ all := by
  cases m <;> decide

/-- The longest mark that a text begins with. -/
def longest? (cs : List Char) : Option Mark :=
  all.find? (·.chars.isPrefixOf cs)

theorem chars_isPrefix {cs : List Char} {m : Mark} (h : longest? cs = some m) :
    m.chars <+: cs := by
  have fits := List.find?_some (p := fun m : Mark => m.chars.isPrefixOf cs) h
  exact List.isPrefixOf_iff_prefix.1 fits

theorem chars_ne_nil (m : Mark) : m.chars ≠ [] := by
  cases m <;> decide

end Mark

namespace Token

inductive Kind where
  | keyword (k : Keyword)
  | mark (m : Mark)
  | string (s : String)
  | number (x : Float)
  | identifier (name : String)
  /-- The two braces that close a tag. -/
  | tagEnd
  | inputEnd
  | invalid (fault : LexicalFault)
deriving DecidableEq

namespace Kind

/-- How the token is written, or what it is if it has no fixed form. -/
def symbol : Kind → String
  | .keyword k => k.symbol
  | .mark m => m.symbol
  | .string _ => "string"
  | .number _ => "number"
  | .identifier _ => "identifier"
  | .tagEnd => "\x7d\x7d"
  | .inputEnd => "end of input"
  | .invalid _ => "invalid token"

/-- How error messages show the token. -/
def display : Kind → String
  | .string s => s!"'{s}'"
  | .number x => Number.Layout.literal.write x
  | .identifier name => name
  | .invalid fault => fault.message
  | k => k.symbol

/-- Whether the token ends the input of an expression. -/
def isEnd : Kind → Bool
  | .tagEnd | .inputEnd => true
  | _ => false

/-- Whether the token is the last of a list that was read from a text. -/
def isTerminator : Kind → Bool
  | .invalid _ => true
  | k => k.isEnd

end Kind

end Token

structure Token where
  kind : Token.Kind
  span : Span
deriving DecidableEq

end PromptTemplate
