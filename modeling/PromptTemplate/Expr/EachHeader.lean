import PromptTemplate.Expr.Parser

/-!
# Headers of each blocks

A header is an expression, the word `as`, the name of the element and perhaps, after a
comma, the name of the index. The word that counts is the last `as` outside all
brackets, so the expression may use `as` as a name too.
-/

namespace PromptTemplate

structure EachHeader where
  expression : Expr
  context : String
  index : Option String

namespace EachHeader

/-- How many brackets are open after a token. -/
def depthAfter (depth : Nat) : Token.Kind → Nat
  | .mark .leftParen | .mark .leftBracket | .mark .leftBrace => depth + 1
  | .mark .rightParen | .mark .rightBracket | .mark .rightBrace => depth - 1
  | _ => depth

/-- Cuts a list at its last `as` outside brackets. -/
def cut? (depth : Nat) : List Token → Option (List Token × Token × List Token)
  | [] => none
  | t :: ts =>
    match cut? (depthAfter depth t.kind) ts with
    | some (front, word, back) => some (t :: front, word, back)
    | none => if t.kind = .identifier "as" ∧ depth = 0 then some ([], t, ts) else none

/-- Reads the names after the word; errors without a token of their own are placed at
the header. -/
def bindings (header : Span) : List Token → Except Error (String × Option String)
  | [] => .error (Cause.eachBindings.on header)
  | ⟨.identifier context, _⟩ :: [] => .ok (context, none)
  | ⟨.identifier _, _⟩ :: ⟨.mark .comma, _⟩ :: [] => .error (Cause.eachBindings.on header)
  | ⟨.identifier context, _⟩ :: ⟨.mark .comma, _⟩ :: ⟨.identifier index, _⟩ :: [] =>
    .ok (context, some index)
  | ⟨.identifier _, _⟩ :: ⟨.mark .comma, _⟩ :: ⟨.identifier _, _⟩ :: t :: _ =>
    .error (Cause.eachBindings.on t.span)
  | ⟨.identifier _, _⟩ :: ⟨.mark .comma, _⟩ :: t :: _ => .error (Cause.eachBindings.on t.span)
  | ⟨.identifier _, _⟩ :: t :: _ => .error (Cause.eachBindings.on t.span)
  | t :: _ => .error (Cause.eachBindings.on t.span)

/-- Reads the tokens of a header, which stands at the given place. -/
def ofTokens (ts : List Token) (header : Span) : Except Error EachHeader :=
  match cut? 0 ts with
  | none => .error (Cause.eachWithoutAs.on header)
  | some (front, word, back) => do
    let (context, index) ← bindings header (back.filter (!·.kind.isEnd))
    let expression ← Expr.ofTokens (front ++ [⟨.inputEnd, word.span⟩])
    return ⟨expression, context, index⟩

end EachHeader

end PromptTemplate
