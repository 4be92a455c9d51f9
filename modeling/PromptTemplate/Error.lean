import PromptTemplate.Text.Position

/-!
# Errors

An error is a cause and the piece of the text that it concerns. Every cause has a
code, which programs match on, and a message, which people read; both are decided
here and nowhere else. An error starts out without a place, `within` gives it one,
and `locate` finds the line and the column of its beginning in the text.
-/

namespace PromptTemplate

/-- The kinds of errors, in their fixed order. -/
inductive Code where
  | parseError
  | unexpectedEof
  | unexpectedBlockClose
  | unexpectedTagClose
  | invalidConfig
  | unknownTag
  | invalidMessageRole
  | messageTagInsideMessage
  | contentTagInsideContent
  | contentTagOutsideMessage
  | stepTagInsideMessage
  | stepTagInsideStep
  | stepTagInsideEach
  | toolMessageWithoutId
  | unsupportedContentType
  | variableNotDeclared
  | propertyNotExists
  | invalidUpdate
  | invalidAssignment
  | notAFunction
  | functionCallError
  | unsupportedOperator
  | missingStepResponse
  | didNotResolveReferences
  | referenceNotFound
  | circularReference
  | invalidReference
deriving DecidableEq, Repr

namespace Code

def all : List Code :=
  [.parseError, .unexpectedEof, .unexpectedBlockClose, .unexpectedTagClose, .invalidConfig,
   .unknownTag, .invalidMessageRole, .messageTagInsideMessage, .contentTagInsideContent,
   .contentTagOutsideMessage, .stepTagInsideMessage, .stepTagInsideStep, .stepTagInsideEach,
   .toolMessageWithoutId, .unsupportedContentType, .variableNotDeclared, .propertyNotExists,
   .invalidUpdate, .invalidAssignment, .notAFunction, .functionCallError, .unsupportedOperator,
   .missingStepResponse, .didNotResolveReferences, .referenceNotFound, .circularReference,
   .invalidReference]

def name : Code → String
  | .parseError => "parse-error"
  | .unexpectedEof => "unexpected-eof"
  | .unexpectedBlockClose => "unexpected-block-close"
  | .unexpectedTagClose => "unexpected-tag-close"
  | .invalidConfig => "invalid-config"
  | .unknownTag => "unknown-tag"
  | .invalidMessageRole => "invalid-message-role"
  | .messageTagInsideMessage => "message-tag-inside-message"
  | .contentTagInsideContent => "content-tag-inside-content"
  | .contentTagOutsideMessage => "content-tag-outside-message"
  | .stepTagInsideMessage => "step-tag-inside-message"
  | .stepTagInsideStep => "step-tag-inside-step"
  | .stepTagInsideEach => "step-tag-inside-each"
  | .toolMessageWithoutId => "tool-message-without-id"
  | .unsupportedContentType => "unsupported-content-type"
  | .variableNotDeclared => "variable-not-declared"
  | .propertyNotExists => "property-not-exists"
  | .invalidUpdate => "invalid-update"
  | .invalidAssignment => "invalid-assignment"
  | .notAFunction => "not-a-function"
  | .functionCallError => "function-call-error"
  | .unsupportedOperator => "unsupported-operator"
  | .missingStepResponse => "missing-step-response"
  | .didNotResolveReferences => "did-not-resolve-references"
  | .referenceNotFound => "reference-not-found"
  | .circularReference => "circular-reference"
  | .invalidReference => "invalid-reference"

theorem mem_all (c : Code) : c ∈ all := by
  cases c <;> decide

/-- The code that a name stands for. -/
def ofName? (s : String) : Option Code :=
  all.find? (·.name == s)

end Code

/-- Why a token cannot be read. -/
inductive LexicalFault where
  | unexpectedCharacter (c : Char)
  | arrowFunction
  | templateLiteral
  | invalidNumber (text : String)
  | unterminatedString
  | invalidEscape
deriving DecidableEq, Repr

def LexicalFault.message : LexicalFault → String
  | .unexpectedCharacter c => s!"Unexpected character: {c}"
  | .arrowFunction => "Arrow functions are not supported"
  | .templateLiteral => "Template literals are not supported"
  | .invalidNumber text => s!"Invalid number: {text}"
  | .unterminatedString => "Unterminated string"
  | .invalidEscape => "Invalid unicode escape sequence"

/-- Why a text cannot be parsed or a document cannot be compiled. The texts that a
cause carries are names, operators and values as they are shown to people. -/
inductive Cause where
  | lexical (fault : LexicalFault)
  | expectedExpression
  | unexpectedToken (found : String)
  | expectedToken (wanted found : String)
  | expectedPropertyName
  | invalidTarget
  | invalidOperand (place operator : String)
  | eachWithoutAs
  | eachBindings
  | endOfInput (wanted : String)
  | unknownBlock (name : String)
  | unknownContinuation (name : String)
  | tokenInBlockTag (found : String)
  | misplacedElseIf
  | malformedClosingTag (name : String)
  | malformedAttribute
  | duplicateAttribute (name : String)
  | malformedAttributeValue
  | misplacedElse (wanted : String)
  | misplacedBlockClose (name wanted : String)
  | misplacedTagClose (name wanted : String)
  | mismatchedTagClose (wanted found : String)
  | invalidConfig (problem : String)
  | unknownTag (name : String)
  | invalidRole (name : String)
  | messageInMessage
  | contentInContent
  | contentOutsideMessage (name : String)
  | stepInMessage
  | stepInStep
  | stepInEach
  | toolWithoutId
  | imageInSystem
  | undeclared (name : String)
  | missingProperty (name : String)
  | propertyOfNothing (name kind : String)
  | invalidUpdate (operator kind : String)
  | unassignable
  | arrayTooLong (length : Nat)
  | invalidLength
  | unassignableProperty (name kind : String)
  | notAFunction (callee : String)
  | callFailed (name problem : String)
  | inOperand (name kind : String)
  | instanceofOperator
  | missingResponse
  | unresolvedReference
  | dynamicReference
  | circularReference (path : String)
  | referenceNotFound (path : String)
  /-- A cause that is known by its code and message only. -/
  | reported (code : Code) (message : String)
deriving DecidableEq, Repr

namespace Cause

def code : Cause → Code
  | .lexical _ | .expectedExpression | .unexpectedToken _ | .expectedToken .. => .parseError
  | .expectedPropertyName | .invalidTarget | .invalidOperand .. => .parseError
  | .eachWithoutAs | .eachBindings | .unknownBlock _ | .unknownContinuation _ => .parseError
  | .tokenInBlockTag _ | .misplacedElseIf | .malformedClosingTag _ => .parseError
  | .malformedAttribute | .duplicateAttribute _ | .malformedAttributeValue => .parseError
  | .endOfInput _ => .unexpectedEof
  | .misplacedElse _ | .misplacedBlockClose .. => .unexpectedBlockClose
  | .misplacedTagClose .. | .mismatchedTagClose .. => .unexpectedTagClose
  | .invalidConfig _ => .invalidConfig
  | .unknownTag _ => .unknownTag
  | .invalidRole _ => .invalidMessageRole
  | .messageInMessage => .messageTagInsideMessage
  | .contentInContent => .contentTagInsideContent
  | .contentOutsideMessage _ => .contentTagOutsideMessage
  | .stepInMessage => .stepTagInsideMessage
  | .stepInStep => .stepTagInsideStep
  | .stepInEach => .stepTagInsideEach
  | .toolWithoutId => .toolMessageWithoutId
  | .imageInSystem => .unsupportedContentType
  | .undeclared _ => .variableNotDeclared
  | .missingProperty _ | .propertyOfNothing .. => .propertyNotExists
  | .invalidUpdate .. => .invalidUpdate
  | .unassignable | .arrayTooLong _ | .invalidLength => .invalidAssignment
  | .unassignableProperty .. => .invalidAssignment
  | .notAFunction _ => .notAFunction
  | .callFailed .. => .functionCallError
  | .inOperand .. | .instanceofOperator => .unsupportedOperator
  | .missingResponse => .missingStepResponse
  | .unresolvedReference => .didNotResolveReferences
  | .dynamicReference => .invalidReference
  | .circularReference _ => .circularReference
  | .referenceNotFound _ => .referenceNotFound
  | .reported code _ => code

def message : Cause → String
  | .lexical fault => fault.message
  | .expectedExpression => "Expected expression"
  | .unexpectedToken found => s!"Unexpected token {found}"
  | .expectedToken wanted found => s!"Expected '{wanted}' but found {found}"
  | .expectedPropertyName => "Expected property name"
  | .invalidTarget | .unassignable => "Invalid assignment target"
  | .invalidOperand place operator => s!"Invalid operand for {place} '{operator}'"
  | .eachWithoutAs => "Expected 'as' in each block"
  | .eachBindings => "Expected 'as element' or 'as element, index' in each block"
  | .endOfInput wanted => s!"Unexpected end of input, expected {wanted}"
  | .unknownBlock name => s!"Unknown block '#{name}'"
  | .unknownContinuation name => s!"Unknown block continuation ':{name}'"
  | .tokenInBlockTag found => s!"Unexpected token {found} in block tag"
  | .misplacedElseIf => "'\x7b\x7b:else if\x7d\x7d' is only valid inside if blocks"
  | .malformedClosingTag name => s!"Malformed closing tag </{name}"
  | .malformedAttribute => "Malformed attribute"
  | .duplicateAttribute name => s!"Duplicate attribute '{name}'"
  | .malformedAttributeValue => "Malformed attribute value"
  | .misplacedElse wanted => "Unexpected \x7b\x7b:else\x7d\x7d, expected " ++ wanted
  | .misplacedBlockClose name wanted =>
    "Unexpected \x7b\x7b/" ++ name ++ "\x7d\x7d, expected " ++ wanted
  | .misplacedTagClose name wanted => s!"Unexpected </{name}>, expected {wanted}"
  | .mismatchedTagClose wanted found => s!"Expected </{wanted}> but found </{found}>"
  | .invalidConfig problem => problem
  | .unknownTag name => s!"Unknown tag: '{name}'"
  | .invalidRole name => s!"Invalid message role: '{name}'"
  | .messageInMessage => "Message tags cannot be placed inside another message"
  | .contentInContent => "Content tags cannot be placed inside another content tag"
  | .contentOutsideMessage name => s!"Content tag <{name}> must be placed inside a message"
  | .stepInMessage => "Step tags cannot be placed inside a message"
  | .stepInStep => "Step tags cannot be placed inside another step"
  | .stepInEach => "Step tags cannot be placed inside an each block"
  | .toolWithoutId => "Tool messages must have an id attribute"
  | .imageInSystem => "System messages can only contain text content"
  | .undeclared name => s!"Variable '{name}' is not declared"
  | .missingProperty name => s!"Property '{name}' does not exist on object"
  | .propertyOfNothing name kind => s!"Cannot read property '{name}' of {kind}"
  | .invalidUpdate operator kind =>
    s!"Cannot use the update operator '{operator}' on a value of type '{kind}'"
  | .arrayTooLong length => s!"Array length {length} is too large"
  | .invalidLength => "Invalid array length"
  | .unassignableProperty name kind =>
    s!"Cannot assign property '{name}' on a value of type '{kind}'"
  | .notAFunction callee => s!"'{callee}' is not a function"
  | .callFailed name problem => s!"Error calling function '{name}': {problem}"
  | .inOperand name kind =>
    s!"Cannot use 'in' operator to search for '{name}' in a value of type '{kind}'"
  | .instanceofOperator => "The 'instanceof' operator is not supported"
  | .missingResponse => "A response is required to resume after a step"
  | .unresolvedReference => "Reference tags cannot be compiled, references were not resolved"
  | .dynamicReference => "Reference tags need a static 'prompt' attribute"
  | .circularReference path => s!"Circular reference to '{path}'"
  | .referenceNotFound path => s!"Referenced prompt '{path}' not found"
  | .reported _ message => message

end Cause

/-- A cause with the piece of text that it concerns. -/
structure Error where
  cause : Cause
  span : Span
deriving DecidableEq, Repr

namespace Error

/-- An error that has no place yet. -/
def unplaced (cause : Cause) : Error := ⟨cause, Span.none⟩

def code (e : Error) : Code := e.cause.code

def message (e : Error) : String := e.cause.message

/-- Gives an error a range of offsets; a range that ends before it starts is empty. -/
def within (e : Error) (start stop : Nat) : Error :=
  { e with span := { e.span with start := start, stop := max stop start } }

def on (e : Error) (s : Span) : Error := e.within s.start s.stop

/-- Finds the line and the column of the start of an error in a text. -/
def locate (e : Error) (source : List Char) : Error :=
  let place := Position.ofOffset source e.span.start
  { e with span := { e.span with line := place.line, column := place.column } }

/-- An error in one line. -/
def display (e : Error) : String :=
  s!"{e.message} at line {e.span.line}, column {e.span.column} [{e.code.name}]"

end Error

/-- The error with this cause at a piece of text, not yet located. -/
def Cause.on (c : Cause) (s : Span) : Error := (Error.unplaced c).on s

/-- The error with this cause at a range of offsets, not yet located. -/
def Cause.within (c : Cause) (start stop : Nat) : Error := (Error.unplaced c).within start stop

end PromptTemplate
