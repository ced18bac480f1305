import PlainScript.Token

/-! Why a text is not a script. Some causes concern one statement only, and a reader that recovers
keeps that statement as raw text; the others end the reading. -/
namespace PlainScript

inductive ParseFault
  | lexical (fault : LexFault)
  | unbalanced (bracket : Text)
  | unclosed (bracket : Text)
  | tooDeep
  | tooManyErrors
  | expected (punctuator : Text) (found : Option Text)
  | expectedKeyword (keyword : Text)
  | unexpected (text : Text)
  | unexpectedEnd
  | withStatement
  | exportDeclaration
  | importDeclaration
  | functionWithoutName
  | classWithoutName
  | staticBlock
  | awaitWithoutOf
  | lineBreakAfterThrow
  | tryAlone
  | duplicateDefault
  | bindingName
  | assignmentTarget
  | updateTarget
  | propertyName
  | propertyKey
  | newTarget
  | methodParameters
  deriving DecidableEq, Repr

namespace ParseFault

def isRecoverable : ParseFault → Bool
  | lexical _ | unbalanced _ | unclosed _ | tooDeep | tooManyErrors => false
  | _ => true

def inQuotes (t : Text) : Text := "'" ++ t ++ "'"

def message : ParseFault → Text
  | lexical fault => fault.message
  | unbalanced bracket => "unbalanced " ++ inQuotes bracket
  | unclosed bracket => "unclosed " ++ inQuotes bracket
  | tooDeep => "maximum nesting depth exceeded"
  | tooManyErrors => "too many syntax errors, giving up"
  | expected punctuator found =>
    "expected " ++ inQuotes punctuator ++ " but found "
      ++ found.elim ("end of input" : Text) inQuotes
  | expectedKeyword keyword => "expected " ++ inQuotes keyword
  | unexpected text => "unexpected token " ++ inQuotes text
  | unexpectedEnd => "unexpected end of input"
  | withStatement => "'with' statements are not supported"
  | exportDeclaration => "module export declarations are not supported"
  | importDeclaration => "module import declarations are not supported"
  | functionWithoutName => "function declaration requires a name"
  | classWithoutName => "class declaration requires a name"
  | staticBlock => "class static blocks are not supported"
  | awaitWithoutOf => "'for await' requires an 'of' clause"
  | lineBreakAfterThrow => "line break is not allowed after 'throw'"
  | tryAlone => "'try' without 'catch' or 'finally'"
  | duplicateDefault => "duplicate 'default' clause"
  | bindingName => "expected a binding name"
  | assignmentTarget => "invalid assignment target"
  | updateTarget => "invalid update target"
  | propertyName => "expected a property name"
  | propertyKey => "expected a property key"
  | newTarget => "expected 'new.target'"
  | methodParameters => "expected '(' after method name"

end ParseFault

structure ParseError where
  fault : ParseFault
  position : Position
  deriving DecidableEq, Repr

namespace ParseError

def isRecoverable (e : ParseError) : Bool := e.fault.isRecoverable

def ofLexError (e : LexError) : ParseError := ⟨.lexical e.fault, e.position⟩

/-- The cause with its place. -/
def message (e : ParseError) : Text :=
  Text.upToZero (e.fault.message ++ " (line " ++ Text.ofNat e.position.line ++ ", column "
    ++ Text.ofNat e.position.column ++ ")")

end ParseError

end PlainScript
