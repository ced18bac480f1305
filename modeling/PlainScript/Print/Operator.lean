import PlainScript.Print.Source
import PlainScript.Print.Literal
import PlainScript.Token

/-! How tightly expressions bind. Levels go from one, the sequence, to nineteen, what needs no
parentheses anywhere; one level more asks for parentheses around everything. -/
namespace PlainScript.Print

namespace Level

def sequence : Nat := 1
def assignment : Nat := 2
def conditional : Nat := 3
def unary : Nat := 16
def postfixed : Nat := 17
def call : Nat := 18
def primary : Nat := 19
def parenthesized : Nat := 20

end Level

/-- The level of a binary operator, zero for a text that is none. -/
def operatorLevel (op : Text) : Nat :=
  let among (ops : List Text) : Bool := ops.contains op
  if among ["??"] then 4
  else if among ["||"] then 5
  else if among ["&&"] then 6
  else if among ["|"] then 7
  else if among ["^"] then 8
  else if among ["&"] then 9
  else if among ["==", "!=", "===", "!=="] then 10
  else if among ["<", ">", "<=", ">=", "in", "instanceof"] then 11
  else if among ["<<", ">>", ">>>"] then 12
  else if among ["+", "-"] then 13
  else if among ["*", "/", "%"] then 14
  else if among ["**"] then 15
  else 0

def isLogical (op : Text) : Bool := op == "||" || op == "&&"

def isYield (op : Text) : Bool := op == "yield" || op == "yield*"

def isWordOperator (op : Text) : Bool :=
  (["typeof", "void", "delete", "await"] : List Text).contains op || isYield op

/-- Two operators that may not stand side by side without parentheses. -/
def mustNotMix (op inner : Text) : Bool :=
  (op == "??" && isLogical inner) || (isLogical op && inner == "??")

/-- The level of an expression. A number without source text may begin with a minus sign. -/
def level {α : Type} : Payload α → Nat
  | .numericLiteral value raw _ =>
    if raw.isEmpty && Rounded.isNegative value && !value.isNaN then Level.unary else Level.primary
  | .sequenceExpression .. => Level.sequence
  | .assignmentExpression .. | .arrowFunctionExpression .. => Level.assignment
  | .conditionalExpression .. => Level.conditional
  | .binaryExpression op .. => operatorLevel op
  | .unaryExpression op _ => if isYield op then Level.assignment else Level.unary
  | .updateExpression _ isPrefixed _ => if isPrefixed then Level.unary else Level.postfixed
  | .callExpression .. | .newExpression .. | .memberExpression ..
  | .taggedTemplateExpression .. => Level.call
  | _ => Level.primary

def startsWithWord (text word : Text) : Bool :=
  text.startsWith word && !(text.drop word.length).head?.any fun c =>
    Byte.isAlphanum c || c == '_'.toUInt8 || c == '$'.toUInt8

/-- Whether an expression statement with this text would be read as something else. -/
def readsAsDeclaration (text : Text) : Bool :=
  text.startsWith openBrace || startsWithWord text "function" || startsWithWord text "class"
    || text.startsWith "async function " || text.startsWith "let ["

def parenthesize (text : Text) : Text := "(" ++ (text ++ ")")

end PlainScript.Print
