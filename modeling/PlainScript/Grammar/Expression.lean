import PlainScript.Grammar.Operand

/-! Expressions from unary operators up to assignments. Binary operators are read by precedence:
the right operand of an operator takes only operators that bind more tightly, except that `**`
groups to the right. -/
namespace PlainScript.Grammar

variable (rules : Rules)

/-- How tightly a binary operator binds, zero for every other token. -/
def binaryLevel (allowIn : Bool) (t : Token) : Nat :=
  let among (ops : List Text) : Bool := ops.contains t.text
  match t.kind with
  | .keyword =>
    if among ["instanceof"] then 8 else if among ["in"] && allowIn then 8 else 0
  | .punctuator =>
    if among ["??"] then 1
    else if among ["||"] then 2
    else if among ["&&"] then 3
    else if among ["|"] then 4
    else if among ["^"] then 5
    else if among ["&"] then 6
    else if among ["==", "!=", "===", "!=="] then 7
    else if among ["<", ">", "<=", ">="] then 8
    else if among ["<<", ">>", ">>>"] then 9
    else if among ["+", "-"] then 10
    else if among ["*", "/", "%"] then 11
    else if among ["**"] then 12
    else 0
  | _ => 0

def assignmentOperators : List Text :=
  ["=", "+=", "-=", "*=", "/=", "%=", "**=", "<<=", ">>=", ">>>=", "&=", "|=", "^=", "&&=", "||=",
    "??="]

def isAssignmentOperator (t : Token) : Bool :=
  t.kind == .punctuator && assignmentOperators.contains t.text

/-- What may be assigned to. -/
def isTarget (t : Tree) : Bool :=
  match t.kind with
  | .identifier | .memberExpression | .arrayExpression | .objectExpression => true
  | _ => false

/-- Whether an expression can begin with a token. -/
def startsExpression (t : Token) : Bool :=
  match t.kind with
  | .keyword =>
    (["this", "new", "function", "class", "null", "true", "false", "typeof", "void", "delete",
      "super"] : List Text).contains t.text
  | .punctuator =>
    (["(", "[", openBrace, "!", "~", "+", "-", "++", "--"] : List Text).contains t.text
  | .endOfFile => false
  | _ => true

/-- An operand with an update operator behind it, if there is one on the same line. -/
def postfixed : Parser Tree := do
  let position ← here
  let operand ← operand rules
  let t ← current
  if (t.isPunctuator "++" || t.isPunctuator "--") && !t.newlineBefore then
    if !isTarget operand then fail .updateTarget
    skip
    return .of (.updateExpression t.text false (some operand)) position
  return operand

/-- Whether a token is an operator in front of an operand. The word `await` is one inside an
asynchronous function, and outside of functions where an expression follows on the same line. -/
def isUnaryOperator (context : Context) (t next : Token) : Bool :=
  match t.kind with
  | .punctuator => (["!", "~", "+", "-"] : List Text).contains t.text
  | .keyword => (["typeof", "void", "delete"] : List Text).contains t.text
  | .identifier =>
    t.text == "await" &&
      (context.inAsync || (!context.inFunction && !next.newlineBefore && startsExpression next))
  | _ => false

def unary : Parser Tree := do
  let t ← current
  if isUnaryOperator (← read) t (← ahead 1) then
    skip
    return .of (.unaryExpression t.text (some (← rules .unary))) t.position
  if t.isPunctuator "++" || t.isPunctuator "--" then
    skip
    let operand ← rules .unary
    if !isTarget operand then fail .updateTarget
    return .of (.updateExpression t.text true (some operand)) t.position
  postfixed rules

/-- Operands joined by operators of at least the level `least`, at most `n` operators deep to the
right. -/
def binaryUpTo (n least : Nat) (allowIn : Bool) : Parser Tree :=
  match n with
  | 0 => unexpected
  | n + 1 => do
    let position ← here
    let first ← rules .unary
    extend (fun left => do
      let t ← current
      let level := binaryLevel allowIn t
      if level = 0 || level < least then return none
      skip
      let right ← binaryUpTo n (if t.text == "**" then level else level + 1) allowIn
      return some (.of (.binaryExpression t.text (some left) (some right)) position)) first

def binary (allowIn : Bool) : Parser Tree := do
  binaryUpTo rules (← tokensLeft) 1 allowIn

def conditional (allowIn : Bool) : Parser Tree := do
  let position ← here
  let test ← binary rules allowIn
  if !(← eat "?") then return test
  let consequent ← rules (.assignment true)
  expect ":"
  let alternate ← rules (.assignment allowIn)
  return .of (.conditionalExpression (some test) (some consequent) (some alternate)) position

/-- The rest of a `yield` expression in a generator. -/
def yieldRest (allowIn : Bool) (position : Position) : Parser Tree := do
  let op : Text := if ← eat "*" then "yield*" else "yield"
  let t ← current
  let argument ←
    if !t.newlineBefore && startsExpression t then some <$> rules (.assignment allowIn)
    else pure none
  return .of (.unaryExpression op argument) position

def assignment (allowIn : Bool) : Parser Tree := do
  let s ← get
  let position ← here
  if beginsArrow (s.current :: s.later) then
    let isAsync := s.current.isName "async" && !(← ahead 1).isPunctuator "=>"
    if isAsync then skip
    arrowFunction rules isAsync
  else if (← read).inGenerator && (← atName "yield") then
    skip
    yieldRest rules allowIn position
  else
    let left ← conditional rules allowIn
    let t ← current
    if !isAssignmentOperator t then return left
    if !isTarget left then fail .assignmentTarget
    skip
    let right ← rules (.assignment allowIn)
    return .of (.assignmentExpression t.text (some left) (some right)) position

end PlainScript.Grammar
