import PlainScript.Building.Member

/-! Operands and expressions, read into an arena. -/
namespace PlainScript.Building

open Grammar (State Context Parser here current ahead atPunct atWord atName skip advance eat expect
  expectWord unexpected fail tokensLeft binaryLevel isAssignmentOperator startsExpression isUnaryOperator
  beginsArrow)

variable (rules : NodeRules)

/-- One or more expressions with commas between them. -/
def expression (allowIn : Bool) : Builder NodeId := do
  let position ← here
  let first ← rules (.assignment allowIn)
  if !(← atPunct ",") then return first
  let others ← repeatUntil (return !(← atPunct ",")) do
    skip
    rules (.assignment allowIn)
  make (.sequenceExpression (some first :: others.map some)) position

/-- A name after a dot, where every word is allowed. -/
def memberName : Builder NodeId := do
  match (← current).kind with
  | .identifier | .keyword => identifierHere
  | _ => fail .propertyName

def arguments : Builder (List (Option NodeId)) := do
  expect "("
  let args ← commaList ")" (spreadOr (rules (.assignment true)))
  expect ")"
  return args.map some

/-- The expression in brackets after an opening one that was read. -/
def indexRest : Builder NodeId := do
  let index ← expression rules true
  expect "]"
  return index

/-! ### Operands -/

/-- An operand that stands for itself, where `base` reads what a class extends. -/
def primary (base : Builder NodeId) : Builder NodeId := do
  let position ← here
  let t ← current
  let leaf (payload : Payload NodeId) : Builder NodeId := do
    skip
    make payload position
  match t.kind with
  | .identifier =>
    let next ← ahead 1
    if t.isName "async" && next.isKeyword "function" && !next.newlineBefore then
      skip
      functionExpression rules true
    else identifierHere
  | .number value isBigInt => leaf (.numericLiteral value t.text isBigInt)
  | .string value => leaf (.stringLiteral value t.text)
  | .template => leaf (.templateLiteral t.text)
  | .regExp => leaf (.regExpLiteral t.text)
  | .keyword =>
    if t.text == "this" then leaf .thisExpression
    else if t.text == "null" then leaf .nullLiteral
    else if t.text == "true" then leaf (.booleanLiteral true)
    else if t.text == "false" then leaf (.booleanLiteral false)
    else if t.text == "function" then functionExpression rules false
    else if t.text == "class" then classLiteral rules base false
    else if t.text == "super" || t.text == "import" then identifierHere
    else unexpected
  | .punctuator =>
    if ← eat "(" then
      let inner ← expression rules true
      expect ")"
      return inner
    else if t.text == "[" then arrayLiteral rules
    else if t.text == openBrace then object rules
    else unexpected
  | .endOfFile => unexpected

/-- A plain member name or index after an operand. -/
def plainMember (owner : NodeId) (position : Position) : Builder (Option NodeId) := do
  if ← eat "." then
    let name ← memberName
    return some (← make (.memberExpression (some owner) (some name) false false) position)
  if ← eat "[" then
    let index ← indexRest rules
    return some (← make (.memberExpression (some owner) (some index) true false) position)
  return none

/-- What follows an operand. -/
def suffix (position : Position) (owner : NodeId) : Builder (Option NodeId) := do
  if let some extended ← plainMember rules owner position then return some extended
  if ← eat "?." then
    if ← atPunct "(" then
      let args ← arguments rules
      return some (← make (.callExpression (some owner) args true) position)
    if ← eat "[" then
      let index ← indexRest rules
      return some (← make (.memberExpression (some owner) (some index) true true) position)
    let name ← memberName
    return some (← make (.memberExpression (some owner) (some name) false true) position)
  if ← atPunct "(" then
    let args ← arguments rules
    return some (← make (.callExpression (some owner) args false) position)
  let t ← current
  if t.kind == .template then
    skip
    let quasi ← make (.templateLiteral t.text) t.position
    return some (← make (.taggedTemplateExpression (some owner) (some quasi)) position)
  return none

/-- A construction, where `callee` reads what is constructed. -/
def constructionWith (callee : Builder NodeId) : Builder NodeId := do
  let position ← here
  expectWord "new"
  if ← eat "." then
    if !(← atName "target") then fail .newTarget
    skip
    make (.identifier "new.target") position
  else
    let callee ← extend (fun owner => do plainMember rules owner (← here)) (← callee)
    let args ← if ← atPunct "(" then arguments rules else pure []
    make (.newExpression (some callee) args) position

mutual

def operandUpTo (n : Nat) : Builder NodeId :=
  match n with
  | 0 => unexpected
  | n + 1 => do
    let position ← here
    extend (suffix rules position) (← headUpTo n)

def headUpTo (n : Nat) : Builder NodeId :=
  match n with
  | 0 => unexpected
  | n + 1 => do
    if ← atWord "new" then constructionWith rules (headUpTo n)
    else primary rules (operandUpTo n)

end

def operand : Builder NodeId := do operandUpTo rules (2 * (← tokensLeft))

/-! ### Expressions -/

/-- An operand with an update operator behind it, if there is one on the same line. -/
def postfixed : Builder NodeId := do
  let position ← here
  let operand ← operand rules
  let t ← current
  if (t.isPunctuator "++" || t.isPunctuator "--") && !t.newlineBefore then
    if !(← isTarget operand) then fail .updateTarget
    skip
    make (.updateExpression t.text false (some operand)) position
  else return operand

def unary : Builder NodeId := do
  let t ← current
  if isUnaryOperator (← (read : Parser Context)) t (← ahead 1) then
    skip
    make (.unaryExpression t.text (some (← rules .unary))) t.position
  else if t.isPunctuator "++" || t.isPunctuator "--" then
    skip
    let operand ← rules .unary
    if !(← isTarget operand) then fail .updateTarget
    make (.updateExpression t.text true (some operand)) t.position
  else postfixed rules

def binaryUpTo (n least : Nat) (allowIn : Bool) : Builder NodeId :=
  match n with
  | 0 => unexpected
  | n + 1 => do
    let position ← here
    let first ← rules .unary
    extend (fun left => do
      let t ← current
      let level := binaryLevel allowIn t
      if level = 0 || level < least then return none
      skip
      let right ← binaryUpTo n (if t.text == "**" then level else level + 1) allowIn
      return some (← make (.binaryExpression t.text (some left) (some right)) position)) first

def binary (allowIn : Bool) : Builder NodeId := do
  binaryUpTo rules (← tokensLeft) 1 allowIn

def conditional (allowIn : Bool) : Builder NodeId := do
  let position ← here
  let test ← binary rules allowIn
  if !(← eat "?") then return test
  let consequent ← rules (.assignment true)
  expect ":"
  let alternate ← rules (.assignment allowIn)
  make (.conditionalExpression (some test) (some consequent) (some alternate)) position

/-- The rest of a `yield` expression in a generator. -/
def yieldRest (allowIn : Bool) (position : Position) : Builder NodeId := do
  let op : Text := if ← eat "*" then "yield*" else "yield"
  let t ← current
  let argument ←
    if !t.newlineBefore && startsExpression t then some <$> rules (.assignment allowIn)
    else pure none
  make (.unaryExpression op argument) position

def assignment (allowIn : Bool) : Builder NodeId := do
  let s ← (get : Parser State)
  let position ← here
  if beginsArrow (s.current :: s.later) then
    let isAsync := s.current.isName "async" && !(← ahead 1).isPunctuator "=>"
    if isAsync then skip
    arrowFunction rules isAsync
  else if (← (read : Parser Context)).inGenerator && (← atName "yield") then
    skip
    yieldRest rules allowIn position
  else
    let left ← conditional rules allowIn
    let t ← current
    if !isAssignmentOperator t then return left
    if !(← isTarget left) then fail .assignmentTarget
    skip
    let right ← rules (.assignment allowIn)
    make (.assignmentExpression t.text (some left) (some right)) position

end PlainScript.Building
