import PlainScript.Grammar.Member

/-! Operands: literals, names and brackets, and what may follow them, that is member names, indices,
calls and templates. The words `new` and `extends` put one operand into another without a bracket
between them, so operands are read with a bound on such nesting. -/
namespace PlainScript.Grammar

variable (rules : Rules)

/-- One or more expressions with commas between them. -/
def expression (allowIn : Bool) : Parser Tree := do
  let position ← here
  let first ← rules (.assignment allowIn)
  if !(← atPunct ",") then return first
  let others ← repeatUntil (return !(← atPunct ",")) do
    skip
    rules (.assignment allowIn)
  return .of (.sequenceExpression (some first :: others.map some)) position

/-- A name after a dot, where every word is allowed. -/
def memberName : Parser Tree := do
  match (← current).kind with
  | .identifier | .keyword => identifierHere
  | _ => fail .propertyName

def arguments : Parser (List (Option Tree)) := do
  expect "("
  let args ← commaList ")" (spreadOr (rules (.assignment true)))
  expect ")"
  return args.map some

/-- The expression in brackets after an opening one that was read. -/
def indexRest : Parser Tree := do
  let index ← expression rules true
  expect "]"
  return index

/-- An operand that stands for itself, where `base` reads what a class extends. -/
def primary (base : Parser Tree) : Parser Tree := do
  let position ← here
  let t ← current
  let leaf (payload : Payload Tree) : Parser Tree := do
    skip
    return .of payload position
  match t.kind with
  | .identifier =>
    let next ← ahead 1
    if t.isName "async" && next.isKeyword "function" && !next.newlineBefore then
      skip
      functionExpression rules true
    else identifierHere
  | .number value isBigInt => leaf (.numericLiteral value t.text isBigInt)
  | .string value => leaf (.stringLiteral value t.text)
  | .template => leaf (.templateLiteral t.text)
  | .regExp => leaf (.regExpLiteral t.text)
  | .keyword =>
    if t.text == "this" then leaf .thisExpression
    else if t.text == "null" then leaf .nullLiteral
    else if t.text == "true" then leaf (.booleanLiteral true)
    else if t.text == "false" then leaf (.booleanLiteral false)
    else if t.text == "function" then functionExpression rules false
    else if t.text == "class" then classLiteral rules base false
    else if t.text == "super" || t.text == "import" then identifierHere
    else unexpected
  | .punctuator =>
    if ← eat "(" then
      let inner ← expression rules true
      expect ")"
      return inner
    else if t.text == "[" then arrayLiteral rules
    else if t.text == openBrace then object rules
    else unexpected
  | .endOfFile => unexpected

/-- A plain member name or index after an operand. -/
def plainMember (owner : Tree) (position : Position) : Parser (Option Tree) := do
  if ← eat "." then
    let name ← memberName
    return some (.of (.memberExpression (some owner) (some name) false false) position)
  if ← eat "[" then
    let index ← indexRest rules
    return some (.of (.memberExpression (some owner) (some index) true false) position)
  return none

/-- What follows an operand. -/
def suffix (position : Position) (owner : Tree) : Parser (Option Tree) := do
  if let some extended ← plainMember rules owner position then return some extended
  if ← eat "?." then
    if ← atPunct "(" then
      let args ← arguments rules
      return some (.of (.callExpression (some owner) args true) position)
    if ← eat "[" then
      let index ← indexRest rules
      return some (.of (.memberExpression (some owner) (some index) true true) position)
    let name ← memberName
    return some (.of (.memberExpression (some owner) (some name) false true) position)
  if ← atPunct "(" then
    let args ← arguments rules
    return some (.of (.callExpression (some owner) args false) position)
  let t ← current
  if t.kind == .template then
    skip
    let quasi := Tree.of (.templateLiteral t.text) t.position
    return some (.of (.taggedTemplateExpression (some owner) (some quasi)) position)
  return none

/-- A construction, where `callee` reads what is constructed. -/
def constructionWith (callee : Parser Tree) : Parser Tree := do
  let position ← here
  expectWord "new"
  if ← eat "." then
    if !(← atName "target") then fail .newTarget
    skip
    return .of (.identifier "new.target") position
  let callee ← extend (fun owner => do plainMember rules owner (← here)) (← callee)
  let args ← if ← atPunct "(" then arguments rules else pure []
  return .of (.newExpression (some callee) args) position

mutual

/-- An operand with all that follows it. -/
def operandUpTo (n : Nat) : Parser Tree :=
  match n with
  | 0 => unexpected
  | n + 1 => do
    let position ← here
    extend (suffix rules position) (← headUpTo n)

/-- An operand alone. -/
def headUpTo (n : Nat) : Parser Tree :=
  match n with
  | 0 => unexpected
  | n + 1 => do
    if ← atWord "new" then constructionWith rules (headUpTo n)
    else primary rules (operandUpTo n)

end

def operand : Parser Tree := do operandUpTo rules (2 * (← tokensLeft))

end PlainScript.Grammar
