import PlainScript.Grammar.Recovery

/-! Functions, array and object literals, and classes. Patterns are read as literals. The members of
an object may be methods whose parameters are objects again, so members are read with a bound on
that nesting, which the number of tokens left always meets. -/
namespace PlainScript.Grammar

variable (rules : Rules)

/-- A value or three dots and a value. -/
def spreadOr (item : Parser Tree) : Parser Tree := do
  let position ← here
  if ← eat "..." then
    return .of (.spreadElement (some (← item))) position
  item

def arrayLiteral : Parser Tree := do
  let position ← here
  expect "["
  let elements ← repeatUntil (atPunct "]") do
    if ← eat "," then return none
    let element ← spreadOr (rules (.assignment true))
    if !(← atPunct "]") then expect ","
    return some element
  expect "]"
  return .of (.arrayExpression elements) position

def objectLiteral (member : Parser Tree) : Parser Tree := do
  let position ← here
  expect openBrace
  let members ← commaList closeBrace member
  expect closeBrace
  return .of (.objectExpression (members.map some)) position

/-- A name, or a pattern where `object` reads an object literal. -/
def bindingTarget (object : Parser Tree) : Parser Tree := do
  if ← atPunct "[" then arrayLiteral rules
  else if ← atPunct openBrace then object
  else if (← current).isIdentifier then identifierHere
  else fail .bindingName

/-- A parameter with an optional default value. -/
def parameter (object : Parser Tree) : Parser Tree := do
  let position ← here
  if ← eat "..." then
    return .of (.spreadElement (some (← bindingTarget rules object))) position
  let target ← bindingTarget rules object
  if ← eat "=" then
    let value ← rules (.assignment true)
    return .of (.assignmentExpression "=" (some target) (some value)) position
  return target

def parameters (object : Parser Tree) : Parser (List Tree) := do
  expect "("
  let params ← commaList ")" (parameter rules object)
  expect ")"
  return params

/-- The parameters and the body of a function. -/
def functionRest (object : Parser Tree) (isAsync isGenerator : Bool) :
    Parser (List (Option Tree) × Option Tree) :=
  inFunction isAsync isGenerator do
    let params ← parameters rules object
    let body ← block rules
    return (params.map some, some body)

/-- The key of a member, and whether it is computed. -/
def propertyKey : Parser (Tree × Bool) := do
  let position ← here
  if ← eat "[" then
    let key ← rules (.assignment true)
    expect "]"
    return (key, true)
  let t ← current
  match t.kind with
  | .string value =>
    skip
    return (.of (.stringLiteral value t.text) position, false)
  | .number value isBigInt =>
    skip
    return (.of (.numericLiteral value t.text isBigInt) position, false)
  | .identifier | .keyword => return (← identifierHere, false)
  | _ => fail .propertyKey

/-- A word before a key, unless it is itself the key. -/
def modifier (word : Text) : Parser Bool := do
  let next ← ahead 1
  let isKey := next.newlineBefore ||
    ([",", ":", "(", closeBrace, "=", ";"] : List Text).any next.isPunctuator
  if (← atName word) && !isKey then
    skip
    return true
  return false

/-- Which accessor a member is; `init` when it is none. -/
def accessor : Parser PropertyKind := do
  if ← modifier "get" then return .get
  if ← modifier "set" then return .set
  return .init

/-- A member of an object literal or of a class. -/
def memberWith (object : Parser Tree) (inClass : Bool) : Parser Tree := do
  let position ← here
  let isSpread ← if inClass then pure false else eat "..."
  if isSpread then
    let value ← rules (.assignment true)
    return .of (.property none (some value) .spread false false false) position
  let isStatic ← if inClass then modifier "static" else pure false
  if isStatic && (← atPunct openBrace) then fail .staticBlock
  let isAsync ← modifier "async"
  let isGenerator ← eat "*"
  let kind ← if isAsync || isGenerator then pure .init else accessor
  let first ← current
  let keyPosition := first.position
  let (key, computed) ← propertyKey rules
  if ← atPunct "(" then
    let (params, body) ← functionRest rules object isAsync isGenerator
    let value := Tree.of (.functionExpression [] params body isAsync isGenerator) keyPosition
    let kind := if kind == .init then .method else kind
    return .of (.property (some key) (some value) kind computed false isStatic) position
  if isAsync || isGenerator || kind != .init then fail .methodParameters
  if inClass then
    let value ← if ← eat "=" then some <$> rules (.assignment true) else pure none
    semicolon
    return .of (.property (some key) value .field computed false isStatic) position
  if ← eat ":" then
    let value ← rules (.assignment true)
    return .of (.property (some key) (some value) .init computed false isStatic) position
  if first.isIdentifier && !computed then
    let name := Tree.of (.identifier first.text) keyPosition
    let value ←
      if ← eat "=" then
        let default ← rules (.assignment true)
        pure (Tree.of (.assignmentExpression "=" (some name) (some default)) keyPosition)
      else pure name
    return .of (.property (some key) (some value) .init computed true isStatic) position
  unexpected

/-- A member whose parameters nest objects at most `n` deep. -/
def member (n : Nat) (inClass : Bool) : Parser Tree :=
  match n with
  | 0 => unexpected
  | n + 1 => memberWith rules (objectLiteral (member n false)) inClass

def object : Parser Tree := do objectLiteral (member rules (← tokensLeft) false)

def functionDeclaration (isAsync : Bool) : Parser Tree := do
  let position ← here
  expectWord "function"
  let isGenerator ← eat "*"
  if !(← current).isIdentifier then fail .functionWithoutName
  let name := (← advance).text
  let (params, body) ← functionRest rules (object rules) isAsync isGenerator
  return .of (.functionDeclaration name params body isAsync isGenerator) position

def functionExpression (isAsync : Bool) : Parser Tree := do
  let position ← here
  expectWord "function"
  let isGenerator ← eat "*"
  let name ← if (← current).isIdentifier then pure (← advance).text else pure []
  let (params, body) ← functionRest rules (object rules) isAsync isGenerator
  return .of (.functionExpression name params body isAsync isGenerator) position

/-- Whether the tokens lead to the arrow after the closing bracket that matches an opening one. -/
def arrowFollows (depth : Nat) : List Token → Bool
  | [] => false
  | t :: rest =>
    if t.isOpening then arrowFollows (depth + 1) rest
    else if t.isClosing then
      if depth ≤ 1 then rest.head?.any fun arrow => arrow.isPunctuator "=>" && !arrow.newlineBefore
      else arrowFollows (depth - 1) rest
    else if t.isEnd then false
    else arrowFollows depth rest

/-- Whether an arrow function begins with these tokens. -/
def beginsArrow (tokens : List Token) : Bool :=
  let isAsync := match tokens with
    | t :: next :: _ => t.isName "async" && !next.newlineBefore &&
        (next.isIdentifier || next.isPunctuator "(")
    | _ => false
  match if isAsync then tokens.tail else tokens with
  | t :: arrow :: rest =>
    if t.isIdentifier then arrow.isPunctuator "=>" && !arrow.newlineBefore
    else t.isPunctuator "(" && arrowFollows 1 (arrow :: rest)
  | _ => false

def arrowFunction (isAsync : Bool) : Parser Tree := do
  let position ← here
  let params ←
    if (← current).isIdentifier then pure [← identifierHere]
    else inFunction isAsync false (parameters rules (object rules))
  expect "=>"
  let body ← inFunction isAsync false do
    if ← atPunct openBrace then block rules else rules (.assignment true)
  return .of (.arrowFunctionExpression (params.map some) (some body) isAsync) position

/-- A class, where `base` reads what it extends. -/
def classLiteral (base : Parser Tree) (isDeclaration : Bool) : Parser Tree := do
  let position ← here
  expectWord "class"
  let name ←
    if (← current).isIdentifier then pure (← advance).text
    else if isDeclaration then fail .classWithoutName
    else pure []
  let superClass ←
    if ← atWord "extends" then
      skip
      some <$> base
    else pure none
  expect openBrace
  let members ← repeatUntil (atPunct closeBrace) do
    if ← eat ";" then return none
    return some (← member rules (← tokensLeft) true)
  expect closeBrace
  let members := members.filter Option.isSome
  if isDeclaration then return .of (.classDeclaration name superClass members) position
  return .of (.classExpression name superClass members) position

end PlainScript.Grammar
