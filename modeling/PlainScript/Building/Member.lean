import PlainScript.Building.Builder

/-! Lists of statements, functions, array and object literals, and classes, read into an arena. -/
namespace PlainScript.Building

open Grammar (State Context ListEnd Parser here current ahead atPunct atWord atName skip advance eat
  expect expectWord unexpected fail semicolon drainComments tokensLeft skipCount modifier accessor)

variable (rules : NodeRules)

/-! ### Lists of statements -/

/-- Goes back to where a faulty statement began and takes its tokens as raw text. -/
def recoverFrom (start : State) (ending : ListEnd) (e : ParseError) : Builder NodeId := do
  (modify fun s => { s with recovered := e :: s.recovered } : Parser Unit)
  let context ← (read : Parser Context)
  if context.maxRecoveredErrors < (← (get : Parser State)).recovered.length then
    throw (.parse ⟨.tooManyErrors, e.position⟩)
  let tokens := start.current :: start.later
  let skipped := tokens.take (max 1 (skipCount ending 0 true tokens))
  let next := (tokens.drop skipped.length).headD start.current
  (modify fun s => { s with
    current := next
    later := tokens.drop (skipped.length + 1)
    pending := next.comments } : Parser Unit)
  let first := start.current
  let stop := (skipped.getLastD first).stop
  let raw ← make (.rawStatement ((context.source.drop first.start).take (stop - first.start))) first.position
  lead raw start.pending
  return raw

def listedStatement (ending : ListEnd) : Builder NodeId := do
  let start ← (get : Parser State)
  tryCatch (rules .statement) fun
    | .parse e => do
      if (← (read : Parser Context)).recover && e.isRecoverable then recoverFrom start ending e
      else throw (.parse e)
    | .edit e => throw (.edit e)

def statementList (ending : ListEnd) : Builder (List NodeId) :=
  repeatUntil (return ending.isAt (← current)) (listedStatement rules ending)

def block : Builder NodeId := do
  let position ← here
  expect openBrace
  let body ← statementList rules .closingBrace
  let trailing ← drainComments
  expect closeBrace
  let id ← make (.blockStatement (body.map some)) position
  trail id trailing
  return id

/-! ### Literals and functions -/

def spreadOr (item : Builder NodeId) : Builder NodeId := do
  let position ← here
  if ← eat "..." then
    make (.spreadElement (some (← item))) position
  else item

def arrayLiteral : Builder NodeId := do
  let position ← here
  expect "["
  let elements ← repeatUntil (atPunct "]") do
    if ← eat "," then return none
    let element ← spreadOr (rules (.assignment true))
    if !(← atPunct "]") then expect ","
    return some element
  expect "]"
  make (.arrayExpression elements) position

def objectLiteral (member : Builder NodeId) : Builder NodeId := do
  let position ← here
  expect openBrace
  let members ← commaList closeBrace member
  expect closeBrace
  make (.objectExpression (members.map some)) position

/-- A name, or a pattern where `object` reads an object literal. -/
def bindingTarget (object : Builder NodeId) : Builder NodeId := do
  if ← atPunct "[" then arrayLiteral rules
  else if ← atPunct openBrace then object
  else if (← current).isIdentifier then identifierHere
  else fail .bindingName

def parameter (object : Builder NodeId) : Builder NodeId := do
  let position ← here
  if ← eat "..." then
    make (.spreadElement (some (← bindingTarget rules object))) position
  else
    let target ← bindingTarget rules object
    if ← eat "=" then
      let value ← rules (.assignment true)
      make (.assignmentExpression "=" (some target) (some value)) position
    else return target

def parameters (object : Builder NodeId) : Builder (List NodeId) := do
  expect "("
  let params ← commaList ")" (parameter rules object)
  expect ")"
  return params

/-- The parameters and the body of a function. -/
def functionRest (object : Builder NodeId) (isAsync isGenerator : Bool) :
    Builder (List (Option NodeId) × Option NodeId) :=
  inFunction isAsync isGenerator do
    let params ← parameters rules object
    let body ← block rules
    return (params.map some, some body)

/-- The key of a member, and whether it is computed. -/
def propertyKey : Builder (NodeId × Bool) := do
  let position ← here
  if ← eat "[" then
    let key ← rules (.assignment true)
    expect "]"
    return (key, true)
  let t ← current
  match t.kind with
  | .string value =>
    skip
    return (← make (.stringLiteral value t.text) position, false)
  | .number value isBigInt =>
    skip
    return (← make (.numericLiteral value t.text isBigInt) position, false)
  | .identifier | .keyword => return (← identifierHere, false)
  | _ => fail .propertyKey

/-- A member of an object literal or of a class. -/
def memberWith (object : Builder NodeId) (inClass : Bool) : Builder NodeId := do
  let position ← here
  let isSpread ← if inClass then pure false else eat "..."
  if isSpread then
    let value ← rules (.assignment true)
    make (.property none (some value) .spread false false false) position
  else
    let isStatic ← if inClass then modifier "static" else pure false
    if isStatic && (← atPunct openBrace) then fail .staticBlock
    let isAsync ← modifier "async"
    let isGenerator ← eat "*"
    let kind ← if isAsync || isGenerator then pure .init else accessor
    let first ← current
    let keyPosition := first.position
    let (key, computed) ← propertyKey rules
    if ← atPunct "(" then
      let (params, body) ← functionRest rules object isAsync isGenerator
      let value ← make (.functionExpression [] params body isAsync isGenerator) keyPosition
      let kind := if kind == .init then .method else kind
      make (.property (some key) (some value) kind computed false isStatic) position
    else
      if isAsync || isGenerator || kind != .init then fail .methodParameters
      if inClass then
        let value ← if ← eat "=" then some <$> rules (.assignment true) else pure none
        semicolon
        make (.property (some key) value .field computed false isStatic) position
      else if ← eat ":" then
        let value ← rules (.assignment true)
        make (.property (some key) (some value) .init computed false isStatic) position
      else if first.isIdentifier && !computed then
        let name ← make (.identifier first.text) keyPosition
        let value ←
          if ← eat "=" then
            let default ← rules (.assignment true)
            make (.assignmentExpression "=" (some name) (some default)) keyPosition
          else pure name
        make (.property (some key) (some value) .init computed true isStatic) position
      else unexpected

def member (n : Nat) (inClass : Bool) : Builder NodeId :=
  match n with
  | 0 => unexpected
  | n + 1 => memberWith rules (objectLiteral (member n false)) inClass

def object : Builder NodeId := do objectLiteral (member rules (← tokensLeft) false)

def functionDeclaration (isAsync : Bool) : Builder NodeId := do
  let position ← here
  expectWord "function"
  let isGenerator ← eat "*"
  if !(← current).isIdentifier then fail .functionWithoutName
  let name := (← advance).text
  let (params, body) ← functionRest rules (object rules) isAsync isGenerator
  make (.functionDeclaration name params body isAsync isGenerator) position

def functionExpression (isAsync : Bool) : Builder NodeId := do
  let position ← here
  expectWord "function"
  let isGenerator ← eat "*"
  let name ← if (← current).isIdentifier then pure (← advance).text else pure []
  let (params, body) ← functionRest rules (object rules) isAsync isGenerator
  make (.functionExpression name params body isAsync isGenerator) position

def arrowFunction (isAsync : Bool) : Builder NodeId := do
  let position ← here
  let params ←
    if (← current).isIdentifier then pure [← identifierHere]
    else inFunction isAsync false (parameters rules (object rules))
  expect "=>"
  let body ← inFunction isAsync false do
    if ← atPunct openBrace then block rules else rules (.assignment true)
  make (.arrowFunctionExpression (params.map some) (some body) isAsync) position

/-- A class, where `base` reads what it extends. -/
def classLiteral (base : Builder NodeId) (isDeclaration : Bool) : Builder NodeId := do
  let position ← here
  expectWord "class"
  let name ←
    if (← current).isIdentifier then pure (← advance).text
    else if isDeclaration then fail .classWithoutName
    else pure []
  let superClass ←
    if ← atWord "extends" then
      skip
      some <$> base
    else pure none
  expect openBrace
  let members ← repeatUntil (atPunct closeBrace) do
    if ← eat ";" then return none
    return some (← member rules (← tokensLeft) true)
  expect closeBrace
  let members := members.filter Option.isSome
  if isDeclaration then make (.classDeclaration name superClass members) position
  else make (.classExpression name superClass members) position

end PlainScript.Building
