import PlainScript.Building.Operand

/-! Statements and whole scripts, read into an arena. -/
namespace PlainScript

namespace Building

open Grammar (State Context Parser Rule here current ahead atPunct atWord atName skip advance eat expect
  expectWord unexpected fail semicolon drainComments atLexicalDeclaration jumpLabel)

variable (rules : NodeRules)

/-! ### Statements -/

def variableDeclaration (allowIn : Bool) : Builder NodeId := do
  let position ← here
  let keyword := (← advance).text
  let declarator : Builder NodeId := do
    let position ← here
    let target ← bindingTarget rules (object rules)
    let init ← if ← eat "=" then some <$> rules (.assignment allowIn) else pure none
    make (.variableDeclarator (some target) init) position
  let first ← declarator
  let others ← repeatUntil (return !(← atPunct ",")) do
    skip
    declarator
  make (.variableDeclaration keyword (some first :: others.map some)) position

/-- An expression in parentheses. -/
def condition : Builder NodeId := do
  expect "("
  let test ← expression rules true
  expect ")"
  return test

def ifStatement : Builder NodeId := do
  let position ← here
  expectWord "if"
  let test ← condition rules
  let consequent ← rules .statement
  let alternate ←
    if ← atWord "else" then
      skip
      some <$> rules .statement
    else pure none
  make (.ifStatement (some test) (some consequent) alternate) position

/-- An expression that may be missing before `closing`. -/
def optionalExpression (closing : Text) : Builder (Option NodeId) := do
  let e ← if ← atPunct closing then pure none else some <$> expression rules true
  expect closing
  return e

def forStatement : Builder NodeId := do
  let position ← here
  expectWord "for"
  let isAwait ← atName "await"
  if isAwait then skip
  expect "("
  let init ←
    if ← atPunct ";" then pure none
    else if (← atWord "var") || (← atLexicalDeclaration) then
      some <$> variableDeclaration rules false
    else some <$> expression rules false
  let isOf ← atName "of"
  if isOf || (← atWord "in") then
    skip
    let right ← if isOf then rules (.assignment true) else expression rules true
    expect ")"
    let body ← rules .statement
    make (.forInStatement init (some right) (some body) isOf) position
  else
    if isAwait then fail .awaitWithoutOf
    expect ";"
    let test ← optionalExpression rules ";"
    let update ← optionalExpression rules ")"
    let body ← rules .statement
    make (.forStatement init test update (some body)) position

def whileStatement : Builder NodeId := do
  let position ← here
  expectWord "while"
  let test ← condition rules
  let body ← rules .statement
  make (.whileStatement (some test) (some body)) position

def doWhileStatement : Builder NodeId := do
  let position ← here
  expectWord "do"
  let body ← rules .statement
  expectWord "while"
  let test ← condition rules
  (discard (eat ";") : Parser Unit)
  make (.doWhileStatement (some body) (some test)) position

def returnStatement : Builder NodeId := do
  let position ← here
  expectWord "return"
  let t ← current
  let isBare := t.isPunctuator ";" || t.isPunctuator closeBrace || t.isEnd || t.newlineBefore
  let argument ← if isBare then pure none else some <$> expression rules true
  semicolon
  make (.returnStatement argument) position

def throwStatement : Builder NodeId := do
  let position ← here
  expectWord "throw"
  if (← current).newlineBefore then fail .lineBreakAfterThrow
  let argument ← expression rules true
  semicolon
  make (.throwStatement (some argument)) position

def tryStatement : Builder NodeId := do
  let position ← here
  expectWord "try"
  let body ← block rules
  let (param, handler) ←
    if ← atWord "catch" then
      skip
      let param ←
        if ← eat "(" then
          let target ← bindingTarget rules (object rules)
          expect ")"
          pure (some target)
        else pure none
      pure (param, some (← block rules))
    else pure (none, none)
  let finalizer ←
    if ← atWord "finally" then
      skip
      some <$> block rules
    else pure none
  if handler.isNone && finalizer.isNone then fail .tryAlone
  make (.tryStatement (some body) param handler finalizer) position

/-- A clause of a switch, and whether it is the default; `defaultSeen` says whether an earlier one is. -/
def clause (defaultSeen : Bool) : Builder (NodeId × Bool) := do
  let leading ← drainComments
  let position ← here
  let test ←
    if ← atWord "case" then
      skip
      some <$> expression rules true
    else if ← atWord "default" then
      if defaultSeen then fail .duplicateDefault
      skip
      pure none
    else unexpected
  expect ":"
  let consequent ← statementList rules .caseClause
  let id ← make (.switchCase test (consequent.map some)) position
  lead id leading
  return (id, test.isNone)

def switchStatement : Builder NodeId := do
  let position ← here
  expectWord "switch"
  let discriminant ← condition rules
  expect openBrace
  let clauses ← extend (fun (clauses : List NodeId × Bool) => do
    if ← atPunct closeBrace then return none
    let (id, isDefault) ← clause rules clauses.2
    return some (clauses.1 ++ [id], clauses.2 || isDefault)) ([], false)
  let trailing ← drainComments
  expect closeBrace
  let id ← make (.switchStatement (some discriminant) (clauses.1.map some)) position
  trail id trailing
  return id

def labeledStatement : Builder NodeId := do
  let position ← here
  let label := (← advance).text
  skip
  let body ← rules .statement
  make (.labeledStatement label (some body)) position

def expressionStatement : Builder NodeId := do
  let position ← here
  let e ← expression rules true
  semicolon
  make (.expressionStatement (some e)) position

def debuggerStatement : Builder NodeId := do
  let position ← here
  skip
  semicolon
  make .debuggerStatement position

/-- A statement without the comments before it. -/
def bareStatement : Builder NodeId := do
  let t ← current
  let next ← ahead 1
  let declaration : Builder NodeId := do
    let d ← variableDeclaration rules true
    semicolon
    return d
  let isWord (word : Text) : Bool := t.isKeyword word
  if t.isPunctuator openBrace then block rules
  else if t.isPunctuator ";" then
    skip
    make .emptyStatement t.position
  else if isWord "var" || isWord "const" then declaration
  else if isWord "function" then functionDeclaration rules false
  else if isWord "class" then classLiteral rules (operand rules) true
  else if isWord "if" then ifStatement rules
  else if isWord "for" then forStatement rules
  else if isWord "while" then whileStatement rules
  else if isWord "do" then doWhileStatement rules
  else if isWord "return" then returnStatement rules
  else if isWord "break" then make (.breakStatement (← jumpLabel)) t.position
  else if isWord "continue" then make (.continueStatement (← jumpLabel)) t.position
  else if isWord "throw" then throwStatement rules
  else if isWord "try" then tryStatement rules
  else if isWord "switch" then switchStatement rules
  else if isWord "debugger" then debuggerStatement
  else if isWord "with" then fail .withStatement
  else if isWord "export" then fail .exportDeclaration
  else if isWord "import" && !next.isPunctuator "(" && !next.isPunctuator "." then
    fail .importDeclaration
  else if ← atLexicalDeclaration then declaration
  else if t.isName "async" && next.isKeyword "function" && !next.newlineBefore then
    skip
    functionDeclaration rules true
  else if t.isIdentifier && next.isPunctuator ":" then labeledStatement rules
  else expressionStatement rules

/-- A statement with the comments before it. -/
def statement : Builder NodeId := do
  let comments ← drainComments
  let id ← bareStatement rules
  lead id comments
  return id

/-! ### Scripts -/

def read (rules : NodeRules) : Rule → Builder NodeId
  | .statement => statement rules
  | .assignment allowIn => assignment rules allowIn
  | .unary => unary rules

/-- The rules for texts that nest at most `depth` levels. -/
def rulesUpTo (depth : Nat) (rule : Rule) : Builder NodeId :=
  match depth with
  | 0 => fail .tooDeep
  | depth + 1 => read (rulesUpTo depth) rule

def program : Builder NodeId := do
  let position ← here
  let body ← statementList rules .endOfFile
  let trailing ← drainComments
  let id ← make (.program (body.map some)) position
  trail id trailing
  return id

def script : Builder Unit := do
  let root ← program rules
  editing (Edit.setRoot (some root))

end Building

/-- A script that was read into an arena, with the errors that were recovered from in their order. -/
structure Built where
  arena : Arena
  diagnostics : List ParseError

open Grammar Building in
/-- Reads a script into an arena. -/
def build (source : Text) (options : ParseOptions) : Except BuildError Built := do
  let tokens ← (tokenize source).mapError (.parse ∘ ParseError.ofLexError)
  if let some e := bracketFault? [] tokens then throw (.parse e)
  let first := tokens.headD {}
  let start : State := { current := first, later := tokens.tail, pending := first.comments }
  let context : Context :=
    { source, recover := options.recover, maxRecoveredErrors := options.maxRecoveredErrors }
  match (Building.script (Building.rulesUpTo options.maxDepth.toNat)).run context (start, {}) with
  | .ok _ (final, arena) => return ⟨arena, final.recovered.reverse⟩
  | .error e _ => throw e

end PlainScript
