import PlainScript.Grammar.Expression

/-! Statements. A semicolon may be left out before a line, a closing brace and the end. -/
namespace PlainScript.Grammar

variable (rules : Rules)

/-- The word `let` begins a declaration only before a name or a pattern. -/
def atLexicalDeclaration : Parser Bool := do
  if ← atWord "const" then return true
  let next ← ahead 1
  return (← atName "let") &&
    (next.isIdentifier || next.isPunctuator "[" || next.isPunctuator openBrace)

def variableDeclaration (allowIn : Bool) : Parser Tree := do
  let position ← here
  let keyword := (← advance).text
  let declarator : Parser Tree := do
    let position ← here
    let target ← bindingTarget rules (object rules)
    let init ← if ← eat "=" then some <$> rules (.assignment allowIn) else pure none
    return .of (.variableDeclarator (some target) init) position
  let first ← declarator
  let others ← repeatUntil (return !(← atPunct ",")) do
    skip
    declarator
  return .of (.variableDeclaration keyword (some first :: others.map some)) position

/-- An expression in parentheses. -/
def condition : Parser Tree := do
  expect "("
  let test ← expression rules true
  expect ")"
  return test

def ifStatement : Parser Tree := do
  let position ← here
  expectWord "if"
  let test ← condition rules
  let consequent ← rules .statement
  let alternate ←
    if ← atWord "else" then
      skip
      some <$> rules .statement
    else pure none
  return .of (.ifStatement (some test) (some consequent) alternate) position

/-- An expression that may be missing before `closing`. -/
def optionalExpression (closing : Text) : Parser (Option Tree) := do
  let e ← if ← atPunct closing then pure none else some <$> expression rules true
  expect closing
  return e

def forStatement : Parser Tree := do
  let position ← here
  expectWord "for"
  let isAwait ← atName "await"
  if isAwait then skip
  expect "("
  let init ←
    if ← atPunct ";" then pure none
    else if (← atWord "var") || (← atLexicalDeclaration) then
      some <$> variableDeclaration rules false
    else some <$> expression rules false
  let isOf ← atName "of"
  if isOf || (← atWord "in") then
    skip
    let right ← if isOf then rules (.assignment true) else expression rules true
    expect ")"
    let body ← rules .statement
    return .of (.forInStatement init (some right) (some body) isOf) position
  if isAwait then fail .awaitWithoutOf
  expect ";"
  let test ← optionalExpression rules ";"
  let update ← optionalExpression rules ")"
  let body ← rules .statement
  return .of (.forStatement init test update (some body)) position

def whileStatement : Parser Tree := do
  let position ← here
  expectWord "while"
  let test ← condition rules
  let body ← rules .statement
  return .of (.whileStatement (some test) (some body)) position

def doWhileStatement : Parser Tree := do
  let position ← here
  expectWord "do"
  let body ← rules .statement
  expectWord "while"
  let test ← condition rules
  discard (eat ";")
  return .of (.doWhileStatement (some body) (some test)) position

def returnStatement : Parser Tree := do
  let position ← here
  expectWord "return"
  let t ← current
  let isBare := t.isPunctuator ";" || t.isPunctuator closeBrace || t.isEnd || t.newlineBefore
  let argument ← if isBare then pure none else some <$> expression rules true
  semicolon
  return .of (.returnStatement argument) position

/-- The label of a jump, empty when there is none on the same line. -/
def jumpLabel : Parser Text := do
  skip
  let t ← current
  let label ← if t.isIdentifier && !t.newlineBefore then pure (← advance).text else pure []
  semicolon
  return label

def throwStatement : Parser Tree := do
  let position ← here
  expectWord "throw"
  if (← current).newlineBefore then fail .lineBreakAfterThrow
  let argument ← expression rules true
  semicolon
  return .of (.throwStatement (some argument)) position

def tryStatement : Parser Tree := do
  let position ← here
  expectWord "try"
  let body ← block rules
  let (param, handler) ←
    if ← atWord "catch" then
      skip
      let param ←
        if ← eat "(" then
          let target ← bindingTarget rules (object rules)
          expect ")"
          pure (some target)
        else pure none
      pure (param, some (← block rules))
    else pure (none, none)
  let finalizer ←
    if ← atWord "finally" then
      skip
      some <$> block rules
    else pure none
  if handler.isNone && finalizer.isNone then fail .tryAlone
  return .of (.tryStatement (some body) param handler finalizer) position

/-- A clause of a switch; `defaultSeen` says whether an earlier one is the default. -/
def clause (defaultSeen : Bool) : Parser Tree := do
  let leading ← drainComments
  let position ← here
  let test ←
    if ← atWord "case" then
      skip
      some <$> expression rules true
    else if ← atWord "default" then
      if defaultSeen then fail .duplicateDefault
      skip
      pure none
    else unexpected
  expect ":"
  let consequent ← statementList rules .caseClause
  return .mk { payload := .switchCase test (consequent.map some), position, leading }

def isDefaultClause (t : Tree) : Bool :=
  match t.node.payload with
  | .switchCase none _ => true
  | _ => false

def switchStatement : Parser Tree := do
  let position ← here
  expectWord "switch"
  let discriminant ← condition rules
  expect openBrace
  let clauses ← extend (fun (clauses : List Tree) => do
    if ← atPunct closeBrace then return none
    return some (clauses ++ [← clause rules (clauses.any isDefaultClause)])) []
  let trailing ← drainComments
  expect closeBrace
  return .mk
    { payload := .switchStatement (some discriminant) (clauses.map some), position, trailing }

def labeledStatement : Parser Tree := do
  let position ← here
  let label := (← advance).text
  skip
  let body ← rules .statement
  return .of (.labeledStatement label (some body)) position

def expressionStatement : Parser Tree := do
  let position ← here
  let e ← expression rules true
  semicolon
  return .of (.expressionStatement (some e)) position

/-- A leaf that is a statement of one token and a semicolon. -/
def debuggerStatement : Parser Tree := do
  let position ← here
  skip
  semicolon
  return .of .debuggerStatement position

/-- A statement without the comments before it. -/
def bareStatement : Parser Tree := do
  let t ← current
  let next ← ahead 1
  let declaration : Parser Tree := do
    let d ← variableDeclaration rules true
    semicolon
    return d
  let isWord (word : Text) : Bool := t.isKeyword word
  if t.isPunctuator openBrace then block rules
  else if t.isPunctuator ";" then
    skip
    return .of .emptyStatement t.position
  else if isWord "var" || isWord "const" then declaration
  else if isWord "function" then functionDeclaration rules false
  else if isWord "class" then classLiteral rules (operand rules) true
  else if isWord "if" then ifStatement rules
  else if isWord "for" then forStatement rules
  else if isWord "while" then whileStatement rules
  else if isWord "do" then doWhileStatement rules
  else if isWord "return" then returnStatement rules
  else if isWord "break" then return .of (.breakStatement (← jumpLabel)) t.position
  else if isWord "continue" then return .of (.continueStatement (← jumpLabel)) t.position
  else if isWord "throw" then throwStatement rules
  else if isWord "try" then tryStatement rules
  else if isWord "switch" then switchStatement rules
  else if isWord "debugger" then debuggerStatement
  else if isWord "with" then fail .withStatement
  else if isWord "export" then fail .exportDeclaration
  else if isWord "import" && !next.isPunctuator "(" && !next.isPunctuator "." then
    fail .importDeclaration
  else if ← atLexicalDeclaration then declaration
  else if t.isName "async" && next.isKeyword "function" && !next.newlineBefore then
    skip
    functionDeclaration rules true
  else if t.isIdentifier && next.isPunctuator ":" then labeledStatement rules
  else expressionStatement rules

/-- A statement with the comments before it. -/
def statement : Parser Tree := do
  let comments ← drainComments
  return (← bareStatement rules).withLeading comments

end PlainScript.Grammar
