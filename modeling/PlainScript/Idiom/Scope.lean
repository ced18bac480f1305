import PlainScript.Arena

/-! Where statements stand. Statements in a list can be replaced by any number of others, declarations
may be bound to their block, and strings at the start of a body are directives. -/
namespace PlainScript.Arena

/-- Whether a node declares names that belong to the block around it. -/
def isBlockScoped (a : Arena) (id : NodeId) : Bool :=
  match a.payload? id with
  | some (.variableDeclaration keyword _) => keyword != "var"
  | some (.classDeclaration ..) => true
  | some (.functionDeclaration ..) => true
  | _ => false

def declaresBlockScoped (a : Arena) (statements : List NodeId) : Bool :=
  statements.any a.isBlockScoped

/-- Whether a node stands in the statement list of its parent. -/
def inStatementList (a : Arena) (id : NodeId) : Bool :=
  match ((a.cell? id).bind (·.parent)).bind a.payload? with
  | some (.program _) => true
  | some (.blockStatement _) => true
  | some (.switchCase test _) => test != some id
  | _ => false

/-- Whether a node is an expression statement that holds just a string. -/
def isStringStatement (a : Arena) (id : NodeId) : Bool :=
  match a.payload? id with
  | some (.expressionStatement (some expression)) => a.isKind .stringLiteral expression
  | _ => false

/-- The statements of a body: a program, or the block of a function. -/
def body? (a : Arena) (id : NodeId) : Option (List NodeId) := do
  let cell ← a.cell? id
  match cell.payload with
  | .program body => return body.filterMap (fun s => s)
  | .blockStatement body =>
    if cell.parent.any a.isFunction then return body.filterMap (fun s => s)
    none
  | _ => none

/-- The statement that an expression makes up. -/
def statementOf? (a : Arena) (expression : NodeId) : Option NodeId := do
  let statement ← (← a.cell? expression).parent
  match ← a.payload? statement with
  | .expressionStatement (some e) => if e = expression then return statement else none
  | _ => none

/-- Whether a string is a directive: a statement of its own that only strings come before in a
body. -/
def isDirective (a : Arena) (literal : NodeId) : Bool :=
  let found? : Option Bool := do
    let statement ← a.statementOf? literal
    let owner ← (← a.cell? statement).parent
    let body ← a.body? owner
    return body.contains statement && (body.takeWhile (· != statement)).all a.isStringStatement
  found?.getD false

end PlainScript.Arena
