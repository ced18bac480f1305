import PlainScript.Node

/-! The child slots of a payload, in the order of the source text. A slot holds at most one child
or a list of them, and its role says what may stand there, which decides what an edit may do. -/
namespace PlainScript

inductive Role
  | statement
  | optionalStatement
  | statementList
  | expression
  | optionalExpression
  | nodeList
  deriving DecidableEq, Repr

/-- What a slot holds. -/
inductive Slot (α : Type)
  | one (child : Option α)
  | many (children : List (Option α))
  deriving DecidableEq

def Slot.children {α : Type} : Slot α → List α
  | one c => c.toList
  | many cs => cs.filterMap id

namespace Payload

/-- Rebuilds a payload from its slots, one after the other. -/
def traverse {m : Type → Type} [Applicative m] {α β : Type}
    (one : Role → Option α → m (Option β)) (many : Role → List (Option α) → m (List (Option β))) :
    Payload α → m (Payload β)
  | program body => program <$> many .statementList body
  | variableDeclaration keyword ds => variableDeclaration keyword <$> many .nodeList ds
  | variableDeclarator id init =>
    variableDeclarator <$> one .expression id <*> one .optionalExpression init
  | functionDeclaration name params body isAsync isGenerator =>
    (functionDeclaration name · · isAsync isGenerator) <$> many .nodeList params
      <*> one .statement body
  | classDeclaration name superClass members =>
    classDeclaration name <$> one .optionalExpression superClass <*> many .nodeList members
  | returnStatement argument => returnStatement <$> one .optionalExpression argument
  | ifStatement test consequent alternate =>
    ifStatement <$> one .expression test <*> one .statement consequent
      <*> one .optionalStatement alternate
  | whileStatement test body => whileStatement <$> one .expression test <*> one .statement body
  | doWhileStatement body test =>
    doWhileStatement <$> one .statement body <*> one .expression test
  | forStatement init test update body =>
    forStatement <$> one .optionalExpression init <*> one .optionalExpression test
      <*> one .optionalExpression update <*> one .statement body
  | forInStatement left right body isOf =>
    (forInStatement · · · isOf) <$> one .expression left <*> one .expression right
      <*> one .statement body
  | blockStatement body => blockStatement <$> many .statementList body
  | expressionStatement expression => expressionStatement <$> one .expression expression
  | switchStatement discriminant cases =>
    switchStatement <$> one .expression discriminant <*> many .nodeList cases
  | switchCase test consequent =>
    switchCase <$> one .optionalExpression test <*> many .statementList consequent
  | breakStatement label => pure (breakStatement label)
  | continueStatement label => pure (continueStatement label)
  | throwStatement argument => throwStatement <$> one .expression argument
  | tryStatement block param handler finalizer =>
    tryStatement <$> one .statement block <*> one .optionalExpression param
      <*> one .optionalStatement handler <*> one .optionalStatement finalizer
  | debuggerStatement => pure debuggerStatement
  | emptyStatement => pure emptyStatement
  | labeledStatement label body => labeledStatement label <$> one .statement body
  | rawStatement text => pure (rawStatement text)
  | identifier name => pure (identifier name)
  | numericLiteral value raw isBigInt => pure (numericLiteral value raw isBigInt)
  | stringLiteral value raw => pure (stringLiteral value raw)
  | booleanLiteral value => pure (booleanLiteral value)
  | nullLiteral => pure nullLiteral
  | regExpLiteral raw => pure (regExpLiteral raw)
  | templateLiteral raw => pure (templateLiteral raw)
  | taggedTemplateExpression tag quasi =>
    taggedTemplateExpression <$> one .expression tag <*> one .expression quasi
  | thisExpression => pure thisExpression
  | arrayExpression elements => arrayExpression <$> many .nodeList elements
  | objectExpression properties => objectExpression <$> many .nodeList properties
  | property key value kind computed shorthand isStatic =>
    (property · · kind computed shorthand isStatic) <$> one .optionalExpression key
      <*> one .optionalExpression value
  | functionExpression name params body isAsync isGenerator =>
    (functionExpression name · · isAsync isGenerator) <$> many .nodeList params
      <*> one .statement body
  | arrowFunctionExpression params body isAsync =>
    (arrowFunctionExpression · · isAsync) <$> many .nodeList params <*> one .expression body
  | classExpression name superClass members =>
    classExpression name <$> one .optionalExpression superClass <*> many .nodeList members
  | unaryExpression op argument => unaryExpression op <$> one .optionalExpression argument
  | updateExpression op isPrefixed argument =>
    updateExpression op isPrefixed <$> one .expression argument
  | binaryExpression op left right =>
    binaryExpression op <$> one .expression left <*> one .expression right
  | assignmentExpression op left right =>
    assignmentExpression op <$> one .expression left <*> one .expression right
  | conditionalExpression test consequent alternate =>
    conditionalExpression <$> one .expression test <*> one .expression consequent
      <*> one .expression alternate
  | callExpression callee arguments optional =>
    (callExpression · · optional) <$> one .expression callee <*> many .nodeList arguments
  | newExpression callee arguments =>
    newExpression <$> one .expression callee <*> many .nodeList arguments
  | memberExpression object name computed optional =>
    (memberExpression · · computed optional) <$> one .expression object
      <*> one .expression name
  | sequenceExpression expressions => sequenceExpression <$> many .nodeList expressions
  | spreadElement argument => spreadElement <$> one .expression argument

variable {α : Type}

/-- The slots with their roles. -/
def slots (p : Payload α) : List (Role × Slot α) :=
  let note (role : Role) (slot : Slot α) : StateM (List (Role × Slot α)) Unit :=
    modify (· ++ [(role, slot)])
  let run : StateM (List (Role × Slot α)) (Payload α) :=
    p.traverse (fun role c => do note role (.one c); pure c)
      (fun role cs => do note role (.many cs); pure cs)
  (run.run []).2

/-- The children, empty slots left out. -/
def children (p : Payload α) : List α := p.slots.flatMap fun (_, slot) => slot.children

/-- The payload with its `n`th slot changed. -/
def modifySlot (n : Nat) (one : Option α → Option α) (many : List (Option α) → List (Option α))
    (p : Payload α) : Payload α :=
  let turn : StateM Nat Bool := modifyGet fun k => (k == n, k + 1)
  let run : StateM Nat (Payload α) :=
    p.traverse (fun _ c => do return if ← turn then one c else c)
      (fun _ cs => do return if ← turn then many cs else cs)
  (run.run 0).1

@[simp] theorem slots_ifStatement (t c a : Option α) :
    (ifStatement t c a).slots =
      [(.expression, .one t), (.statement, .one c), (.optionalStatement, .one a)] := rfl

@[simp] theorem slots_blockStatement (body : List (Option α)) :
    (blockStatement body).slots = [(.statementList, .many body)] := rfl

/-- Where a child stands: the number and the role of its slot, and its index in a list. -/
structure Place where
  slot : Nat
  role : Role
  index : Option Nat
  deriving DecidableEq, Repr

def placeIn [DecidableEq α] (child : α) : Nat → List (Role × Slot α) → Option Place
  | _, [] => none
  | n, (role, .one c) :: rest =>
    if c = some child then some ⟨n, role, none⟩ else placeIn child (n + 1) rest
  | n, (role, .many cs) :: rest =>
    match cs.idxOf? (some child) with
    | some i => some ⟨n, role, some i⟩
    | none => placeIn child (n + 1) rest

/-- The first place where a child stands. -/
def place? [DecidableEq α] (p : Payload α) (child : α) : Option Place := placeIn child 0 p.slots

/-- The payload with something else at a place: nothing or one child in a single slot, and any
number of children in a list. -/
def splice (p : Payload α) (place : Place) (replacement : List α) : Payload α :=
  match place.index with
  | none => p.modifySlot place.slot (fun _ => replacement.head?) id
  | some i =>
    p.modifySlot place.slot id fun cs => cs.take i ++ replacement.map some ++ cs.drop (i + 1)

end Payload

end PlainScript
