import PlainScript.Node.Slots

/-! Trees that hold their children, the form in which source text is read. `fold` replaces every
node by a value made from the values of its children. -/
namespace PlainScript

/-- A tree that holds its children. -/
inductive Tree
  | mk (node : Node Tree)

namespace Tree

def node : Tree → Node Tree
  | mk n => n

/-- A tree without comments. -/
def of (payload : Payload Tree) (position : Position) : Tree := mk { payload, position }

def kind (t : Tree) : Kind := t.node.payload.kind

def withLeading (comments : List Text) (t : Tree) : Tree :=
  mk { t.node with leading := comments ++ t.node.leading }

def withTrailing (comments : List Text) (t : Tree) : Tree :=
  mk { t.node with trailing := comments }

mutual

/-- The value of a tree, given that of a node whose children are values. -/
def fold {β : Type} (f : Node β → β) : Tree → β
  | mk ⟨payload, position, leading, trailing⟩ =>
    f ⟨foldPayload f payload, position, leading, trailing⟩

def foldPayload {β : Type} (f : Node β → β) : Payload Tree → Payload β
  | .program body => .program (foldSlots f body)
  | .variableDeclaration keyword declarations =>
    .variableDeclaration keyword (foldSlots f declarations)
  | .variableDeclarator id init => .variableDeclarator (foldSlot f id) (foldSlot f init)
  | .functionDeclaration name params body isAsync isGenerator =>
    .functionDeclaration name (foldSlots f params) (foldSlot f body) isAsync isGenerator
  | .classDeclaration name superClass members =>
    .classDeclaration name (foldSlot f superClass) (foldSlots f members)
  | .returnStatement argument => .returnStatement (foldSlot f argument)
  | .ifStatement test consequent alternate =>
    .ifStatement (foldSlot f test) (foldSlot f consequent) (foldSlot f alternate)
  | .whileStatement test body => .whileStatement (foldSlot f test) (foldSlot f body)
  | .doWhileStatement body test => .doWhileStatement (foldSlot f body) (foldSlot f test)
  | .forStatement init test update body =>
    .forStatement (foldSlot f init) (foldSlot f test) (foldSlot f update) (foldSlot f body)
  | .forInStatement left right body isOf =>
    .forInStatement (foldSlot f left) (foldSlot f right) (foldSlot f body) isOf
  | .blockStatement body => .blockStatement (foldSlots f body)
  | .expressionStatement expression => .expressionStatement (foldSlot f expression)
  | .switchStatement discriminant cases =>
    .switchStatement (foldSlot f discriminant) (foldSlots f cases)
  | .switchCase test consequent => .switchCase (foldSlot f test) (foldSlots f consequent)
  | .breakStatement label => .breakStatement label
  | .continueStatement label => .continueStatement label
  | .throwStatement argument => .throwStatement (foldSlot f argument)
  | .tryStatement block param handler finalizer =>
    .tryStatement (foldSlot f block) (foldSlot f param) (foldSlot f handler) (foldSlot f finalizer)
  | .debuggerStatement => .debuggerStatement
  | .emptyStatement => .emptyStatement
  | .labeledStatement label body => .labeledStatement label (foldSlot f body)
  | .rawStatement text => .rawStatement text
  | .identifier name => .identifier name
  | .numericLiteral value raw isBigInt => .numericLiteral value raw isBigInt
  | .stringLiteral value raw => .stringLiteral value raw
  | .booleanLiteral value => .booleanLiteral value
  | .nullLiteral => .nullLiteral
  | .regExpLiteral raw => .regExpLiteral raw
  | .templateLiteral raw => .templateLiteral raw
  | .taggedTemplateExpression tag quasi =>
    .taggedTemplateExpression (foldSlot f tag) (foldSlot f quasi)
  | .thisExpression => .thisExpression
  | .arrayExpression elements => .arrayExpression (foldSlots f elements)
  | .objectExpression properties => .objectExpression (foldSlots f properties)
  | .property key value kind computed shorthand isStatic =>
    .property (foldSlot f key) (foldSlot f value) kind computed shorthand isStatic
  | .functionExpression name params body isAsync isGenerator =>
    .functionExpression name (foldSlots f params) (foldSlot f body) isAsync isGenerator
  | .arrowFunctionExpression params body isAsync =>
    .arrowFunctionExpression (foldSlots f params) (foldSlot f body) isAsync
  | .classExpression name superClass members =>
    .classExpression name (foldSlot f superClass) (foldSlots f members)
  | .unaryExpression op argument => .unaryExpression op (foldSlot f argument)
  | .updateExpression op isPrefixed argument =>
    .updateExpression op isPrefixed (foldSlot f argument)
  | .binaryExpression op left right => .binaryExpression op (foldSlot f left) (foldSlot f right)
  | .assignmentExpression op left right =>
    .assignmentExpression op (foldSlot f left) (foldSlot f right)
  | .conditionalExpression test consequent alternate =>
    .conditionalExpression (foldSlot f test) (foldSlot f consequent) (foldSlot f alternate)
  | .callExpression callee arguments optional =>
    .callExpression (foldSlot f callee) (foldSlots f arguments) optional
  | .newExpression callee arguments => .newExpression (foldSlot f callee) (foldSlots f arguments)
  | .memberExpression object property computed optional =>
    .memberExpression (foldSlot f object) (foldSlot f property) computed optional
  | .sequenceExpression expressions => .sequenceExpression (foldSlots f expressions)
  | .spreadElement argument => .spreadElement (foldSlot f argument)

def foldSlot {β : Type} (f : Node β → β) : Option Tree → Option β
  | none => none
  | some t => some (fold f t)

def foldSlots {β : Type} (f : Node β → β) : List (Option Tree) → List (Option β)
  | [] => []
  | t :: rest => foldSlot f t :: foldSlots f rest

end

/-- How many nodes a tree has. -/
def size (t : Tree) : Nat := t.fold fun n => 1 + n.payload.children.foldr (· + ·) 0

end Tree

end PlainScript
