import PlainScript.Text.Position

/-! Nodes of a script's tree. A payload is a closed sum over the kinds of node and is generic in
what a child is: a tree of its own, or the number of a node in an arena. Every child slot may be
empty, since edits can leave one so. -/
namespace PlainScript

inductive PropertyKind
  | init
  | get
  | set
  | method
  | field
  | spread
  deriving DecidableEq, Repr

/-- The payload of a node with children of type `α`. -/
inductive Payload (α : Type)
  | program (body : List (Option α))
  | variableDeclaration (keyword : Text) (declarations : List (Option α))
  | variableDeclarator (id init : Option α)
  | functionDeclaration (name : Text) (params : List (Option α)) (body : Option α)
      (isAsync isGenerator : Bool)
  | classDeclaration (name : Text) (superClass : Option α) (members : List (Option α))
  | returnStatement (argument : Option α)
  | ifStatement (test consequent alternate : Option α)
  | whileStatement (test body : Option α)
  | doWhileStatement (body test : Option α)
  | forStatement (init test update body : Option α)
  | forInStatement (left right body : Option α) (isOf : Bool)
  | blockStatement (body : List (Option α))
  | expressionStatement (expression : Option α)
  | switchStatement (discriminant : Option α) (cases : List (Option α))
  | switchCase (test : Option α) (consequent : List (Option α))
  | breakStatement (label : Text)
  | continueStatement (label : Text)
  | throwStatement (argument : Option α)
  | tryStatement (block param handler finalizer : Option α)
  | debuggerStatement
  | emptyStatement
  | labeledStatement (label : Text) (body : Option α)
  | rawStatement (text : Text)
  | identifier (name : Text)
  | numericLiteral (value : Float) (raw : Text) (isBigInt : Bool)
  | stringLiteral (value raw : Text)
  | booleanLiteral (value : Bool)
  | nullLiteral
  | regExpLiteral (raw : Text)
  | templateLiteral (raw : Text)
  | taggedTemplateExpression (tag quasi : Option α)
  | thisExpression
  | arrayExpression (elements : List (Option α))
  | objectExpression (properties : List (Option α))
  | property (key value : Option α) (kind : PropertyKind) (computed shorthand isStatic : Bool)
  | functionExpression (name : Text) (params : List (Option α)) (body : Option α)
      (isAsync isGenerator : Bool)
  | arrowFunctionExpression (params : List (Option α)) (body : Option α) (isAsync : Bool)
  | classExpression (name : Text) (superClass : Option α) (members : List (Option α))
  | unaryExpression (op : Text) (argument : Option α)
  | updateExpression (op : Text) (isPrefixed : Bool) (argument : Option α)
  | binaryExpression (op : Text) (left right : Option α)
  | assignmentExpression (op : Text) (left right : Option α)
  | conditionalExpression (test consequent alternate : Option α)
  | callExpression (callee : Option α) (arguments : List (Option α)) (optional : Bool)
  | newExpression (callee : Option α) (arguments : List (Option α))
  | memberExpression (object property : Option α) (computed optional : Bool)
  | sequenceExpression (expressions : List (Option α))
  | spreadElement (argument : Option α)
  deriving DecidableEq

/-- The kinds of node, statements first. -/
inductive Kind
  | program | variableDeclaration | variableDeclarator | functionDeclaration | classDeclaration
  | returnStatement | ifStatement | whileStatement | doWhileStatement | forStatement
  | forInStatement | blockStatement | expressionStatement | switchStatement | switchCase
  | breakStatement | continueStatement | throwStatement | tryStatement | debuggerStatement
  | emptyStatement | labeledStatement | rawStatement
  | identifier | numericLiteral | stringLiteral | booleanLiteral | nullLiteral | regExpLiteral
  | templateLiteral | taggedTemplateExpression | thisExpression | arrayExpression
  | objectExpression | property | functionExpression | arrowFunctionExpression | classExpression
  | unaryExpression | updateExpression | binaryExpression | assignmentExpression
  | conditionalExpression | callExpression | newExpression | memberExpression
  | sequenceExpression | spreadElement
  deriving DecidableEq, Repr

namespace Kind

def name : Kind → Text
  | program => "Program"
  | variableDeclaration => "VariableDeclaration"
  | variableDeclarator => "VariableDeclarator"
  | functionDeclaration => "FunctionDeclaration"
  | classDeclaration => "ClassDeclaration"
  | returnStatement => "ReturnStatement"
  | ifStatement => "IfStatement"
  | whileStatement => "WhileStatement"
  | doWhileStatement => "DoWhileStatement"
  | forStatement => "ForStatement"
  | forInStatement => "ForInStatement"
  | blockStatement => "BlockStatement"
  | expressionStatement => "ExpressionStatement"
  | switchStatement => "SwitchStatement"
  | switchCase => "SwitchCase"
  | breakStatement => "BreakStatement"
  | continueStatement => "ContinueStatement"
  | throwStatement => "ThrowStatement"
  | tryStatement => "TryStatement"
  | debuggerStatement => "DebuggerStatement"
  | emptyStatement => "EmptyStatement"
  | labeledStatement => "LabeledStatement"
  | rawStatement => "RawStatement"
  | identifier => "Identifier"
  | numericLiteral => "NumericLiteral"
  | stringLiteral => "StringLiteral"
  | booleanLiteral => "BooleanLiteral"
  | nullLiteral => "NullLiteral"
  | regExpLiteral => "RegExpLiteral"
  | templateLiteral => "TemplateLiteral"
  | taggedTemplateExpression => "TaggedTemplateExpression"
  | thisExpression => "ThisExpression"
  | arrayExpression => "ArrayExpression"
  | objectExpression => "ObjectExpression"
  | property => "Property"
  | functionExpression => "FunctionExpression"
  | arrowFunctionExpression => "ArrowFunctionExpression"
  | classExpression => "ClassExpression"
  | unaryExpression => "UnaryExpression"
  | updateExpression => "UpdateExpression"
  | binaryExpression => "BinaryExpression"
  | assignmentExpression => "AssignmentExpression"
  | conditionalExpression => "ConditionalExpression"
  | callExpression => "CallExpression"
  | newExpression => "NewExpression"
  | memberExpression => "MemberExpression"
  | sequenceExpression => "SequenceExpression"
  | spreadElement => "SpreadElement"

/-- The kinds that stand alone in a statement list. -/
def isStatement : Kind → Bool
  | variableDeclaration | functionDeclaration | classDeclaration | returnStatement | ifStatement
  | whileStatement | doWhileStatement | forStatement | forInStatement | blockStatement
  | expressionStatement | switchStatement | breakStatement | continueStatement | throwStatement
  | tryStatement | debuggerStatement | emptyStatement | labeledStatement | rawStatement => true
  | _ => false

def isFunction : Kind → Bool
  | functionDeclaration | functionExpression | arrowFunctionExpression => true
  | _ => false

def isLoop : Kind → Bool
  | whileStatement | doWhileStatement | forStatement | forInStatement => true
  | _ => false

end Kind

namespace Payload

def kind {α : Type} : Payload α → Kind
  | program .. => .program
  | variableDeclaration .. => .variableDeclaration
  | variableDeclarator .. => .variableDeclarator
  | functionDeclaration .. => .functionDeclaration
  | classDeclaration .. => .classDeclaration
  | returnStatement .. => .returnStatement
  | ifStatement .. => .ifStatement
  | whileStatement .. => .whileStatement
  | doWhileStatement .. => .doWhileStatement
  | forStatement .. => .forStatement
  | forInStatement .. => .forInStatement
  | blockStatement .. => .blockStatement
  | expressionStatement .. => .expressionStatement
  | switchStatement .. => .switchStatement
  | switchCase .. => .switchCase
  | breakStatement .. => .breakStatement
  | continueStatement .. => .continueStatement
  | throwStatement .. => .throwStatement
  | tryStatement .. => .tryStatement
  | debuggerStatement => .debuggerStatement
  | emptyStatement => .emptyStatement
  | labeledStatement .. => .labeledStatement
  | rawStatement .. => .rawStatement
  | identifier .. => .identifier
  | numericLiteral .. => .numericLiteral
  | stringLiteral .. => .stringLiteral
  | booleanLiteral .. => .booleanLiteral
  | nullLiteral => .nullLiteral
  | regExpLiteral .. => .regExpLiteral
  | templateLiteral .. => .templateLiteral
  | taggedTemplateExpression .. => .taggedTemplateExpression
  | thisExpression => .thisExpression
  | arrayExpression .. => .arrayExpression
  | objectExpression .. => .objectExpression
  | property .. => .property
  | functionExpression .. => .functionExpression
  | arrowFunctionExpression .. => .arrowFunctionExpression
  | classExpression .. => .classExpression
  | unaryExpression .. => .unaryExpression
  | updateExpression .. => .updateExpression
  | binaryExpression .. => .binaryExpression
  | assignmentExpression .. => .assignmentExpression
  | conditionalExpression .. => .conditionalExpression
  | callExpression .. => .callExpression
  | newExpression .. => .newExpression
  | memberExpression .. => .memberExpression
  | sequenceExpression .. => .sequenceExpression
  | spreadElement .. => .spreadElement

end Payload

/-- A node with children of type `α`: what it is, where it came from, and its comments, of which
the trailing ones stand before the closing brace of a body. -/
structure Node (α : Type) where
  payload : Payload α
  position : Position := {}
  leading : List Text := []
  trailing : List Text := []
  deriving DecidableEq

end PlainScript
