import PlainScript.Node

/-! The fields of payloads by name. A visitor says what becomes of a field of each type; visiting a
payload rebuilds it from its fields in their order, and a payload of a given kind can be built by
visiting a blank one. -/
namespace PlainScript

namespace PropertyKind

def all : List PropertyKind := [init, get, set, method, field, spread]

def name : PropertyKind → Text
  | init => "init"
  | get => "get"
  | set => "set"
  | method => "method"
  | field => "field"
  | spread => "spread"

end PropertyKind

/-- What becomes of a field with a name. -/
structure FieldVisitor (m : Type → Type) (α β : Type) where
  child : Text → Option α → m (Option β)
  children : Text → List (Option α) → m (List (Option β))
  text : Text → Text → m Text
  flag : Text → Bool → m Bool
  number : Text → Float → m Float
  propertyKind : Text → PropertyKind → m PropertyKind

namespace Payload

variable {m : Type → Type} [Applicative m] {α β : Type}

/-- Rebuilds a payload from its fields. -/
def visit (v : FieldVisitor m α β) : Payload α → m (Payload β)
  | program body => program <$> v.children "body" body
  | variableDeclaration keyword declarations =>
    variableDeclaration <$> v.text "declKind" keyword <*> v.children "declarations" declarations
  | variableDeclarator id init => variableDeclarator <$> v.child "id" id <*> v.child "init" init
  | functionDeclaration name params body isAsync isGenerator =>
    functionDeclaration <$> v.text "name" name <*> v.children "params" params
      <*> v.child "body" body <*> v.flag "async" isAsync <*> v.flag "generator" isGenerator
  | classDeclaration name superClass members =>
    classDeclaration <$> v.text "name" name <*> v.child "superClass" superClass
      <*> v.children "members" members
  | returnStatement argument => returnStatement <$> v.child "argument" argument
  | ifStatement test consequent alternate =>
    ifStatement <$> v.child "test" test <*> v.child "consequent" consequent
      <*> v.child "alternate" alternate
  | whileStatement test body => whileStatement <$> v.child "test" test <*> v.child "body" body
  | doWhileStatement body test => doWhileStatement <$> v.child "body" body <*> v.child "test" test
  | forStatement init test update body =>
    forStatement <$> v.child "init" init <*> v.child "test" test <*> v.child "update" update
      <*> v.child "body" body
  | forInStatement left right body isOf =>
    forInStatement <$> v.child "left" left <*> v.child "right" right <*> v.child "body" body
      <*> v.flag "of" isOf
  | blockStatement body => blockStatement <$> v.children "body" body
  | expressionStatement expression => expressionStatement <$> v.child "expression" expression
  | switchStatement discriminant cases =>
    switchStatement <$> v.child "discriminant" discriminant <*> v.children "cases" cases
  | switchCase test consequent =>
    switchCase <$> v.child "test" test <*> v.children "consequent" consequent
  | breakStatement label => breakStatement <$> v.text "label" label
  | continueStatement label => continueStatement <$> v.text "label" label
  | throwStatement argument => throwStatement <$> v.child "argument" argument
  | tryStatement block param handler finalizer =>
    tryStatement <$> v.child "block" block <*> v.child "param" param <*> v.child "handler" handler
      <*> v.child "finalizer" finalizer
  | debuggerStatement => pure debuggerStatement
  | emptyStatement => pure emptyStatement
  | labeledStatement label body =>
    labeledStatement <$> v.text "label" label <*> v.child "body" body
  | rawStatement text => rawStatement <$> v.text "text" text
  | identifier name => identifier <$> v.text "name" name
  | numericLiteral value raw isBigInt =>
    numericLiteral <$> v.number "value" value <*> v.text "raw" raw <*> v.flag "bigint" isBigInt
  | stringLiteral value raw => stringLiteral <$> v.text "value" value <*> v.text "raw" raw
  | booleanLiteral value => booleanLiteral <$> v.flag "value" value
  | nullLiteral => pure nullLiteral
  | regExpLiteral raw => regExpLiteral <$> v.text "raw" raw
  | templateLiteral raw => templateLiteral <$> v.text "raw" raw
  | taggedTemplateExpression tag quasi =>
    taggedTemplateExpression <$> v.child "tag" tag <*> v.child "quasi" quasi
  | thisExpression => pure thisExpression
  | arrayExpression elements => arrayExpression <$> v.children "elements" elements
  | objectExpression properties => objectExpression <$> v.children "properties" properties
  | property key value kind computed shorthand isStatic =>
    property <$> v.child "key" key <*> v.child "value" value <*> v.propertyKind "propKind" kind
      <*> v.flag "computed" computed <*> v.flag "shorthand" shorthand <*> v.flag "static" isStatic
  | functionExpression name params body isAsync isGenerator =>
    functionExpression <$> v.text "name" name <*> v.children "params" params
      <*> v.child "body" body <*> v.flag "async" isAsync <*> v.flag "generator" isGenerator
  | arrowFunctionExpression params body isAsync =>
    arrowFunctionExpression <$> v.children "params" params <*> v.child "body" body
      <*> v.flag "async" isAsync
  | classExpression name superClass members =>
    classExpression <$> v.text "name" name <*> v.child "superClass" superClass
      <*> v.children "members" members
  | unaryExpression op argument =>
    unaryExpression <$> v.text "op" op <*> v.child "argument" argument
  | updateExpression op isPrefixed argument =>
    updateExpression <$> v.text "op" op <*> v.flag "prefix" isPrefixed
      <*> v.child "argument" argument
  | binaryExpression op left right =>
    binaryExpression <$> v.text "op" op <*> v.child "left" left <*> v.child "right" right
  | assignmentExpression op left right =>
    assignmentExpression <$> v.text "op" op <*> v.child "left" left <*> v.child "right" right
  | conditionalExpression test consequent alternate =>
    conditionalExpression <$> v.child "test" test <*> v.child "consequent" consequent
      <*> v.child "alternate" alternate
  | callExpression callee arguments optional =>
    callExpression <$> v.child "callee" callee <*> v.children "arguments" arguments
      <*> v.flag "optional" optional
  | newExpression callee arguments =>
    newExpression <$> v.child "callee" callee <*> v.children "arguments" arguments
  | memberExpression object name computed optional =>
    memberExpression <$> v.child "object" object <*> v.child "property" name
      <*> v.flag "computed" computed <*> v.flag "optional" optional
  | sequenceExpression expressions => sequenceExpression <$> v.children "expressions" expressions
  | spreadElement argument => spreadElement <$> v.child "argument" argument

/-- One payload of each kind, with empty fields. -/
def blanks : List (Payload α) :=
  [program [], variableDeclaration "var" [], variableDeclarator none none,
    functionDeclaration [] [] none false false, classDeclaration [] none [], returnStatement none,
    ifStatement none none none, whileStatement none none, doWhileStatement none none,
    forStatement none none none none, forInStatement none none none false, blockStatement [],
    expressionStatement none, switchStatement none [], switchCase none [], breakStatement [],
    continueStatement [], throwStatement none, tryStatement none none none none,
    debuggerStatement, emptyStatement, labeledStatement [] none, rawStatement [], identifier [],
    numericLiteral 0.0 [] false, stringLiteral [] [], booleanLiteral false, nullLiteral,
    regExpLiteral [], templateLiteral [], taggedTemplateExpression none none, thisExpression,
    arrayExpression [], objectExpression [], property none none .init false false false,
    functionExpression [] [] none false false, arrowFunctionExpression [] none false,
    classExpression [] none [], unaryExpression [] none, updateExpression [] false none,
    binaryExpression [] none none, assignmentExpression [] none none,
    conditionalExpression none none none, callExpression none [] false, newExpression none [],
    memberExpression none none false false, sequenceExpression [], spreadElement none]

/-- The blank payload of the kind with a name. -/
def blank? (name : Text) : Option (Payload α) := blanks.find? (·.kind.name = name)

example : (blanks (α := Nat)).length = 48 := by decide


end Payload

end PlainScript
