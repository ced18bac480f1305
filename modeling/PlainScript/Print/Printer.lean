import PlainScript.Print.Operator

/-! Text for trees. Statements take a line each, two blanks of indentation per level, and braces
where a branch would otherwise take the `else` of another. Statements and expressions are printed
up to a depth; a run of operators of one level counts once however long it is. Where an
expression has several operands, the last one is printed first, which shows when two of them have
no text. -/
namespace PlainScript

namespace Print

/-- What is printed inside something else, with its indentation. An expression gets parentheses if
its level is below `least`. -/
inductive Part
  | statement (indent : Nat)
  | expression (indent least : Nat)
  deriving DecidableEq, Repr

variable {α : Type} (source : NodeSource α) (inner : Part → α → Except PrintError Text)

def pad (indent : Nat) : Text := Text.replicate (2 * indent) ' '

def commentLines (indent : Nat) (comments : List Text) : Text :=
  comments.flatMap fun c => c ++ "\n" ++ pad indent

/-- The comments before a closing brace, a line each. -/
def closingComments (indent : Nat) (comments : List Text) : List Text :=
  comments.map (pad indent ++ ·)

def expression (indent least : Nat) (what : Text) (slot : Option α) : Except PrintError Text := do
  inner (.expression indent least) (← source.need what slot).1

/-- A statement of a list with the comments before it. -/
def statementLine (indent : Nat) (slot : Option α) : Except PrintError Text := do
  let (a, node) ← source.need "statement in list" slot
  return pad indent ++ commentLines indent node.leading ++ (← inner (.statement indent) a)

def statementLines (indent : Nat) (body : List (Option α)) (trailing : List Text) :
    Except PrintError (List Text) := do
  return (← body.mapM (statementLine source inner indent)) ++ closingComments indent trailing

/-- Lines with a line feed after each, and what follows them. -/
def linesBefore (rest : Text) : List Text → Text
  | [] => rest
  | line :: lines => line ++ ("\n" ++ linesBefore rest lines)

/-- Lines between braces, one level further in. -/
def braced (indent : Nat) (lines : List Text) : Text :=
  openBrace ++ "\n" ++ linesBefore (pad indent ++ closeBrace) lines

def emptyBraces : Text := openBrace ++ closeBrace

def block (indent : Nat) (slot : Option α) : Except PrintError Text := do
  let (_, node) ← source.need "block" slot
  match node.payload with
  | .blockStatement body =>
    if body.isEmpty && node.trailing.isEmpty then return emptyBraces
    return braced indent (← statementLines source inner (indent + 1) body node.trailing)
  | other => throw (.misplaced "expected a block" other.kind)

/-- The body of a statement: a block, a statement on the same line, or one on a line of its own
after its comments. -/
def nested (indent : Nat) (slot : Option α) : Except PrintError Text := do
  let (a, node) ← source.need "statement body" slot
  match node.payload with
  | .blockStatement _ => return " " ++ (← block source inner indent slot)
  | _ =>
    let text ← inner (.statement (indent + 1)) a
    if node.leading.isEmpty then return " " ++ text
    return "\n" ++ pad (indent + 1) ++ commentLines (indent + 1) node.leading ++ text

def declarator (indent : Nat) (slot : Option α) : Except PrintError Text := do
  let (_, node) ← source.need "declarator" slot
  match node.payload with
  | .variableDeclarator id init =>
    let name ← expression source inner indent Level.call "declarator name" id
    match init with
    | none => return name
    | some value => return name ++ " = " ++ (← inner (.expression indent Level.assignment) value)
  | other => throw (.misplaced "expected a declarator" other.kind)

def commaSeparated (texts : List Text) : Text := Text.join ", " texts

def variableDeclaration (indent : Nat) (keyword : Text) (declarations : List (Option α)) :
    Except PrintError Text := do
  if declarations.isEmpty then throw .noDeclarators
  return keyword ++ " " ++ commaSeparated (← declarations.mapM (declarator source inner indent))

/-- The first part of a loop's head. -/
def forHead (indent : Nat) (a : α) : Except PrintError Text :=
  match source.payload? a with
  | some (.variableDeclaration keyword declarations) =>
    variableDeclaration source inner indent keyword declarations
  | _ => inner (.expression indent Level.sequence) a

def parameters (indent : Nat) (params : List (Option α)) : Except PrintError Text := do
  let texts ← params.mapM (expression source inner indent Level.assignment "parameter")
  return parenthesize (commaSeparated texts)

def functionRest (indent : Nat) (params : List (Option α)) (body : Option α) :
    Except PrintError Text := do
  return (← parameters source inner indent params) ++ " " ++ (← block source inner indent body)

def functionHead (isAsync isGenerator : Bool) : Text :=
  (if isAsync then "async function" else "function") ++ (if isGenerator then "*" else "")

def propertyKey (indent : Nat) (key : Option α) (computed : Bool) : Except PrintError Text := do
  if computed then
    return "[" ++ (← expression source inner indent Level.assignment "property key" key) ++ "]"
  expression source inner indent Level.primary "property key" key

/-- The words before the key of a method. -/
def methodWords (kind : PropertyKind) (isAsync isGenerator : Bool) : Text :=
  (match kind with
    | .get => "get "
    | .set => "set "
    | _ => "")
    ++ (if isAsync then "async " else "") ++ (if isGenerator then "*" else "")

def method (indent : Nat) (key value : Option α) (kind : PropertyKind) (computed : Bool) :
    Except PrintError Text := do
  let (_, node) ← source.need "method body" value
  match node.payload with
  | .functionExpression _ params body isAsync isGenerator =>
    let rest ← functionRest source inner indent params body
    let key ← propertyKey source inner indent key computed
    return methodWords kind isAsync isGenerator ++ key ++ rest
  | other => throw (.misplaced "method value must be a function" other.kind)

/-- A member of an object literal or of a class. -/
def property (indent : Nat) (key value : Option α) (kind : PropertyKind)
    (computed shorthand isStatic : Bool) : Except PrintError Text := do
  let static : Text := if isStatic then "static " else ""
  let assigned (what : Text) := expression source inner indent Level.assignment what value
  match kind with
  | .spread => return "..." ++ (← assigned "spread argument")
  | .init =>
    let text ← assigned "property value"
    if shorthand then return text
    return (← propertyKey source inner indent key computed) ++ ": " ++ text
  | .field =>
    let name ← propertyKey source inner indent key computed
    match value with
    | none => return static ++ name
    | some a =>
      return static ++ name ++ " = " ++ (← inner (.expression indent Level.assignment) a)
  | .get | .set | .method =>
    return static ++ (← method source inner indent key value kind computed)

def classMember (indent : Nat) (slot : Option α) : Except PrintError Text := do
  let (_, node) ← source.need "class member" slot
  match node.payload with
  | .property key value kind computed shorthand isStatic =>
    let text ← property source inner indent key value kind computed shorthand isStatic
    return pad indent ++ text ++ (if kind == .field then ";" else "")
  | other => throw (.misplaced "expected a class member" other.kind)

def classText (indent : Nat) (name : Text) (superClass : Option α) (members : List (Option α)) :
    Except PrintError Text := do
  let name : Text := if name.isEmpty then [] else " " ++ name
  let base : Text ← match superClass with
    | none => pure []
    | some a => pure (" extends " ++ (← inner (.expression indent Level.call) a))
  let head : Text := "class" ++ name ++ base ++ " "
  if members.isEmpty then return head ++ emptyBraces
  return head ++ braced indent (← members.mapM (classMember source inner (indent + 1)))

/-- The line of a case and those of its statements. -/
def switchClause (indent : Nat) (slot : Option α) : Except PrintError (List Text) := do
  let (_, node) ← source.need "switch case" slot
  match node.payload with
  | .switchCase test consequent =>
    let head : Text ← match test with
      | none => pure (Text.ofString "default:")
      | some a => pure ("case " ++ (← inner (.expression indent 0) a) ++ ":")
    return (pad indent ++ commentLines indent node.leading ++ head)
      :: (← statementLines source inner (indent + 1) consequent [])
  | other => throw (.misplaced "expected a switch case" other.kind)

def switchText (indent : Nat) (discriminant : Option α) (cases : List (Option α))
    (trailing : List Text) : Except PrintError Text := do
  let head ← expression source inner indent 0 "switch discriminant" discriminant
  let head : Text := "switch (" ++ head ++ ") "
  if cases.isEmpty && trailing.isEmpty then return head ++ emptyBraces
  let clauses ← cases.mapM (switchClause source inner (indent + 1))
  return head ++ braced indent (clauses.flatten ++ closingComments (indent + 1) trailing)

def tryText (indent : Nat) (body param handler finalizer : Option α) :
    Except PrintError Text := do
  let head ← block source inner indent body
  let caught : Text ← match handler with
    | none => pure []
    | some _ => do
      let param : Text ← match param with
        | none => pure []
        | some a => pure (parenthesize (← inner (.expression indent Level.assignment) a) ++ " ")
      pure (" catch " ++ param ++ (← block source inner indent handler))
  let final : Text ← match finalizer with
    | none => pure []
    | some _ => pure (" finally " ++ (← block source inner indent finalizer))
  if handler.isNone && finalizer.isNone then throw .tryAlone
  return "try " ++ head ++ caught ++ final

/-- Whether a statement is a conditional without an alternative, which would take an `else` that
follows it. -/
def takesElse (a : α) : Bool :=
  match source.payload? a with
  | some (.ifStatement _ _ none) => true
  | _ => false

def ifText (indent : Nat) (test consequent alternate : Option α) : Except PrintError Text := do
  let head ← expression source inner indent 0 "if test" test
  let (branch, node) ← source.need "if consequent" consequent
  let body ←
    if alternate.isSome && takesElse source branch then do
      let text ← inner (.statement (indent + 1)) branch
      pure (" " ++ braced indent
        [pad (indent + 1) ++ commentLines (indent + 1) node.leading ++ text])
    else nested source inner indent consequent
  let other : Text ← match alternate with
    | none => pure []
    | some a =>
      let chains := (source.node? a).any fun n =>
        n.payload.kind == .ifStatement && n.leading.isEmpty
      if chains then pure (" else " ++ (← inner (.statement indent) a))
      else pure (" else" ++ (← nested source inner indent alternate))
  return "if (" ++ head ++ ")" ++ body ++ other

/-- A blank and an expression, or nothing. -/
def optionalPart (indent : Nat) : Option α → Except PrintError Text
  | none => .ok []
  | some a => return " " ++ (← inner (.expression indent 0) a)

def jump (word label : Text) : Text :=
  if label.isEmpty then word ++ ";" else word ++ " " ++ label ++ ";"

/-- The text of a statement. -/
def statementText (indent : Nat) (a : α) (node : Node α) : Except PrintError Text := do
  match node.payload with
  | .variableDeclaration keyword declarations =>
    return (← variableDeclaration source inner indent keyword declarations) ++ ";"
  | .functionDeclaration name params body isAsync isGenerator =>
    return functionHead isAsync isGenerator ++ " " ++ name
      ++ (← functionRest source inner indent params body)
  | .classDeclaration name superClass members =>
    classText source inner indent name superClass members
  | .returnStatement argument =>
    return "return" ++ (← optionalPart inner indent argument) ++ ";"
  | .ifStatement test consequent alternate => ifText source inner indent test consequent alternate
  | .whileStatement test body =>
    let body ← nested source inner indent body
    let test ← expression source inner indent 0 "while test" test
    return "while (" ++ test ++ ")" ++ body
  | .doWhileStatement body test =>
    let test ← expression source inner indent 0 "do-while test" test
    let body ← nested source inner indent body
    return "do" ++ body ++ " while (" ++ test ++ ");"
  | .forStatement init test update body =>
    let init : Text ← match init with
      | none => pure []
      | some a => forHead source inner indent a
    let test ← optionalPart inner indent test
    let update ← optionalPart inner indent update
    return "for (" ++ init ++ ";" ++ test ++ ";" ++ update ++ ")"
      ++ (← nested source inner indent body)
  | .forInStatement left right body isOf =>
    let left ← forHead source inner indent (← source.need "for-in target" left).1
    let least := if isOf then Level.assignment else Level.sequence
    let right ← expression source inner indent least "for-in object" right
    return "for (" ++ left ++ (if isOf then " of " else " in ") ++ right ++ ")"
      ++ (← nested source inner indent body)
  | .blockStatement _ => block source inner indent (some a)
  | .expressionStatement e =>
    let text ← expression source inner indent 0 "expression" e
    return (if readsAsDeclaration text then parenthesize text else text) ++ ";"
  | .switchStatement discriminant cases =>
    switchText source inner indent discriminant cases node.trailing
  | .breakStatement label => return jump "break" label
  | .continueStatement label => return jump "continue" label
  | .throwStatement argument =>
    return "throw " ++ (← expression source inner indent 0 "throw argument" argument) ++ ";"
  | .tryStatement body param handler finalizer =>
    tryText source inner indent body param handler finalizer
  | .debuggerStatement => return "debugger;"
  | .emptyStatement => return ";"
  | .labeledStatement label body =>
    let (b, bodyNode) ← source.need "labeled body" body
    if bodyNode.leading.isEmpty then
      return label ++ ": " ++ (← inner (.statement indent) b)
    return label ++ ":" ++ (← nested source inner indent body)
  | .rawStatement text => return text
  | other => throw (.notStatement other.kind)

def arrayText (indent : Nat) (elements : List (Option α)) : Except PrintError Text := do
  let texts ← elements.mapM fun
    | none => pure []
    | some a => inner (.expression indent Level.assignment) a
  let lastIsHole := (elements.getLast?).any Option.isNone
  return "[" ++ commaSeparated texts ++ (if lastIsHole then "," else "") ++ "]"

def objectProperty (indent : Nat) (slot : Option α) : Except PrintError Text := do
  let (_, node) ← source.need "object property" slot
  match node.payload with
  | .property key value kind computed shorthand isStatic =>
    property source inner indent key value kind computed shorthand isStatic
  | other => throw (.misplaced "expected a property" other.kind)

def arrowText (indent : Nat) (params : List (Option α)) (body : Option α) (isAsync : Bool) :
    Except PrintError Text := do
  let params ← parameters source inner indent params
  let (a, node) ← source.need "arrow body" body
  let text ← match node.payload with
    | .blockStatement _ => block source inner indent body
    | _ => do
      let text ← inner (.expression indent Level.assignment) a
      pure (if text.startsWith openBrace then parenthesize text else text)
  return (if isAsync then "async " else "") ++ params ++ " => " ++ text

def unaryText (indent : Nat) (op : Text) (argument : Option α) : Except PrintError Text := do
  if isWordOperator op then
    match argument with
    | none => if op == "yield" then return op else throw (.noOperand op)
    | some a =>
      let least := if isYield op then Level.assignment else Level.unary
      return op ++ " " ++ (← inner (.expression indent least) a)
  else
    let text ← expression source inner indent Level.unary "unary operand" argument
    let fuses := (op == "-" || op == "+") && !text.isEmpty && text.head? == op.head?
    return op ++ (if fuses then " " else "") ++ text

/-- The level that an operand needs next to an operator. -/
def operandLevel (op : Text) (least : Nat) (a : α) : Nat :=
  match source.payload? a with
  | some (.binaryExpression innerOp ..) =>
    if mustNotMix op innerOp then Level.parenthesized else least
  | _ => least

/-- The operators of one level that lead to the left, the innermost first, and the operand before
them all. -/
def leftChain (opLevel : Nat) : Nat → Option α → List (Text × Option α) →
    Except PrintError (α × List (Text × Option α))
  | 0, left, links => do
    let (head, _) ← source.need "left operand" left
    return (head, links)
  | steps + 1, left, links => do
    let (head, node) ← source.need "left operand" left
    match node.payload with
    | .binaryExpression op left right =>
      if op != "**" && operatorLevel op == opLevel then
        leftChain opLevel steps left ((op, right) :: links)
      else return (head, links)
    | _ => return (head, links)

def chainLink (indent opLevel : Nat) (link : Text × Option α) : Except PrintError Text := do
  let (a, _) ← source.need "right operand" link.2
  return " " ++ link.1 ++ " "
    ++ (← inner (.expression indent (operandLevel source link.1 (opLevel + 1) a)) a)

def binaryText (indent : Nat) (op : Text) (left right : Option α) : Except PrintError Text := do
  let opLevel := operatorLevel op
  if opLevel = 0 then throw (.unknownOperator op)
  if op == "**" then
    let right ← expression source inner indent opLevel "right operand" right
    let left ← expression source inner indent Level.postfixed "left operand" left
    return left ++ " ** " ++ right
  let (head, links) ← leftChain source opLevel source.size left [(op, right)]
  let innermost := (links.headD (op, right)).1
  let text ← inner (.expression indent (operandLevel source innermost opLevel head)) head
  return text ++ (← links.mapM (chainLink source inner indent opLevel)).flatten

/-- Whether the callee of a construction is a call, or a member of one. -/
def containsCall : Nat → α → Bool
  | 0, _ => false
  | steps + 1, a =>
    match source.payload? a with
    | some (.callExpression ..) => true
    | some (.memberExpression (some object) ..) => containsCall steps object
    | _ => false

def argumentsText (indent : Nat) (args : List (Option α)) : Except PrintError Text := do
  let texts ← args.mapM (expression source inner indent Level.assignment "argument")
  return parenthesize (commaSeparated texts)

def newText (indent : Nat) (callee : Option α) (args : List (Option α)) :
    Except PrintError Text := do
  let (a, _) ← source.need "constructor" callee
  let least := if containsCall source source.size a then Level.parenthesized else Level.call
  let args ← argumentsText source inner indent args
  return "new " ++ (← inner (.expression indent least) a) ++ args

def memberText (indent : Nat) (object name : Option α) (computed optional : Bool) :
    Except PrintError Text := do
  let (a, node) ← source.need "member object" object
  let text ← inner (.expression indent Level.call) a
  let isNumber := node.payload.kind == .numericLiteral
  let text :=
    if isNumber && !computed && !text.startsWith "(" then parenthesize text else text
  let (b, nameNode) ← source.need "member property" name
  if computed then
    let index ← inner (.expression indent 0) b
    return text ++ (if optional then "?.[" else "[") ++ index ++ "]"
  match nameNode.payload with
  | .identifier name => return text ++ (if optional then "?." else ".") ++ name
  | other => throw (.misplaced "non-computed member property must be an identifier" other.kind)

/-- The text of an expression without parentheses around it. -/
def expressionText (indent : Nat) (node : Node α) : Except PrintError Text := do
  let operand (least : Nat) := expression source inner indent least
  match node.payload with
  | .identifier name => return name
  | .numericLiteral value raw isBigInt =>
    if !raw.isEmpty then return raw
    return number value ++ (if isBigInt then "n" else "")
  | .stringLiteral value raw => return if raw.isEmpty then quoted value else raw
  | .booleanLiteral value => return if value then "true" else "false"
  | .nullLiteral => return "null"
  | .regExpLiteral raw | .templateLiteral raw => return raw
  | .taggedTemplateExpression tag quasi =>
    let quasi ← operand Level.primary "template" quasi
    return (← operand Level.call "template tag" tag) ++ quasi
  | .thisExpression => return "this"
  | .arrayExpression elements => arrayText inner indent elements
  | .objectExpression properties =>
    let texts ← properties.mapM (objectProperty source inner indent)
    return openBrace ++ commaSeparated texts ++ closeBrace
  | .functionExpression name params body isAsync isGenerator =>
    let name : Text := if name.isEmpty then [] else " " ++ name
    return functionHead isAsync isGenerator ++ name
      ++ (← functionRest source inner indent params body)
  | .arrowFunctionExpression params body isAsync =>
    arrowText source inner indent params body isAsync
  | .classExpression name superClass members =>
    classText source inner indent name superClass members
  | .unaryExpression op argument => unaryText source inner indent op argument
  | .updateExpression op isPrefixed argument =>
    if isPrefixed then return op ++ (← operand Level.unary "update operand" argument)
    return (← operand Level.call "update operand" argument) ++ op
  | .binaryExpression op left right => binaryText source inner indent op left right
  | .assignmentExpression op left right =>
    let right ← operand Level.assignment "assigned value" right
    return (← operand Level.postfixed "assignment target" left) ++ " " ++ op ++ " " ++ right
  | .conditionalExpression test consequent alternate =>
    let alternate ← operand Level.assignment "conditional alternate" alternate
    let consequent ← operand Level.assignment "conditional consequent" consequent
    let test ← operand (Level.conditional + 1) "condition" test
    return test ++ " ? " ++ consequent ++ " : " ++ alternate
  | .callExpression callee args optional =>
    let callee ← operand Level.call "callee" callee
    let args ← argumentsText source inner indent args
    return callee ++ ((if optional then "?." else "") ++ args)
  | .newExpression callee args => newText source inner indent callee args
  | .memberExpression object name computed optional =>
    memberText source inner indent object name computed optional
  | .sequenceExpression expressions =>
    if expressions.isEmpty then throw .emptySequence
    return commaSeparated (← expressions.mapM (operand Level.assignment "sequence element"))
  | .spreadElement argument => return "..." ++ (← operand Level.assignment "spread argument" argument)
  | .property key value kind computed shorthand isStatic =>
    property source inner indent key value kind computed shorthand isStatic
  | other => throw (.notExpression other.kind)

/-- A part, given how the parts inside it are printed. -/
def partText : Part → α → Except PrintError Text
  | .statement indent, a => do
    let (_, node) ← source.need "statement" (some a)
    statementText source inner indent a node
  | .expression indent least, a => do
    let (_, node) ← source.need "expression" (some a)
    let text ← expressionText source inner indent node
    return if level node.payload < least then parenthesize text else text

/-- A part that nests at most `room` levels. -/
def partUpTo (limit : Int) : Nat → Part → α → Except PrintError Text
  | 0, _, _ => .error (.tooDeep limit)
  | room + 1, part, a => partText source (partUpTo limit room) part a

end Print

structure PrintOptions where
  maxDepth : Int := 1024
  deriving DecidableEq, Repr

open Print in
/-- The text of the tree under a reference. -/
def NodeSource.print {α : Type} (source : NodeSource α) (top : Option α) (options : PrintOptions) :
    Except PrintError Text := do
  let inner := partUpTo source options.maxDepth options.maxDepth.toNat
  let (a, node) ← source.need "root node" top
  match node.payload with
  | .program body =>
    return Text.join "\n" (← statementLines source inner 0 body node.trailing)
  | .property key value kind computed shorthand isStatic =>
    property source inner 0 key value kind computed shorthand isStatic
  | other =>
    if other.kind.isStatement then
      return commentLines 0 node.leading ++ (← inner (.statement 0) a)
    inner (.expression 0 0) a

def Tree.print (t : Tree) (options : PrintOptions) : Except PrintError Text :=
  t.source.print (some t) options

def Arena.print (a : Arena) (top : Option NodeId) (options : PrintOptions) :
    Except PrintError Text :=
  a.source.print top options

end PlainScript
