import PlainScript.Arena

/-! Expressions whose value is known from their form. Literals have a truth value, and so has a
negation of one; arithmetic on two numbers has a result. -/
namespace PlainScript

/-- The truth value of a literal. -/
def Payload.literalTruth? : Payload NodeId → Option Bool
  | .booleanLiteral value => some value
  | .numericLiteral value .. => some (value != 0.0 && !value.isNaN)
  | .stringLiteral value _ => some (!value.isEmpty)
  | .nullLiteral => some false
  | .arrayExpression elements => if elements.isEmpty then some true else none
  | .objectExpression properties => if properties.isEmpty then some true else none
  | _ => none

namespace Arena

/-- The truth value of a literal under at most `depth` negations. -/
def truthUpTo (a : Arena) : Nat → Option NodeId → Option Bool
  | _, none => none
  | depth, some id =>
    match a.payload? id, depth with
    | some (.unaryExpression op argument), depth + 1 =>
      if op = "!" then (truthUpTo a depth argument).map not else none
    | some payload, _ => payload.literalTruth?
    | none, _ => none

/-- The truth value of an expression, where its form tells it. -/
def constantTruth? (a : Arena) (test : Option NodeId) : Option Bool := a.truthUpTo a.size test

/-- The value of `true` and `false`. -/
def literalBoolean? (a : Arena) (test : Option NodeId) : Option Bool :=
  match test.bind a.payload? with
  | some (.booleanLiteral value) => some value
  | _ => none

/-- The value of a numeric literal that is a double. -/
def literalNumber? (a : Arena) (slot : Option NodeId) : Option Float :=
  match slot.bind a.payload? with
  | some (.numericLiteral value _ false) => some value
  | _ => none

end Arena

/-- The four operations on doubles. -/
inductive Arithmetic
  | add
  | subtract
  | multiply
  | divide
  deriving DecidableEq, Repr

namespace Arithmetic

def ofOperator? (op : Text) : Option Arithmetic :=
  if op = "+" then some add
  else if op = "-" then some subtract
  else if op = "*" then some multiply
  else if op = "/" then some divide
  else none

def eval : Arithmetic → Float → Float → Float
  | add, x, y => x + y
  | subtract, x, y => x - y
  | multiply, x, y => x * y
  | divide, x, y => x / y

end Arithmetic

/-- An operator that does not fold. -/
structure NotFoldable where
  op : Text
  deriving DecidableEq, Repr

def NotFoldable.message (e : NotFoldable) : Text :=
  Text.upToZero ("not a foldable operator: " ++ e.op)

/-- The result of an operator on two doubles. -/
def foldArithmetic (op : Text) (x y : Float) : Except NotFoldable Float :=
  match Arithmetic.ofOperator? op with
  | some operation => .ok (operation.eval x y)
  | none => .error ⟨op⟩

/-- An operation on two numeric literals. -/
structure Constant where
  op : Text
  operation : Arithmetic
  left : Float
  right : Float
  deriving DecidableEq

namespace Constant

def value (c : Constant) : Float := c.operation.eval c.left c.right

def dividesByZero (c : Constant) : Bool := c.operation = .divide && c.right == 0.0

end Constant

namespace Arena

/-- The operation that a node is, if both its operands are numeric literals. -/
def foldable? (a : Arena) (id : NodeId) : Option Constant := do
  match ← a.payload? id with
  | .binaryExpression op left right =>
    let operation ← Arithmetic.ofOperator? op
    let left ← a.literalNumber? left
    let right ← a.literalNumber? right
    return { op, operation, left, right }
  | _ => none

def isFoldable (a : Arena) (id : NodeId) : Bool := (a.foldable? id).isSome

end Arena

end PlainScript
