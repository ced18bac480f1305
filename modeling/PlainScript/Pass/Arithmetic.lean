import PlainScript.Idiom.Constant
import PlainScript.Pass
import PlainScript.Print.Literal

/-! Arithmetic on numeric literals. Operands come before their operations, so that a result can be an
operand of the next operation. Division by zero has a result like any other. -/
namespace PlainScript.Pass

open PlainScript.Action

namespace Folding

def source : Text := "Simplify"
def name : Text := "expression-simplification"

def foldBinary (id : NodeId) (folded : Nat) : Action Nat := do
  match (← arena).foldable? id with
  | none => return folded
  | some c =>
    if c.dividesByZero then count "division_by_zero" 1
    edit (Edit.replaceData id (.numericLiteral c.value [] false))
    say .trace source (Print.number c.left ++ " " ++ c.op ++ " " ++ Print.number c.right ++ " -> "
      ++ Print.number c.value)
    return folded + 1

def transform : Action Outcome := do
  let folded ← walkKind .post .binaryExpression 0 foldBinary
  conclude ⟨name, "folded constant arithmetic", folded, .verified⟩ source
    ("Folded " ++ Text.ofNat folded ++ " arithmetic expression(s)")

end Folding

def arithmetic : Pass :=
  { name := Folding.name
    description := "Folds arithmetic on numeric literals"
    priority := 500
    transform := Folding.transform }

end PlainScript.Pass
