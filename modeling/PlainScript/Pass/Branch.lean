import PlainScript.Idiom.Constant
import PlainScript.Idiom.Scope
import PlainScript.Pass

/-! Branches that are never taken. An `if` on `true` or `false` is replaced by the branch that it takes.
The statements of a block take the place of the block where they stand in a list and declare no
names of their own. -/
namespace PlainScript.Pass

open PlainScript.Action

namespace Branch

def source : Text := "DeadCode"
def name : Text := "dead-code-elimination"

/-- The statements that can stand in place of a branch. -/
def spliced? (a : Arena) (id kept : NodeId) : Option (List NodeId) :=
  match a.payload? kept with
  | some (.blockStatement body) =>
    let statements := body.filterMap (fun s => s)
    if a.inStatementList id && !a.declaresBlockScoped statements then some statements else none
  | _ => none

/-- Puts a branch in place of its `if`. -/
def keep (id : NodeId) (kept : Option NodeId) : Action Unit := do
  match kept with
  | none => edit (Edit.remove id)
  | some kept =>
    match spliced? (← arena) id kept with
    | some statements => edit (Edit.replaceWithMany id statements)
    | none => edit (Edit.replaceWith id kept)

def takeBranch (id : NodeId) (folded : Nat) : Action Nat := do
  let a ← arena
  match a.payload? id with
  | some (.ifStatement test consequent alternate) =>
    match a.literalBoolean? test with
    | none => return folded
    | some value =>
      let shown : Text := if value then "true" else "false"
      say .debug source ("Folding if (" ++ shown ++ ") at line " ++ (← line id))
      keep id (if value then consequent else alternate)
      count (if value then "true_branches" else "false_branches") 1
      return folded + 1
  | _ => return folded

def transform : Action Outcome := do
  let folded ← walkKind .pre .ifStatement 0 takeBranch
  conclude ⟨name, "removed constant branches", folded, .verified⟩ source
    ("Folded " ++ Text.ofNat folded ++ " constant condition(s)")

end Branch

def constantBranches : Pass :=
  { name := Branch.name
    description := "Removes branches guarded by literal true/false"
    priority := 400
    dependencies := ["control-flow-restoration"]
    transform := Branch.transform }

end PlainScript.Pass
