import PlainScript.Idiom.Function
import PlainScript.Idiom.Scope
import PlainScript.Pass

/-! Removal of what keeps a script from being read in a debugger. Timers go first, with the statement
that holds them where that is all it holds, since their functions have `debugger` statements of
their own. A function that only looks like a check is reported and stays. -/
namespace PlainScript.Pass

open PlainScript.Action

namespace Debugger

def source : Text := "SelfDefense"
def name : Text := "self-defense-removal"

def report (id : NodeId) : Action Unit := do
  let s ← get
  let function := (s.arena.functionName? id).getD []
  match s.arena.defense? id s.printing with
  | .error e =>
    say .warn source ("Cannot print function '" ++ function ++ "': " ++ e.message)
    count "print_failures" 1
  | .ok none => return
  | .ok (some defense) =>
    modify fun s => { s with log := s.log.push (defense.note function) }
    match defense with
    | .debugger => count "functions_flagged" 1
    | .toStringCheck =>
      count "heuristic_flags" 1
      warn (name ++ ": function '" ++ function
        ++ "' looks self-defending (toString/constructor check), left in place")

/-- Removes a call that starts a timer. One that is used as a value becomes `undefined`. -/
def removeTimer (id : NodeId) (removed : Nat) : Action Nat := do
  let a ← arena
  if !a.isDebuggerTimer id then return removed
  match a.statementOf? id with
  | some holder => edit (Edit.remove holder)
  | none => edit (Edit.replaceData id (.identifier "undefined"))
  say .debug source ("Removed anti-debug timer at line " ++ (← line id))
  count "timers_removed" 1
  return removed + 1

def removeStatement (id : NodeId) (removed : Nat) : Action Nat := do
  edit (Edit.remove id)
  count "debuggers_removed" 1
  return removed + 1

def transform : Action Outcome := do
  walkKind .pre .functionDeclaration () fun id _ => report id
  let timers ← walkKind .pre .callExpression 0 removeTimer
  let statements ← walkKind .pre .debuggerStatement 0 removeStatement
  if timers + statements = 0 then say .debug source "No self-defense code found"
  conclude ⟨name, "removed anti-debugging code", (timers + statements : Nat), .verified⟩ source
    ("Removed " ++ Text.ofNat statements ++ " debugger statement(s) and " ++ Text.ofNat timers
      ++ " timer(s)")

end Debugger

def debuggers : Pass :=
  { name := Debugger.name
    description := "Removes debugger traps and anti-debugging timers"
    priority := 100
    transform := Debugger.transform }

end PlainScript.Pass
