import PlainScript.Idiom.Loop
import PlainScript.Idiom.Scope
import PlainScript.Pass
import PlainScript.Print.Printer

/-! Flattened loops. A loop that dispatches is replaced by the statements of its cases in the order of
the source text, in a block of their own where they stand in no list or declare names. A loop is
left alone if a jump in a case would miss it, or if a statement has no text. -/
namespace PlainScript.Pass

open PlainScript.Action

namespace Dispatch

def source : Text := "ControlFlow"
def name : Text := "control-flow-restoration"

/-- Why a loop is left alone. -/
inductive Refusal
  | jumps (count : Nat)
  | noText (e : PrintError)
  deriving DecidableEq, Repr

def Refusal.message : Refusal → Text
  | jumps count => Text.ofNat count ++ " jump(s) would leave the loop"
  | noText e => "case body does not print: " ++ e.message

/-- The first statement without a text. -/
def firstFault? (a : Arena) (options : PrintOptions) : List NodeId → Option PrintError
  | [] => none
  | id :: rest =>
    match a.print (some id) options with
    | .error e => some e
    | .ok _ => firstFault? a options rest

def refusal? (a : Arena) (options : PrintOptions) (loop : NodeId) (statements : List NodeId) :
    Option Refusal :=
  let jumps := a.escapingJumps statements (a.loopLabels loop)
  if 0 < jumps then some (.jumps jumps)
  else (firstFault? a options statements).map .noText

/-- Puts the statements in place of the loop. -/
def unfold (loop : NodeId) (statements : List NodeId) : Action Unit := do
  let a ← arena
  if a.inStatementList loop && !a.declaresBlockScoped statements then
    edit (Edit.replaceWithMany loop statements)
  else
    let position := (← ask (·.cell loop)).position
    edit do
      let block ← Edit.add (.blockStatement (statements.map some)) position
      Edit.replaceWith loop block

structure Tally where
  restored : Nat := 0
  failed : Nat := 0

def restoreLoop (loop : NodeId) (t : Tally) : Action Tally := do
  let s ← get
  match s.arena.dispatch? loop with
  | none => return t
  | some dispatch =>
    let line ← line loop
    let statements := s.arena.mergedCases dispatch
    match refusal? s.arena s.printing loop statements with
    | some refusal =>
      say .warn source ("Leaving loop at line " ++ line ++ " untouched: " ++ refusal.message)
      warn (name ++ ": loop at line " ++ line ++ " left untouched: " ++ refusal.message)
      return { t with failed := t.failed + 1 }
    | none =>
      count "cases_merged" (s.arena.cases dispatch).length
      unfold loop statements
      say .debug source ("Restored flattened loop at line " ++ line)
      return { t with restored := t.restored + 1 }

def transform : Action Outcome := do
  let t ← walk .pre {} fun k =>
    if k = .whileStatement || k = .forStatement then some restoreLoop else none
  count "failed_restorations" t.failed
  conclude ⟨name, "restored flattened loops (source order)", t.restored, .structural⟩ source
    ("Restored " ++ Text.ofNat t.restored ++ " flattened loop(s), " ++ Text.ofNat t.failed
      ++ " failed")

end Dispatch

def dispatchLoops : Pass :=
  { name := Dispatch.name
    description := "Replaces flattened while/switch dispatch loops with their case bodies"
    priority := 300
    dependencies := ["string-decryption"]
    transform := Dispatch.transform }

end PlainScript.Pass
