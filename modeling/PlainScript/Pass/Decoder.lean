import PlainScript.Idiom.Function
import PlainScript.Pass

/-! Calls of string decoders. The decoders are looked for before any pass changes the tree. Nothing is
run, so a call becomes a placeholder, and only where the function around it has a text. -/
namespace PlainScript.Pass

open PlainScript.Action

namespace Decoder

def source : Text := "StringDecryption"
def name : Text := "string-decryption"

def register (id : NodeId) : Action Unit := do
  let s ← get
  let function := (s.arena.functionName? id).getD []
  if function.isEmpty then return
  match s.arena.isDecoder id s.printing with
  | .error e =>
    say .warn source ("Skipping function '" ++ function ++ "' in signature scan: " ++ e.message)
    count "print_failures" 1
  | .ok false => return
  | .ok true =>
    modify fun s => { s with decoders := s.decoders.add function }
    say .debug source ("Registered decoder function '" ++ function ++ "'")

def analyze : Action Unit := do
  walkKind .pre .functionDeclaration () fun id _ => register id
  count "decoders_found" (← get).decoders.size

/-- Calls replaced and left, and for each scope met so far why it has no text. -/
structure Tally where
  replaced : Nat := 0
  skipped : Nat := 0
  scopes : List (Option NodeId × Option PrintError) := []

/-- Why a scope has no text, found out when the scope is met first. -/
def scopeFault (scope : Option NodeId) (t : Tally) : Action (Option PrintError × Tally) := do
  match t.scopes.lookup scope with
  | some fault => return (fault, t)
  | none =>
    let s ← get
    let fault := match s.arena.print scope s.printing with
      | .ok _ => none
      | .error e => some e
    count "scope_prints" 1
    return (fault, { t with scopes := (scope, fault) :: t.scopes })

def replaceCall (id : NodeId) (t : Tally) : Action Tally := do
  let s ← get
  match s.arena.calleeName? id with
  | none => return t
  | some callee =>
    if !s.decoders.contains callee then return t
    let (fault, t) ← scopeFault (← ask (·.enclosingFunction id)) t
    match fault with
    | some e =>
      say .warn source ("Skipping call to '" ++ callee ++ "' at line " ++ (← line id) ++ ": "
        ++ e.message)
      return { t with skipped := t.skipped + 1 }
    | none =>
      edit (Edit.replaceData id (.stringLiteral s.placeholder []))
      say .trace source ("Replaced call to '" ++ callee ++ "' at line " ++ (← line id))
      return { t with replaced := t.replaced + 1 }

def transform : Action Outcome := do
  let decoders := (← get).decoders
  if decoders.isEmpty then return .notApplicable
  let t ← walkKind .pre .callExpression {} replaceCall
  count "skipped_calls" t.skipped
  if 0 < t.skipped then
    warn (name ++ ": skipped " ++ Text.ofNat t.skipped
      ++ " call(s) whose surrounding code could not be printed")
  warn (name ++ ": " ++ Text.ofNat t.replaced ++ " call(s) to " ++ Text.ofNat decoders.size
    ++ " decoder function(s) replaced by placeholders without verification")
  conclude ⟨name, "replaced decoder calls with placeholders", t.replaced, .heuristic⟩ source
    ("Replaced " ++ Text.ofNat t.replaced ++ " decoder call(s)")

end Decoder

def decoders : Pass :=
  { name := Decoder.name
    description := "Replaces calls to string decoder functions with placeholders"
    priority := 200
    analyze := Decoder.analyze
    transform := Decoder.transform }

end PlainScript.Pass
