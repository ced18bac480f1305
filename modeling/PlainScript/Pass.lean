import PlainScript.Arena.Walk
import PlainScript.Log
import PlainScript.Print.Printer
import PlainScript.Report
import PlainScript.Table

/-! Passes over a script. A pass first looks at the whole tree and then changes it. It works inside a
run, which carries what the passes share, and it counts and says what it does. -/
namespace PlainScript

inductive Outcome
  | success
  | skipped
  | notApplicable
  | error
  deriving DecidableEq, Repr

def Outcome.name : Outcome → Text
  | success => "success"
  | skipped => "skipped"
  | notApplicable => "not-applicable"
  | error => "error"

/-- What the passes share, and the counters and messages of the pass at work. -/
structure Run where
  arena : Arena
  printing : PrintOptions := {}
  placeholder : Text := "[DECRYPTED_STRING]"
  decoders : TextSet := {}
  records : List Record := []
  warnings : List Text := []
  counters : Table Int := {}
  log : Array Log.Entry := #[]

/-- What ends a pass early. -/
inductive PassFailure
  | edit (e : ArenaError)
  | reported (message : Text)
  deriving DecidableEq, Repr

def PassFailure.message : PassFailure → Text
  | edit e => e.message
  | reported message => message.upToZero

/-- A step of a pass answers a value or a failure, and in both cases the run as it is then. -/
abbrev Action := EStateM PassFailure Run

namespace Action

def arena : Action Arena := return (← get).arena

/-- A question to the arena. -/
def ask {α : Type} (question : Arena → Except ArenaError α) : Action α := fun s =>
  match question s.arena with
  | .ok r => .ok r s
  | .error e => .error (.edit e) s

/-- An edit of the arena. -/
def edit {α : Type} (e : Edit α) : Action α := fun s =>
  match e s.arena with
  | .ok r arena => .ok r { s with arena }
  | .error f arena => .error (.edit f) { s with arena }

def say (level : Log.Level) (source message : Text) : Action Unit :=
  modify fun s => { s with log := s.log.push ⟨level, source, message⟩ }

def warn (message : Text) : Action Unit :=
  modify fun s => { s with warnings := s.warnings ++ [message] }

/-- Adds to a counter. -/
def count (name : Text) (amount : Int) : Action Unit :=
  modify fun s => { s with counters := s.counters.update name 0 (· + amount) }

def line (id : NodeId) : Action Text := return Text.ofNat (← ask (·.cell id)).position.line

/-- Gives the nodes of the tree their turns and hands a value from one handler to the next. -/
def walk {τ : Type} (order : Order) (start : τ)
    (handler : Kind → Option (NodeId → τ → Action τ)) : Action τ := fun s =>
  let turn (handle : NodeId → τ → Action τ) (id : NodeId) : EStateM PassFailure (Run × τ) Unit :=
    fun (s, t) =>
      match handle id t s with
      | .ok t s => .ok () (s, t)
      | .error e s => .error e (s, t)
  let walker : Walker (Run × τ) PassFailure :=
    { arena := (·.1.arena), ofArenaError := .edit, handler := fun k => (handler k).map turn }
  match (walker.run s.arena.root order).run (s, start) with
  | (outcome, s, t) =>
    match outcome.failure with
    | none => .ok t s
    | some e => .error e s

/-- A walk that handles one kind of node. -/
def walkKind {τ : Type} (order : Order) (kind : Kind) (start : τ)
    (handle : NodeId → τ → Action τ) : Action τ :=
  walk order start fun k => if k = kind then some handle else none

/-- The end of a pass: a record of what it changed, if there was anything. -/
def conclude (r : Record) (source summary : Text) : Action Outcome := do
  if r.count ≤ 0 then return .notApplicable
  count "applied" r.count
  modify fun s => { s with records := s.records ++ [r] }
  say .info source summary
  return .success

end Action

structure Pass where
  name : Text
  description : Text
  priority : Int := 600
  dependencies : List Text := []
  /-- Whether it can be made ready for a run. -/
  isReady : Bool := true
  analyze : Action Unit := pure ()
  transform : Action Outcome

end PlainScript
