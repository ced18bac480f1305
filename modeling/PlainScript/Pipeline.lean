import PlainScript.Pass
import PlainScript.Report.Statistics
import PlainScript.Schedule

/-! Passes that run one after the other over one tree. All passes that are switched on look at the tree
before the first of them changes it. A pass that fails is reported and the others go on. -/
namespace PlainScript

/-- A registered pass with its switch and its counters. -/
structure Stage where
  pass : Pass
  isEnabled : Bool := true
  counters : Table Int := {}

inductive Phase
  | ready (isEnabled : Bool)
  | analyze
  | transform
  deriving DecidableEq, Repr

structure Pipeline where
  stages : Table Stage := {}
  order? : Option (List Text) := none
  results : Table Outcome := {}
  timers : TextSet := {}
  /-- What the passes were asked to do. -/
  history : Array (Phase × Text) := #[]
  log : Array Log.Entry := #[]

namespace Pipeline

def say (p : Pipeline) (level : Log.Level) (message : Text) : Pipeline :=
  { p with log := p.log.push ⟨level, "PassManager", message⟩ }

def asked (p : Pipeline) (phase : Phase) (name : Text) : Pipeline :=
  { p with history := p.history.push (phase, name) }

def names (p : Pipeline) : List Text := p.stages.keys

def isEnabled (p : Pipeline) (name : Text) : Bool := (p.stages.get? name).any (·.isEnabled)

def inQuotes (t : Text) : Text := "'" ++ t ++ "'"

/-- Adds a pass, in place of one with the same name. -/
def register (p : Pipeline) (pass : Pass) : Pipeline :=
  let p :=
    if p.stages.contains pass.name then
      p.say .warn ("Pass " ++ inQuotes pass.name ++ " already registered, replacing")
    else p
  { p with stages := p.stages.insert pass.name { pass }, order? := none }.say .debug
    ("Registered pass: " ++ pass.name)

/-- Switches a pass on or off. -/
def enable (p : Pipeline) (name : Text) (on : Bool) : Pipeline :=
  match p.stages.get? name with
  | none => p
  | some stage => { p with stages := p.stages.insert name { stage with isEnabled := on } }

def jobs (p : Pipeline) : List Job :=
  p.stages.entries.map fun (name, stage) => ⟨name, stage.pass.priority, stage.pass.dependencies⟩

def schedule (p : Pipeline) : Schedule := .ofJobs p.jobs

/-- Orders the passes. -/
def computeOrder (p : Pipeline) : Pipeline :=
  let s := p.schedule
  let p := s.missing.foldl (fun p m => p.say .warn ("Pass " ++ inQuotes m.job ++ " depends on "
    ++ inQuotes m.dependency ++ " which is not registered")) p
  let p := if s.isGivenUp then p.say .error "Possible circular dependency in passes" else p
  let p := { p with order? := some s.order }.say .debug "Pass order computed:"
  s.order.zipIdx.foldl
    (fun p (name, i) => p.say .debug ("  " ++ Text.ofNat (i + 1) ++ ": " ++ name)) p

/-- Orders the passes unless their order is known. -/
def ordered (p : Pipeline) : Pipeline := if p.order?.isSome then p else p.computeOrder

def order (p : Pipeline) : List Text := p.order?.getD []

/-- Makes one pass ready. -/
def readyStage (on : Bool) (p : Pipeline) (name : Text) (stage : Stage) : Pipeline :=
  let isEnabled := on && stage.isEnabled
  let p := { p with stages := p.stages.insert name { stage with isEnabled } }.asked
    (.ready isEnabled) name
  if stage.pass.isReady then p else p.say .error ("Failed to initialize pass: " ++ name)

/-- Makes the passes ready, all of them switched off unless `on`. The answer is whether all are. -/
def makeReady (p : Pipeline) (on : Bool) : Bool × Pipeline :=
  let ready := p.stages.entries.all fun (_, stage) => stage.pass.isReady
  let p := p.stages.entries.foldl (fun p (name, stage) => p.readyStage on name stage) p
  (ready, p.computeOrder)

/-- Lets a pass work inside a run. Its counters and messages are kept here. -/
def act {α : Type} (p : Pipeline) (name : Text) (stage : Stage) (work : Action α) (run : Run) :
    Except PassFailure α × Pipeline × Run :=
  let taken (run : Run) : Pipeline × Run :=
    ({ p with
        stages := p.stages.insert name { stage with counters := run.counters }
        log := p.log ++ run.log },
      { run with counters := {}, log := #[] })
  match work { run with counters := stage.counters, log := #[] } with
  | .ok a run => (.ok a, taken run)
  | .error e run => (.error e, taken run)

def analyzeStage (p : Pipeline) (run : Run) (name : Text) (stage : Stage) : Pipeline × Run :=
  match (p.asked .analyze name).act name stage stage.pass.analyze run with
  | (.ok (), p, run) => (p, run)
  | (.error e, p, run) =>
    (p.say .warn ("Analysis of " ++ inQuotes name ++ " failed: " ++ e.message),
      { run with warnings := run.warnings ++ [name ++ ": analysis failed: " ++ e.message] })

def transformStage (p : Pipeline) (run : Run) (name : Text) (stage : Stage) : Pipeline × Run :=
  let p := { p with timers := p.timers.add (name ++ ".time_ms") }
  let (outcome, p, run) :=
    match (p.asked .transform name).act name stage stage.pass.transform run with
    | (.ok outcome, p, run) => (outcome, p, run)
    | (.error e, p, run) =>
      (Outcome.error, p.say .warn ("Pass " ++ inQuotes name ++ " failed: " ++ e.message),
        { run with warnings := run.warnings ++ [name ++ ": " ++ e.message] })
  ({ p with results := p.results.insert name outcome }.say .debug
    ("Pass " ++ name ++ " -> " ++ outcome.name), run)

def skipStage (p : Pipeline) (name : Text) : Pipeline :=
  { p with results := p.results.insert name .skipped }.say .debug
    ("Skipping disabled pass: " ++ name)

/-- Lets a pass look at the tree if it is switched on. -/
def analyzeNext : Pipeline × Run → Text → Pipeline × Run
  | (p, run), name =>
    match p.stages.get? name with
    | none => (p, run)
    | some stage => if stage.isEnabled then p.analyzeStage run name stage else (p, run)

/-- Lets a pass change the tree if it is switched on. -/
def transformNext : Pipeline × Run → Text → Pipeline × Run
  | (p, run), name =>
    match p.stages.get? name with
    | none => (p, run)
    | some stage =>
      if stage.isEnabled then p.transformStage run name stage else (p.skipStage name, run)

/-- Runs all passes in their order. -/
def run (p : Pipeline) (r : Run) : Pipeline × Run :=
  let p := { p.ordered with results := {} }
  p.order.foldl transformNext (p.order.foldl analyzeNext (p, r))

/-- How many passes changed something in the last run. -/
def succeeded (p : Pipeline) : Nat := p.results.entries.countP fun (_, o) => o = .success

/-- What became of a pass in the last run. -/
def outcome (p : Pipeline) (name : Text) : Outcome := (p.results.get? name).getD .skipped

/-- The counters of all passes under their names, and the timings. -/
def statistics (p : Pipeline) : Statistics :=
  let counted : Statistics := ({} : Statistics).setInt "passes_registered" p.stages.size
  let counted := p.stages.entries.foldl (fun s (name, stage) =>
    stage.counters.entries.foldl (fun s (counter, n) => s.setInt (name ++ "." ++ counter) n) s)
    counted
  p.timers.keys.foldl (fun s name => s.startTimer name) counted

def resetStatistics (p : Pipeline) : Pipeline :=
  { p with
    timers := {}
    results := {}
    stages := p.stages.map fun _ stage => { stage with counters := {} } }

end Pipeline

end PlainScript
