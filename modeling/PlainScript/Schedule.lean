import PlainScript.Text

/-! The order of jobs. Jobs are ordered by priority, and by name where priorities are equal; then each
job that is needed by an earlier one is moved before it, as long as moves are left. Jobs that need
each other in a circle use up all moves. -/
namespace PlainScript

structure Job where
  name : Text
  priority : Int
  dependencies : List Text
  deriving DecidableEq, Repr

/-- A dependency on a job that there is none of. -/
structure Missing where
  job : Text
  dependency : Text
  deriving DecidableEq, Repr

/-- An order of jobs, with the missing dependencies as they were met. -/
structure Schedule where
  order : List Text
  missing : List Missing := []
  isGivenUp : Bool := false
  deriving DecidableEq, Repr

namespace Schedule

def insertJob (j : Job) : List Job → List Job
  | [] => [j]
  | k :: rest => if j.priority < k.priority then j :: k :: rest else k :: insertJob j rest

/-- The jobs by priority. Those of one priority keep their order. -/
def byPriority (jobs : List Job) : List Job := jobs.foldl (fun sorted j => insertJob j sorted) []

def dependenciesOf (jobs : List Job) (name : Text) : List Text :=
  ((jobs.find? (·.name = name)).map (·.dependencies)).getD []

/-- Takes the text at `source` out and puts it in at `target`. -/
def moveTo (source target : Nat) (order : List Text) (name : Text) : List Text :=
  let rest := order.eraseIdx source
  rest.take target ++ name :: rest.drop target

/-- The order with the first late dependency of the job at `i` moved before that job. -/
def moveLate (order : List Text) (i : Nat) (job : Text) : List Text → List Missing × Option (List Text)
  | [] => ([], none)
  | d :: rest =>
    match order.idxOf? d with
    | none =>
      let (missing, moved) := moveLate order i job rest
      (⟨job, d⟩ :: missing, moved)
    | some j => if i < j then ([], some (moveTo j i order d)) else moveLate order i job rest

/-- The order after the first move that is due among the jobs from `i` on. -/
def moveFrom (jobs : List Job) (order : List Text) : Nat → List Text → List Missing × Option (List Text)
  | _, [] => ([], none)
  | i, name :: later =>
    match moveLate order i name (dependenciesOf jobs name) with
    | (missing, some moved) => (missing, some moved)
    | (missing, none) =>
      let (more, moved) := moveFrom jobs order (i + 1) later
      (missing ++ more, moved)

/-- Moves jobs until no move is due or `moves` are used up, the last of which is one too many. -/
def settle (jobs : List Job) : Nat → List Text → Schedule
  | 0, order => { order, isGivenUp := true }
  | moves + 1, order =>
    match moveFrom jobs order 0 order with
    | (missing, none) => { order, missing, isGivenUp := moves = 0 }
    | (missing, some moved) =>
      let s := settle jobs moves moved
      { s with missing := missing ++ s.missing }

def maxMoves : Nat := 100

/-- The order of jobs that are given by name. -/
def ofJobs (jobs : List Job) : Schedule :=
  settle jobs maxMoves ((byPriority jobs).map (·.name))

example : (ofJobs [⟨"a", 5, ["b"]⟩, ⟨"b", 9, []⟩, ⟨"c", 5, ["x"]⟩]) =
    { order := ["b", "a", "c"], missing := [⟨"c", "x"⟩] } := by decide +kernel

end Schedule

end PlainScript
