import PlainScript.Arena.Edit
import PlainScript.Grammar.Script

/-! Reading a script straight into an arena. A node goes into the arena as soon as it is complete, and
takes its children over then. What was read of a statement that turns out to be faulty stays behind in
the arena, where no slot holds it. The rules are those of the grammar, node by node. -/
namespace PlainScript

/-- Why no arena was built: the text is at fault, or an edit of the arena failed. -/
inductive BuildError
  | parse (e : ParseError)
  | edit (e : ArenaError)
  deriving DecidableEq

namespace Building

open Grammar

/-- A rule that works on an arena. An error leaves the arena as it is. -/
abbrev Builder := ReaderT Context (EStateM BuildError (State × Arena))

/-- How the nested rules are read. -/
abbrev NodeRules := Rule → Builder NodeId

/-- A rule that takes tokens and leaves the arena alone. -/
def reading {α : Type} (p : Parser α) : Builder α := fun c (s, a) =>
  match p c s with
  | .ok r s => .ok r (s, a)
  | .error e s => .error (.parse e) (s, a)

instance : MonadLift Parser Builder := ⟨reading⟩

/-- An edit of the arena. -/
def editing {α : Type} (e : Edit α) : Builder α := fun _ (s, a) =>
  match e a with
  | .ok r a => .ok r (s, a)
  | .error e a => .error (.edit e) (s, a)

def make (payload : Payload NodeId) (position : Position) : Builder NodeId :=
  editing (Edit.add payload position)

/-- Puts comments in front of those that a node has. -/
def lead (id : NodeId) (comments : List Text) : Builder Unit :=
  editing (Edit.change (·.modify id fun c => { c with leading := comments ++ c.leading }))

def trail (id : NodeId) (comments : List Text) : Builder Unit :=
  editing (Edit.change (·.modify id fun c => { c with trailing := comments }))

/-- Whether a node may be assigned to. -/
def isTarget (id : NodeId) : Builder Bool :=
  editing do
    let a ← get
    return a.isKind .identifier id || a.isKind .memberExpression id || a.isKind .arrayExpression id
      || a.isKind .objectExpression id

section Repetitions

variable {α : Type}

def repeatUntil (stop : Parser Bool) (item : Builder α) : Builder (List α) := do
  let rec go : Nat → Builder (List α)
    | 0 => unexpected
    | n + 1 => do
      if ← stop then return []
      let first ← item
      let rest ← go n
      return first :: rest
  go ((← tokensLeft) + 1)

def extend (step : α → Builder (Option α)) (start : α) : Builder α := do
  let rec go : Nat → α → Builder α
    | 0, _ => unexpected
    | n + 1, a => do
      match ← step a with
      | none => return a
      | some b => go n b
  go ((← tokensLeft) + 1) start

def commaList (closing : Text) (item : Builder α) : Builder (List α) :=
  repeatUntil (atPunct closing) do
    let a ← item
    if !(← atPunct closing) then expect ","
    return a

def inFunction (isAsync isGenerator : Bool) (p : Builder α) : Builder α :=
  withReader (fun c => { c with inFunction := true, inAsync := isAsync, inGenerator := isGenerator })
    p

end Repetitions

def identifierHere : Builder NodeId := do
  let position ← here
  make (.identifier (← advance).text) position

end Building

end PlainScript
