import PlainScript.Idiom.Constant

/-! Loops that dispatch. A flattened piece of code is an endless loop around a `switch`, whose cases
are the pieces. It can be put together again if no jump in a case would miss its loop. -/
namespace PlainScript.Arena

def isEndlessLoop (a : Arena) (loop : NodeId) : Bool :=
  match a.payload? loop with
  | some (.whileStatement test _) => a.constantTruth? test = some true
  | some (.forStatement none none none _) => true
  | some (.forStatement none test none _) => a.constantTruth? test = some true
  | _ => false

def loopBody? (a : Arena) (loop : NodeId) : Option NodeId := do
  match ← a.payload? loop with
  | .whileStatement _ body => body
  | .forStatement _ _ _ body => body
  | _ => none

/-- The `switch` that an endless loop begins with. -/
def dispatch? (a : Arena) (loop : NodeId) : Option NodeId := do
  if !a.isEndlessLoop loop then none
  match ← a.payload? (← a.loopBody? loop) with
  | .blockStatement (some first :: _) => if a.isKind .switchStatement first then return first else none
  | _ => none

/-- The labels on the way up from a node, as long as there are only labels. -/
def labelsUpTo (a : Arena) : Nat → NodeId → List Text
  | 0, _ => []
  | steps + 1, id =>
    match (a.cell? id).bind (·.parent) with
    | none => []
    | some up =>
      match a.payload? up with
      | some (.labeledStatement label _) => label :: labelsUpTo a steps up
      | _ => []

/-- The labels of a loop, from the inside out. -/
def loopLabels (a : Arena) (loop : NodeId) : List Text := a.labelsUpTo a.size loop

/-- What has been entered on the way down to a jump. -/
structure Entered where
  aLoop : Bool := false
  aSwitch : Bool := false
  deriving DecidableEq, Repr

/-- Whether a jump under `labels` leaves what surrounds the statements it was found in. -/
def isEscaping (labels : List Text) (entered : Entered) : Payload NodeId → Bool
  | .breakStatement label => label.isEmpty && !entered.aLoop && !entered.aSwitch
  | .continueStatement label => if label.isEmpty then !entered.aLoop else labels.contains label
  | _ => false

/-- What has been entered below a node. -/
def Entered.below (entered : Entered) (kind : Kind) : Entered :=
  if kind.isLoop then { entered with aLoop := true }
  else if kind = .switchStatement then { entered with aSwitch := true }
  else entered

/-- Functions and classes have jumps of their own. -/
def hasOwnJumps : Kind → Bool
  | .functionDeclaration | .functionExpression | .arrowFunctionExpression => true
  | .classDeclaration | .classExpression => true
  | _ => false

def escapingUpTo (a : Arena) (labels : List Text) : Nat → Entered → NodeId → Nat
  | 0, _, _ => 0
  | depth + 1, entered, id =>
    match a.payload? id with
    | none => 0
    | some payload =>
      if hasOwnJumps payload.kind then 0
      else
        let below := entered.below payload.kind
        (if isEscaping labels entered payload then 1 else 0)
          + payload.children.foldr (fun child n => escapingUpTo a labels depth below child + n) 0

/-- How many jumps in `statements` would leave a loop with these labels. -/
def escapingJumps (a : Arena) (statements : List NodeId) (labels : List Text) : Nat :=
  statements.foldr (fun s n => a.escapingUpTo labels a.size {} s + n) 0

/-- Whether a statement is a jump without a label. -/
def isPlainJump (a : Arena) (id : NodeId) : Bool :=
  match a.payload? id with
  | some (.breakStatement label) => label.isEmpty
  | some (.continueStatement label) => label.isEmpty
  | _ => false

/-- The statements of a case, without a plain jump at the end. -/
def caseStatements (a : Arena) (id : NodeId) : List NodeId :=
  match a.payload? id with
  | some (.switchCase _ consequent) =>
    let statements := consequent.filterMap (fun s => s)
    if statements.getLast?.any a.isPlainJump then statements.dropLast else statements
  | _ => []

/-- The cases of a `switch`. -/
def cases (a : Arena) (dispatch : NodeId) : List NodeId :=
  match a.payload? dispatch with
  | some (.switchStatement _ cases) => cases.filterMap (fun c => c)
  | _ => []

/-- The statements of all cases in the order of the source text. -/
def mergedCases (a : Arena) (dispatch : NodeId) : List NodeId :=
  (a.cases dispatch).flatMap a.caseStatements

end PlainScript.Arena
