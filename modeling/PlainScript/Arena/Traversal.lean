import PlainScript.Arena

/-! Paths through an arena. Going up follows parents, at most as many as there are nodes. Going
down lists a subtree with a stack of what is still to visit: in pre-order, or in post-order as the
reverse of a pre-order that takes the children from right to left. -/
namespace PlainScript

inductive Order
  | pre
  | post
  deriving DecidableEq, Repr

namespace Arena

/-- Whether `goal` is met on the way up from `id` in at most `steps` nodes. -/
def reaches (a : Arena) (goal : NodeId) : Nat → Option NodeId → Except ArenaError Bool
  | _, none => .ok false
  | 0, _ => .ok false
  | steps + 1, some id =>
    if id = goal then .ok true
    else match a.parent id with
      | .ok p => reaches a goal steps p
      | .error e => .error e

/-- Whether a node is `ancestor` or below it. -/
def isWithin (a : Arena) (id ancestor : NodeId) : Except ArenaError Bool :=
  a.reaches ancestor (a.size + 1) (some id)

/-- Whether a node is the root or below it. -/
def isAttached (a : Arena) (id : NodeId) : Except ArenaError Bool :=
  match a.root with
  | none => .ok false
  | some root => a.isWithin id root

def firstFunction (a : Arena) : Nat → Option NodeId → Except ArenaError (Option NodeId)
  | _, none => .ok a.root
  | 0, _ => .ok a.root
  | steps + 1, some id =>
    if a.isFunction id then .ok (some id)
    else match a.parent id with
      | .ok p => firstFunction a steps p
      | .error e => .error e

/-- The nearest function around a node, or the root. -/
def enclosingFunction (a : Arena) (id : NodeId) : Except ArenaError (Option NodeId) :=
  match a.parent id with
  | .ok p => a.firstFunction (a.size + 1) p
  | .error e => .error e

/-- How many ways of at most `depth` steps lead down from a node, the empty one included. -/
def pathCount (a : Arena) : Nat → NodeId → Nat
  | 0, _ => 1
  | depth + 1, id => 1 + (a.childIds id).foldr (fun child n => a.pathCount depth child + n) 0

/-- Visits the nodes on a stack and what is below them. `arrange` orders the children. -/
def visit (a : Arena) (arrange : List NodeId → List NodeId) :
    Nat → List NodeId → Except ArenaError (List NodeId)
  | _, [] => .ok []
  | 0, _ => .ok []
  | steps + 1, id :: stack =>
    match a.children id with
    | .error e => .error e
    | .ok children =>
      match visit a arrange steps (arrange children ++ stack) with
      | .error e => .error e
      | .ok ids => .ok (id :: ids)

/-- The nodes of a subtree. -/
def collect (a : Arena) (start : NodeId) (order : Order) : Except ArenaError (List NodeId) :=
  let steps := a.pathCount a.size start
  match order with
  | .pre => a.visit id steps [start]
  | .post => (a.visit List.reverse steps [start]).map List.reverse

/-- The nodes of the whole tree, none without a root. -/
def collectAll (a : Arena) (order : Order) : Except ArenaError (List NodeId) :=
  match a.root with
  | none => .ok []
  | some root => a.collect root order

end Arena

end PlainScript
