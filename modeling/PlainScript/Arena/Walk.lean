import PlainScript.Arena.Traversal
import PlainScript.Arena.Edit

/-! Walks. A walk lists a subtree first and then gives each of its nodes a turn, in that order. At its
turn a node is handled if it still belongs to the subtree, wherever it was moved meanwhile; nodes
that were added since are not on the list. A handler may edit the arena and may fail, which ends
the walk. -/
namespace PlainScript

/-- How a walk went: how many handlers ran to their end, and what stopped it. -/
structure WalkOutcome (ε : Type) where
  visited : Nat
  failure : Option ε

/-- A walk over the arena inside a state of type `σ`. -/
structure Walker (σ ε : Type) where
  arena : σ → Arena
  ofArenaError : ArenaError → ε
  handler : Kind → Option (NodeId → EStateM ε σ Unit)

namespace Walker

variable {σ ε : Type} (w : Walker σ ε)

/-- The handler for a node at its turn. -/
def due (a : Arena) (start : NodeId) (startAttached : Bool) (id : NodeId) :
    Except ArenaError (Option (NodeId → EStateM ε σ Unit)) := do
  if !(← a.isWithin id start) then return none
  if startAttached then
    if !(← a.isAttached id) then return none
  return w.handler (← a.kind id)

/-- Gives the nodes of a list their turns. -/
def turns (start : NodeId) (startAttached : Bool) :
    List NodeId → Nat → σ → WalkOutcome ε × σ
  | [], visited, s => (⟨visited, none⟩, s)
  | id :: rest, visited, s =>
    match w.due (w.arena s) start startAttached id with
    | .error e => (⟨visited, some (w.ofArenaError e)⟩, s)
    | .ok none => turns start startAttached rest visited s
    | .ok (some handle) =>
      match handle id s with
      | .error e s => (⟨visited, some e⟩, s)
      | .ok () s => turns start startAttached rest (visited + 1) s

/-- The attachment of the start and the list of nodes, as they are before the first turn. -/
def snapshot (a : Arena) (start : NodeId) (order : Order) :
    Except ArenaError (Bool × List NodeId) := do
  return (← a.isAttached start, ← a.collect start order)

/-- Walks from a node; nothing happens without one. -/
def run (start : Option NodeId) (order : Order) : StateM σ (WalkOutcome ε) := fun s =>
  match start with
  | none => (⟨0, none⟩, s)
  | some start =>
    match snapshot (w.arena s) start order with
    | .error e => (⟨0, some (w.ofArenaError e)⟩, s)
    | .ok (startAttached, ids) => w.turns start startAttached ids 0 s

end Walker

end PlainScript
