import PlainScript.Tree

/-! An arena holds nodes under stable numbers. A node knows its parent; one without a parent is
detached, or the root. Slots may name numbers that do not exist, so every look-up can fail. -/
namespace PlainScript

abbrev NodeId := Nat

inductive ArenaError
  | invalidId (id : NodeId)
  | detached (child : Kind)
  | notReferenced (parent child : Kind)
  | cannotSplice (parent : Kind)
  | cannotRemove (child parent : Kind)
  | cannotInsert (anchor : Kind)
  deriving DecidableEq, Repr

def ArenaError.message : ArenaError → Text
  | invalidId id => "invalid node id " ++ Text.ofNat id
  | detached child => "node is detached: " ++ child.name
  | notReferenced parent child =>
    "parent " ++ parent.name ++ " does not reference child " ++ child.name
  | cannotSplice parent => "cannot splice statements into " ++ parent.name
  | cannotRemove child parent =>
    "cannot remove required " ++ child.name ++ " from " ++ parent.name
  | cannotInsert anchor => "cannot insert next to " ++ anchor.name ++ " outside a list"

/-- A node of an arena. -/
structure Cell extends Node NodeId where
  parent : Option NodeId := none
  deriving DecidableEq

def Cell.kind (c : Cell) : Kind := c.payload.kind

structure Arena where
  cells : Array Cell := #[]
  root : Option NodeId := none

namespace Arena

def size (a : Arena) : Nat := a.cells.size

def cell? (a : Arena) (id : NodeId) : Option Cell := a.cells[id]?

def payload? (a : Arena) (id : NodeId) : Option (Payload NodeId) := (a.cell? id).map (·.payload)

def kind? (a : Arena) (id : NodeId) : Option Kind := (a.cell? id).map Cell.kind

/-- Whether there is a node of some kind under a number. -/
def isKind (a : Arena) (k : Kind) (id : NodeId) : Bool := a.kind? id == some k

def cell (a : Arena) (id : NodeId) : Except ArenaError Cell :=
  match a.cell? id with
  | some c => .ok c
  | none => .error (.invalidId id)

def kind (a : Arena) (id : NodeId) : Except ArenaError Kind := (a.cell id).map Cell.kind

def parent (a : Arena) (id : NodeId) : Except ArenaError (Option NodeId) :=
  (a.cell id).map (·.parent)

/-- The children in the order of the source text. -/
def children (a : Arena) (id : NodeId) : Except ArenaError (List NodeId) :=
  (a.cell id).map (·.payload.children)

/-- The children, none for a number without a node. -/
def childIds (a : Arena) (id : NodeId) : List NodeId :=
  (a.payload? id).elim [] Payload.children

def isFunction (a : Arena) (id : NodeId) : Bool := (a.kind? id).any Kind.isFunction

/-- Changes one node. -/
def modify (a : Arena) (id : NodeId) (f : Cell → Cell) : Arena :=
  { a with cells := a.cells.modify id f }

def push (a : Arena) (c : Cell) : Arena := { a with cells := a.cells.push c }

@[simp] theorem size_push (a : Arena) (c : Cell) : (a.push c).size = a.size + 1 :=
  Array.size_push ..

@[simp] theorem size_modify (a : Arena) (id : NodeId) (f : Cell → Cell) :
    (a.modify id f).size = a.size := Array.size_modify ..

def plantChild : Option (StateM Arena NodeId) → StateM Arena (Option NodeId)
  | none => pure none
  | some child => some <$> child

/-- Puts a node into the arena after its children, and makes it their parent. -/
def plantNode (node : Node (StateM Arena NodeId)) : StateM Arena NodeId := do
  let payload ← node.payload.traverse (fun _ => plantChild) fun _ cs => cs.mapM plantChild
  let id := (← get).size
  let adopt (a : Arena) (child : NodeId) : Arena :=
    a.modify child fun c => { c with parent := some id }
  MonadState.modifyGet fun a =>
    (id, (payload.children.foldl adopt a).push { node with payload, parent := none })

/-- Puts a tree into the arena, children before parents, and answers the number of its root. -/
def plant (t : Tree) : StateM Arena NodeId := t.fold plantNode

/-- The arena that holds just one tree. -/
def ofTree (t : Tree) : Arena :=
  let (root, a) := (plant t).run {}
  { a with root := some root }

end Arena

end PlainScript
