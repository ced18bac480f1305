import PlainScript.Arena

/-! Edits of an arena. A node has a parent exactly when a slot of that parent holds it, and every
edit keeps both sides in step: a node that loses its slot loses its parent. An edit that fails may
already have taken the node that was to be moved out of its old place. -/
namespace PlainScript

/-- An edit answers a value or an error, and in both cases the arena as it is then. -/
abbrev Edit := EStateM ArenaError Arena

namespace Edit

/-- A question to the arena. -/
def ask {α : Type} (question : Arena → Except ArenaError α) : Edit α := fun a =>
  match question a with
  | .ok r => .ok r a
  | .error e => .error e a

def change (f : Arena → Arena) : Edit Unit := modify f

def setParent (id : NodeId) (parent : Option NodeId) : Edit Unit :=
  change (·.modify id fun c => { c with parent })

def setPayload (id : NodeId) (payload : Payload NodeId) : Edit Unit :=
  change (·.modify id fun c => { c with payload })

/-- The parent of a node and the first place where it holds the node. -/
def locate (child : NodeId) : Edit (NodeId × Payload.Place) := ask fun a => do
  let c ← a.cell child
  match c.parent with
  | none => throw (.detached c.kind)
  | some p =>
    let holder ← a.cell p
    match holder.payload.place? child with
    | some place => return (p, place)
    | none => throw (.notReferenced holder.kind c.kind)

/-- Puts something else at a place of a node. -/
def splice (parent : NodeId) (place : Payload.Place) (replacement : List NodeId) : Edit Unit :=
  change (·.modify parent fun c => { c with payload := c.payload.splice place replacement })

/-- Takes a node out of its slot. -/
def unlink (id : NodeId) : Edit Unit := do
  if ((← ask (·.parent id)).isSome) then
    let (p, place) ← locate id
    splice p place []
    setParent id none

/-- Makes a node the parent of its children. A child that has another parent leaves it. -/
def adoptChildren (id : NodeId) : Edit Unit := do
  for child in ← ask (·.children id) do
    let parent ← ask (·.parent child)
    if parent.isSome && parent != some id then unlink child
    setParent child (some id)

/-- Adds a node. -/
def add (payload : Payload NodeId) (position : Position) : Edit NodeId := do
  let id := (← get).size
  change (·.push { payload, position })
  adoptChildren id
  return id

/-- Moves the leading comments of one node in front of those of another. -/
def moveLeading (source target : NodeId) : Edit Unit := do
  let moved := (← ask (·.cell source)).leading
  if !moved.isEmpty then
    discard (ask (·.cell target))
    change (·.modify target fun c => { c with leading := moved ++ c.leading })
    change (·.modify source fun c => { c with leading := [] })

/-- Replaces what a node is. Children that it no longer holds are detached. -/
def replaceData (target : NodeId) (payload : Payload NodeId) : Edit Unit := do
  let before ← ask (·.children target)
  setPayload target payload
  for old in before do
    if !payload.children.contains old then
      if (← ask (·.parent old)) == some target then setParent old none
  adoptChildren target

/-- Puts a node where another one stands. -/
def replaceWith (target replacement : NodeId) : Edit Unit := do
  if target != replacement then
    unlink replacement
    let (p, place) ← locate target
    splice p place [replacement]
    setParent replacement (some p)
    setParent target none
    moveLeading target replacement

/-- Puts several nodes where one stands; outside a list they are wrapped in a block. -/
def replaceWithMany (target : NodeId) (replacements : List NodeId) : Edit Unit := do
  for r in replacements do unlink r
  let (p, place) ← locate target
  if place.index.isSome then
    splice p place replacements
    for r in replacements do setParent r (some p)
  else if place.role = .statement || place.role = .optionalStatement then
    let wrapped ← add (.blockStatement (replacements.map some)) (← ask (·.cell target)).position
    splice p place [wrapped]
    setParent wrapped (some p)
  else
    throw (.cannotSplice (← ask (·.kind p)))
  setParent target none
  match replacements with
  | [] => return
  | first :: _ => moveLeading target first

/-- Detaches a node. A required statement leaves an empty one behind, and a required expression
stays. -/
def remove (target : NodeId) : Edit Unit := do
  let (p, place) ← locate target
  match place.role with
  | .statement =>
    let empty ← add .emptyStatement (← ask (·.cell target)).position
    splice p place [empty]
    setParent empty (some p)
  | .expression => throw (.cannotRemove (← ask (·.kind target)) (← ask (·.kind p)))
  | _ => splice p place []
  setParent target none

/-- Inserts a node into the list of another, `offset` places behind it. -/
def insertAt (anchor inserted : NodeId) (offset : Nat) : Edit Unit := do
  unlink inserted
  let (p, place) ← locate anchor
  match place.index with
  | none => throw (.cannotInsert (← ask (·.kind anchor)))
  | some i =>
    let insertInto (cs : List (Option NodeId)) : List (Option NodeId) :=
      cs.take (i + offset) ++ some inserted :: cs.drop (i + offset)
    change (·.modify p fun c => { c with payload := c.payload.modifySlot place.slot id insertInto })
    setParent inserted (some p)

def insertBefore (anchor inserted : NodeId) : Edit Unit := insertAt anchor inserted 0
def insertAfter (anchor inserted : NodeId) : Edit Unit := insertAt anchor inserted 1

def setRoot (root : Option NodeId) : Edit Unit := change fun a => { a with root }

end Edit

end PlainScript
