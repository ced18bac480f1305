import PlainScript.Tree
import Mathlib.Data.List.Basic
import Mathlib.Tactic.Lemma

/-! Induction over trees, and payloads seen slot by slot. What rebuilds a payload visits its slots in
their order, so that a fact about the slots needs no case for each kind of node. -/
namespace PlainScript

variable {α β σ : Type}

namespace Payload

/-- The slots of a payload one after the other, each given to its visitor. -/
def visitSlots (one : Role → Option α → StateM σ (Option β))
    (many : Role → List (Option α) → StateM σ (List (Option β))) :
    List (Role × Slot α) → StateM σ (List (Role × Slot β))
  | [] => pure []
  | (role, .one c) :: rest => do
    let c ← one role c
    return (role, .one c) :: (← visitSlots one many rest)
  | (role, .many cs) :: rest => do
    let cs ← many role cs
    return (role, .many cs) :: (← visitSlots one many rest)

lemma slots_traverse (one : Role → Option α → StateM σ (Option β))
    (many : Role → List (Option α) → StateM σ (List (Option β))) (p : Payload α) (s : σ) :
    (slots <$> p.traverse one many).run s = (visitSlots one many p.slots).run s := by
  cases p <;> rfl

end Payload

namespace Tree

/-! ### Induction -/

lemma sizeOf_lt_of_mem_one {c : Tree} {slot : Option Tree} (h : c ∈ (Slot.one slot).children) :
    sizeOf c < sizeOf slot := by
  obtain rfl : slot = some c := by simpa [Slot.children] using h
  simp

lemma sizeOf_lt_of_mem_many {c : Tree} {slot : List (Option Tree)}
    (h : c ∈ (Slot.many slot).children) : sizeOf c < sizeOf slot := by
  have hc : some c ∈ slot := by simpa [Slot.children] using h
  have hs := List.sizeOf_lt_of_mem hc
  simp only [Option.some.sizeOf_spec] at hs
  omega

lemma sizeOf_child_lt {p : Payload Tree} {c : Tree} (h : c ∈ p.children) :
    sizeOf c < sizeOf p := by
  obtain ⟨⟨role, slot⟩, hs, hc⟩ := List.mem_flatMap.mp h
  cases p
  all_goals repeat' rcases hs with _ | ⟨_, hs⟩
  all_goals
    first
    | have := sizeOf_lt_of_mem_one hc
    | have := sizeOf_lt_of_mem_many hc
    simp
    omega

theorem induction {P : Tree → Prop}
    (h : ∀ node, (∀ c ∈ node.payload.children, P c) → P (mk node)) : ∀ t, P t
  | mk ⟨payload, position, leading, trailing⟩ =>
    h ⟨payload, position, leading, trailing⟩ fun c hc =>
      have : sizeOf c < sizeOf payload := sizeOf_child_lt hc
      induction h c
decreasing_by
  simp only [mk.sizeOf_spec, Node.mk.sizeOf_spec]
  omega

/-! ### The slots of a folded node -/

def foldEntry (f : Node β → β) : Role × Slot Tree → Role × Slot β
  | (role, .one c) => (role, .one (foldSlot f c))
  | (role, .many cs) => (role, .many (foldSlots f cs))

@[simp] lemma foldSlot_eq (f : Node β → β) (c : Option Tree) : foldSlot f c = c.map (fold f) := by
  cases c <;> simp [foldSlot]

@[simp] lemma foldSlots_eq (f : Node β → β) (cs : List (Option Tree)) :
    foldSlots f cs = cs.map (Option.map (fold f)) := by
  induction cs with
  | nil => rfl
  | cons c cs ih => simp [foldSlots, ih]

lemma fold_mk (f : Node β → β) (node : Node Tree) :
    fold f (mk node) = f { node with payload := foldPayload f node.payload } := by
  cases node
  rw [fold]

lemma slots_foldPayload (f : Node β → β) (p : Payload Tree) :
    (foldPayload f p).slots = p.slots.map (foldEntry f) := by
  cases p <;> simp only [foldPayload] <;> rfl

lemma kind_foldPayload (f : Node β → β) (p : Payload Tree) : (foldPayload f p).kind = p.kind := by
  cases p <;> simp only [foldPayload] <;> rfl

lemma children_foldEntry (f : Node β → β) (entry : Role × Slot Tree) :
    (foldEntry f entry).2.children = entry.2.children.map (fold f) := by
  obtain ⟨role, c | cs⟩ := entry
  · cases c <;> simp [foldEntry, Slot.children]
  · induction cs with
    | nil => rfl
    | cons c cs ih => cases c <;> simp_all [foldEntry, Slot.children]

lemma children_foldPayload (f : Node β → β) (p : Payload Tree) :
    (foldPayload f p).children = p.children.map (fold f) := by
  simp [Payload.children, slots_foldPayload, List.flatMap_map, List.map_flatMap, children_foldEntry]

/-! ### Sizes -/

lemma size_eq (t : Tree) :
    t.size = 1 + (t.node.payload.children.map size).foldr (· + ·) 0 := by
  obtain ⟨node⟩ := t
  rw [size, fold_mk]
  simp only [children_foldPayload]
  rfl

lemma size_pos (t : Tree) : 0 < t.size := by
  rw [size_eq]
  omega

lemma size_lt {t c : Tree} (h : c ∈ t.node.payload.children) : c.size < t.size := by
  obtain ⟨before, after, hsplit⟩ := List.append_of_mem h
  have hsum : t.size = 1 + (t.node.payload.children.map size).sum := size_eq t
  rw [hsum, hsplit, List.map_append, List.map_cons, List.sum_append, List.sum_cons]
  omega

/-! ### Heights -/

/-- How many nodes there are on the longest way down. -/
def height (t : Tree) : Nat := t.fold fun node => 1 + node.payload.children.foldr max 0

lemma height_eq (t : Tree) : t.height = 1 + (t.node.payload.children.map height).foldr max 0 := by
  obtain ⟨node⟩ := t
  rw [height, fold_mk]
  simp only [children_foldPayload]
  rfl

lemma height_pos (t : Tree) : 0 < t.height := by
  rw [height_eq]
  omega

lemma height_lt {t c : Tree} (h : c ∈ t.node.payload.children) : c.height < t.height := by
  have hle : ∀ cs : List Tree, c ∈ cs → c.height ≤ (cs.map height).foldr max 0 := fun cs hc => by
    induction cs with
    | nil => cases hc
    | cons d cs ih =>
      rw [List.map_cons, List.foldr_cons]
      cases hc with
      | head => exact Nat.le_max_left ..
      | tail _ hc => exact Nat.le_trans (ih hc) (Nat.le_max_right ..)
  rw [height_eq t]
  have := hle _ h
  omega

/-- The longest way down begins with a child on its own longest way, if there is a child at all. -/
lemma height_cases (t : Tree) : t.height = 1 ∨ ∃ c ∈ t.node.payload.children, t.height = c.height + 1 := by
  have hmax : ∀ cs : List Tree,
      (cs.map height).foldr max 0 = 0 ∨ ∃ c ∈ cs, (cs.map height).foldr max 0 = c.height := by
    intro cs
    induction cs with
    | nil => exact .inl rfl
    | cons d cs ih =>
      rw [List.map_cons, List.foldr_cons]
      obtain hle | hlt := Nat.le_total ((cs.map height).foldr max 0) d.height
      · exact .inr ⟨d, List.mem_cons_self, Nat.max_eq_left hle⟩
      · rw [Nat.max_eq_right hlt]
        exact ih.imp_right fun ⟨c, hc, heq⟩ => ⟨c, List.mem_cons_of_mem d hc, heq⟩
  rw [height_eq]
  exact (hmax _).imp (by omega) fun ⟨c, hc, heq⟩ => ⟨c, hc, by omega⟩

end Tree

end PlainScript
