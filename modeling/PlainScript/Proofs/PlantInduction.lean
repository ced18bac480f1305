import PlainScript.Proofs.Outline
import PlainScript.Proofs.Planting
import Mathlib.Data.List.Forall2
import Mathlib.Data.Option.Defs

/-! Facts about trees in arenas. What holds of a node whenever it holds of its children, and still holds when
more nodes come to the arena, holds of every tree that was put into an arena. -/
namespace PlainScript

open Function

variable {α β : Type}

/-- Slots of the same form, with related children. -/
inductive Slot.Rel (R : α → β → Prop) : Slot α → Slot β → Prop
  | one {c : Option α} {d : Option β} (h : Option.Rel R c d) : Rel R (.one c) (.one d)
  | many {cs : List (Option α)} {ds : List (Option β)} (h : List.Forall₂ (Option.Rel R) cs ds) :
      Rel R (.many cs) (.many ds)

/-- Slots with the same role and with related children. -/
def SameSlots (R : α → β → Prop) : List (Role × Slot α) → List (Role × Slot β) → Prop :=
  List.Forall₂ fun x y => x.1 = y.1 ∧ x.2.Rel R y.2

lemma Slot.Rel.children {R : α → β → Prop} {s : Slot α} {t : Slot β} (h : s.Rel R t) :
    List.Forall₂ R s.children t.children := by
  cases h with
  | one h =>
    cases h with
    | none => exact .nil
    | some h => exact .cons h .nil
  | many h =>
    induction h with
    | nil => exact .nil
    | cons hcd _ ih =>
      cases hcd with
      | none => simpa [Slot.children] using ih
      | some hcd => simpa [Slot.children] using List.Forall₂.cons hcd ih

lemma Slot.Rel.imp {R S : α → β → Prop} (hRS : ∀ a b, R a b → S a b) {s : Slot α} {t : Slot β} (h : s.Rel R t) :
    s.Rel S t := by
  have himp {c : Option α} {d : Option β} (h : Option.Rel R c d) : Option.Rel S c d := by
    cases h with
    | none => exact .none
    | some h => exact .some (hRS _ _ h)
  cases h with
  | one h => exact .one (himp h)
  | many h => exact .many (h.imp fun _ _ => himp)

lemma SameSlots.imp {R S : α → β → Prop} (hRS : ∀ a b, R a b → S a b) {xs : List (Role × Slot α)}
    {ys : List (Role × Slot β)} (h : SameSlots R xs ys) : SameSlots S xs ys :=
  List.Forall₂.imp (fun _ _ h => ⟨h.1, h.2.imp hRS⟩) h

/-- Nodes that are alike, with related children. -/
structure Node.Rel (R : α → β → Prop) (m : Node α) (n : Node β) : Prop where
  position_eq : n.position = m.position
  leading_eq : n.leading = m.leading
  trailing_eq : n.trailing = m.trailing
  outline_eq : n.payload.outline = m.payload.outline
  slots : SameSlots R m.payload.slots n.payload.slots

lemma Node.Rel.kind_eq {R : α → β → Prop} {m : Node α} {n : Node β} (h : m.Rel R n) :
    n.payload.kind = m.payload.kind := by
  rw [← Payload.kind_outline, h.outline_eq, Payload.kind_outline]

lemma exists_of_forall₂ {R : α → β → Prop} {xs : List α} {ys : List β} (h : List.Forall₂ R xs ys) {y : β}
    (hy : y ∈ ys) : ∃ x ∈ xs, R x y := by
  induction h with
  | nil => simp at hy
  | cons hxy _ ih =>
    rcases List.mem_cons.mp hy with rfl | hy
    · exact ⟨_, by simp, hxy⟩
    · obtain ⟨x, hx, hxy⟩ := ih hy
      exact ⟨x, by simp [hx], hxy⟩

/-- A child of the second node comes from a child of the first one. -/
lemma SameSlots.exists_child {R : α → β → Prop} {xs : List (Role × Slot α)} {ys : List (Role × Slot β)}
    (h : SameSlots R xs ys) {role : Role} {slot : Slot β} (hslot : (role, slot) ∈ ys) {d : β}
    (hd : d ∈ slot.children) : ∃ slot', (role, slot') ∈ xs ∧ ∃ c ∈ slot'.children, R c d := by
  obtain ⟨⟨role', slot'⟩, hslot', rfl, hrel⟩ := exists_of_forall₂ h hslot
  exact ⟨slot', hslot', exists_of_forall₂ hrel.children hd⟩

/-- The slots at one place are related. -/
lemma SameSlots.exists_getElem {R : α → β → Prop} {xs : List (Role × Slot α)} {ys : List (Role × Slot β)}
    (h : SameSlots R xs ys) {i : Nat} {y : Role × Slot β} (hy : ys[i]? = some y) :
    ∃ x, xs[i]? = some x ∧ x.1 = y.1 ∧ x.2.Rel R y.2 := by
  induction h generalizing i with
  | nil => simp at hy
  | cons hxy _ ih =>
    cases i with
    | zero =>
      obtain rfl := Option.some.inj hy
      exact ⟨_, rfl, hxy⟩
    | succ i => exact ih (by simpa using hy)

lemma Payload.kind_traverse {σ : Type} (one : Role → Option α → StateM σ (Option β))
    (many : Role → List (Option α) → StateM σ (List (Option β))) (p : Payload α) (s : σ) :
    ((p.traverse one many).run s).1.kind = p.kind := by
  cases p <;> rfl

namespace Arena

/-- Nodes keep what they are, and others may come. -/
def Extends (a b : Arena) : Prop := ∀ x p, a.payload? x = some p → b.payload? x = some p

lemma Extends.refl (a : Arena) : Extends a a := fun _ _ => id

lemma Extends.trans {a b c : Arena} (h : Extends a b) (h' : Extends b c) : Extends a c :=
  fun x p hp => h' x p (h x p hp)

lemma kind?_eq (a : Arena) (x : NodeId) : a.kind? x = (a.payload? x).map Payload.kind := by
  simp only [kind?, payload?, Option.map_map]
  rfl

lemma exists_payload {a : Arena} {x : NodeId} {k : Kind} (h : a.kind? x = some k) :
    ∃ p, a.payload? x = some p ∧ p.kind = k := by
  rw [kind?_eq] at h
  exact Option.map_eq_some_iff.mp h

lemma Extends.kind?_eq {a b : Arena} (h : Extends a b) {x : NodeId} {k : Kind} (hk : a.kind? x = some k) :
    b.kind? x = some k := by
  rw [Arena.kind?_eq] at hk ⊢
  obtain ⟨p, hp, rfl⟩ := Option.map_eq_some_iff.mp hk
  rw [h x p hp, Option.map_some]

/-- Nodes keep all but their parents, and others may come. -/
def Keeps (a b : Arena) : Prop := ∀ x c, a.cell? x = some c → ∃ d, b.cell? x = some d ∧ d.toNode = c.toNode

lemma Keeps.refl (a : Arena) : Keeps a a := fun _ c hc => ⟨c, hc, rfl⟩

lemma Keeps.trans {a b c : Arena} (h : Keeps a b) (h' : Keeps b c) : Keeps a c := by
  intro x cell hcell
  obtain ⟨d, hd, hnode⟩ := h x cell hcell
  obtain ⟨e, he, hnode'⟩ := h' x d hd
  exact ⟨e, he, hnode'.trans hnode⟩

lemma Keeps.extends {a b : Arena} (h : Keeps a b) : Extends a b := by
  intro x p hp
  obtain ⟨c, hc, rfl⟩ := Option.map_eq_some_iff.mp hp
  obtain ⟨d, hd, hnode⟩ := h x c hc
  rw [payload?, hd, Option.map_some, hnode]

lemma keeps_modify {a : Arena} {x : NodeId} {f : Cell → Cell} (hf : ∀ c, (f c).toNode = c.toNode) :
    Keeps a (a.modify x f) := by
  intro y c hc
  rw [cell?_modify]
  split
  · exact ⟨f c, by rw [hc, Option.map_some], hf c⟩
  · exact ⟨c, hc, rfl⟩

lemma keeps_adoptAll {a : Arena} (p : NodeId) (cs : List NodeId) : Keeps a (adoptAll p a cs) := by
  induction cs generalizing a with
  | nil => exact .refl a
  | cons c cs ih =>
    have hadopt : Keeps a (a.modify c fun cell => { cell with parent := some p }) := keeps_modify fun _ => rfl
    exact hadopt.trans ih

lemma keeps_push {a : Arena} (c : Cell) : Keeps a (a.push c) := by
  intro x d hd
  refine ⟨d, ?_, rfl⟩
  rw [cell?_push, if_neg (Nat.ne_of_lt (lt_size_of_cell? hd)), hd]

/-- Whatever arena it starts from, an action leaves its nodes as they are, and its answer is good. -/
def Grows (act : StateM Arena α) (Q : α → Arena → Prop) : Prop :=
  ∀ a : Arena, Keeps a (act.run a).2 ∧ Q (act.run a).1 (act.run a).2

section Induction

/-- A new node leaves the others as they are. -/
lemma grow_keeps {a : Arena} {cs : List NodeId} (cell : Cell) :
    Keeps a ((adoptAll a.size a cs).push cell) ∧ ((adoptAll a.size a cs).push cell).cell? a.size = some cell :=
  ⟨.trans (keeps_adoptAll _ cs) (keeps_push cell), by rw [cell?_push, if_pos (adoptAll_size ..).symm]⟩

variable {R : Arena → Tree → NodeId → Prop}

/-- The node exists, and `R` holds of it. -/
def Stands (R : Arena → Tree → NodeId → Prop) (a : Arena) (t : Tree) (id : NodeId) : Prop :=
  R a t id ∧ id < a.size

/-- Putting the tree into an arena gives a node of which `R` holds. -/
abbrev Sows (R : Arena → Tree → NodeId → Prop) (t : Tree) : Prop := Grows (plant t) fun id a => Stands R a t id

/-- Nodes that come do no harm. -/
abbrev Stable (R : Arena → Tree → NodeId → Prop) : Prop := ∀ a b t id, Keeps a b → R a t id → R b t id

lemma Stable.stands (hR : Stable R) {a b : Arena} (hab : Keeps a b) {t : Tree} {id : NodeId}
    (h : Stands R a t id) : Stands R b t id := by
  obtain ⟨c, hc⟩ := exists_cell h.2
  exact ⟨hR a b t id hab h.1, lt_size_of_payload? (hab.extends id c.payload (by simp [payload?, hc]))⟩

lemma plantChild_grows {c : Option Tree} (h : ∀ t ∈ c, Sows R t) :
    Grows (plantChild (c.map plant)) fun d a => Option.Rel (Stands R a) c d := by
  intro a
  cases c with
  | none => exact ⟨.refl a, .none⟩
  | some t => exact ⟨(h t rfl a).1, .some (h t rfl a).2⟩

variable (hR : Stable R)
include hR

lemma mapM_plantChild_grows (cs : List (Option Tree)) (h : ∀ t, some t ∈ cs → Sows R t) :
    Grows ((cs.map (Option.map plant)).mapM plantChild) fun ds a =>
      List.Forall₂ (Option.Rel (Stands R a)) cs ds := by
  induction cs with
  | nil => exact fun a => ⟨.refl a, .nil⟩
  | cons c rest ih =>
    intro a
    have hc := plantChild_grows (c := c) (fun t ht => h t (by simp_all)) a
    have hrest := ih (fun t ht => h t (by simp [ht])) ((plantChild (c.map plant)).run a).2
    rw [List.map_cons, run_mapM_cons]
    refine ⟨hc.1.trans hrest.1, .cons ?_ hrest.2⟩
    cases hc.2 with
    | none => exact .none
    | some h => exact .some (hR.stands hrest.1 h)

lemma visitSlots_grows {ss : List (Role × Slot Tree)} (h : ∀ t ∈ ss.flatMap (·.2.children), Sows R t) :
    Grows (Payload.visitSlots (fun _ => plantChild) (fun _ cs => cs.mapM plantChild)
      (ss.map (Tree.foldEntry plantNode))) fun ss' a => SameSlots (Stands R a) ss ss' := by
  induction ss with
  | nil => exact fun a => ⟨.refl a, .nil⟩
  | cons entry rest ih =>
    intro a
    have hrest := ih fun t ht => h t (by
      rw [List.flatMap_cons]
      exact List.mem_append_right _ ht)
    obtain ⟨role, c | cs⟩ := entry
    · have hc := plantChild_grows (c := c) (fun t ht => h t (by simp_all [Slot.children])) a
      rw [List.map_cons, Tree.foldEntry, Tree.foldSlot_eq]
      exact ⟨hc.1.trans (hrest _).1, .cons
        ⟨rfl, (Slot.Rel.one hc.2).imp fun _ _ => hR.stands (hrest _).1⟩ (hrest _).2⟩
    · have hcs := mapM_plantChild_grows hR cs (fun t ht => h t (by simp_all [Slot.children])) a
      rw [List.map_cons, Tree.foldEntry, Tree.foldSlots_eq]
      exact ⟨hcs.1.trans (hrest _).1, .cons
        ⟨rfl, (Slot.Rel.many hcs.2).imp fun _ _ => hR.stands (hrest _).1⟩ (hrest _).2⟩

/-- Puts the children of a node into the arena. -/
def plantPayload (p : Payload Tree) : StateM Arena (Payload NodeId) :=
  (Tree.foldPayload plantNode p).traverse (fun _ => plantChild) fun _ cs => cs.mapM plantChild

omit hR in
lemma run_plant_mk (node : Node Tree) (a : Arena) : (plant (.mk node)).run a =
    let v := (plantPayload node.payload).run a
    (v.2.size, (adoptAll v.2.size v.2 v.1.children).push { node with payload := v.1, parent := none }) := by
  rw [plant, Tree.fold_mk]
  rfl

lemma plantPayload_grows {p : Payload Tree} (h : ∀ t ∈ p.children, Sows R t) :
    Grows (plantPayload p) fun q a => SameSlots (Stands R a) p.slots q.slots := by
  intro a
  have hvisit := visitSlots_grows hR h a
  rw [← Tree.slots_foldPayload, ← Payload.slots_traverse] at hvisit
  exact hvisit

omit hR in
/-- A node in the arena has its outline. -/
lemma outline_plantPayload (p : Payload Tree) (a : Arena) : ((plantPayload p).run a).1.outline = p.outline := by
  have hone (c : Option (StateM Arena NodeId)) (s : Arena) : Slot.mark ((plantChild c).run s).1 = Slot.mark c := by
    cases c <;> rfl
  have hmany (cs : List (Option (StateM Arena NodeId))) (s : Arena) :
      ((cs.mapM plantChild).run s).1.map Slot.mark = cs.map Slot.mark := by
    induction cs generalizing s with
    | nil => rfl
    | cons c rest ih => rw [run_mapM_cons, List.map_cons, List.map_cons, hone, ih]
  rw [plantPayload, Payload.outline_traverse (fun _ => hone) (fun _ => hmany), Payload.outline_foldPayload]

/-- What holds of a node whenever it holds of its children, holds of every tree that is put into an arena. The node
is what it was in the tree, but for its children. -/
theorem plant_node_induction
    (hnode : ∀ (a : Arena) (node : Node Tree) (c : Cell) (id : NodeId), a.cell? id = some c →
      node.Rel (R a) c.toNode → (∀ d ∈ c.payload.children, d < id) → R a (.mk node) id)
    (t : Tree) : Sows R t := by
  induction t using Tree.induction with
  | h node ih =>
  intro a
  obtain ⟨hkeeps, hslots⟩ := plantPayload_grows hR ih a
  have houtline := outline_plantPayload node.payload a
  rw [run_plant_mk]
  generalize (plantPayload node.payload).run a = v at *
  obtain ⟨p, b⟩ := v
  have hchildren (c : NodeId) (hc : c ∈ p.children) : c < b.size := by
    obtain ⟨⟨role, slot⟩, hslot, hc⟩ := List.mem_flatMap.mp hc
    obtain ⟨-, -, t, -, ht⟩ := hslots.exists_child hslot hc
    exact ht.2
  have hgrow := @grow_keeps b p.children { node with payload := p, parent := none }
  refine ⟨hkeeps.trans hgrow.1, hnode _ node _ b.size hgrow.2 ⟨rfl, rfl, rfl, houtline, ?_⟩ hchildren,
    lt_size_of_cell? hgrow.2⟩
  exact hslots.imp fun t c hc => hR b _ t c hgrow.1 hc.1

/-- The same, where only the kind of the node matters. -/
theorem plant_induction
    (hnode : ∀ (a : Arena) (node : Node Tree) (p : Payload NodeId) (id : NodeId), a.payload? id = some p →
      p.kind = node.payload.kind → SameSlots (R a) node.payload.slots p.slots → (∀ c ∈ p.children, c < id) →
        R a (.mk node) id)
    (t : Tree) : Sows R t := by
  refine plant_node_induction hR (fun a node c id hc hrel => ?_) t
  exact hnode a node c.payload id (by rw [payload?, hc, Option.map_some]) hrel.kind_eq hrel.slots

end Induction

end Arena

end PlainScript
