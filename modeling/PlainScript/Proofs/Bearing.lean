import PlainScript.Proofs.EditLinks
import PlainScript.Proofs.PlantInduction
import PlainScript.Proofs.Spelled

/-! Nodes that stand for trees. A node of an arena bears a tree if it is what the root of the tree is and its children
bear those of the root. A stock of nodes that nothing holds yet is what the next node may take its children from;
an edit that adds the node puts it into the stock in place of its children. -/
namespace PlainScript

open Function

variable {α β γ : Type}

/-! ### Payloads of pairs -/

lemma relMap_left {R : β → γ → Prop} {f : α → β} {c : Option α} {d : Option γ} :
    Option.Rel R (c.map f) d ↔ Option.Rel (fun x y => R (f x) y) c d := by
  cases c <;> constructor <;> rintro (_ | h) <;> constructor <;> assumption

namespace Slot

def map (f : α → β) : Slot α → Slot β
  | one c => one (c.map f)
  | many cs => many (cs.map (Option.map f))

lemma children_map (f : α → β) (s : Slot α) : (s.map f).children = s.children.map f := by
  cases s with
  | one c => cases c <;> rfl
  | many cs =>
    induction cs with
    | nil => rfl
    | cons c cs ih => cases c <;> simp_all [map, children]

lemma rel_map_left {R : β → γ → Prop} {f : α → β} {s : Slot α} {t : Slot γ} :
    (s.map f).Rel R t ↔ s.Rel (fun x y => R (f x) y) t := by
  constructor
  · intro h
    cases s with
    | one c =>
      cases h with
      | one h => exact .one (relMap_left.mp h)
    | many cs =>
      cases h with
      | many h => exact .many ((List.forall₂_map_left_iff.mp h).imp fun _ _ => relMap_left.mp)
  · rintro (h | h)
    · exact .one (relMap_left.mpr h)
    · exact .many (List.forall₂_map_left_iff.mpr (h.imp fun _ _ => relMap_left.mpr))

lemma rel_self_map {R : α → β → Prop} {f : α → β} {s : Slot α} (h : ∀ x ∈ s.children, R x (f x)) :
    s.Rel R (s.map f) := by
  have hone (c : Option α) (hc : ∀ x ∈ c, R x (f x)) : Option.Rel R c (c.map f) := by
    cases c with
    | none => exact .none
    | some x => exact .some (hc x rfl)
  cases s with
  | one c => exact .one (hone c fun x hx => h x (by simpa [children] using hx))
  | many cs =>
    refine .many (List.forall₂_map_right_iff.mpr (List.forall₂_same.mpr fun c hc => hone c fun x hx => h x ?_))
    obtain rfl := Option.mem_def.mp hx
    simpa [children] using hc

end Slot

lemma sameSlots_map_left {R : β → γ → Prop} {f : α → β} {xs : List (Role × Slot α)}
    {ys : List (Role × Slot γ)} :
    SameSlots R (xs.map fun e => (e.1, e.2.map f)) ys ↔ SameSlots (fun x y => R (f x) y) xs ys := by
  simp only [SameSlots, List.forall₂_map_left_iff, Slot.rel_map_left]

namespace Payload

def map (f : α → β) (p : Payload α) : Payload β :=
  Id.run (p.traverse (fun _ c => pure (c.map f)) fun _ cs => pure (cs.map (Option.map f)))

lemma slots_map (f : α → β) (p : Payload α) : (p.map f).slots = p.slots.map fun e => (e.1, e.2.map f) := by
  cases p <;> rfl

lemma children_map (f : α → β) (p : Payload α) : (p.map f).children = p.children.map f := by
  simp [children, slots_map, List.flatMap_map, List.map_flatMap, Slot.children_map]

lemma isSpelled_map (f : α → β) (p : Payload α) : (p.map f).IsSpelled ↔ p.IsSpelled := by
  cases p <;> rfl

lemma outline_map (f : α → β) (p : Payload α) : (p.map f).outline = p.outline := by
  have hmark (c : Option α) : Slot.mark (c.map f) = Slot.mark c := by cases c <;> rfl
  cases p <;> simp [map, outline, traverse, hmark]

/-- The payloads on both sides of a payload of pairs. -/
lemma sameSlots_map {R : β → γ → Prop} {f : α → β} {g : α → γ} {p : Payload α}
    (h : ∀ x ∈ p.children, R (f x) (g x)) :
    SameSlots R (p.map f).slots (p.map g).slots := by
  rw [slots_map, slots_map, sameSlots_map_left]
  refine List.forall₂_map_right_iff.mpr (List.forall₂_same.mpr fun e he => ⟨rfl, Slot.rel_self_map fun x hx => ?_⟩)
  exact h x (List.mem_flatMap.mpr ⟨e, he, hx⟩)

end Payload

lemma Tree.slots_foldPayload_eq (f : Node β → β) (p : Payload Tree) :
    (foldPayload f p).slots = p.slots.map fun e => (e.1, e.2.map (fold f)) := by
  rw [slots_foldPayload]
  refine List.map_congr_left fun ⟨role, slot⟩ _ => ?_
  cases slot with
  | one c => rw [foldEntry, foldSlot_eq, Slot.map]
  | many cs => rw [foldEntry, foldSlots_eq, Slot.map]

lemma forall₂_imp_mem {R S : α → β → Prop} {xs : List α} {ys : List β} (h : List.Forall₂ R xs ys)
    (hRS : ∀ x ∈ xs, ∀ y ∈ ys, R x y → S x y) : List.Forall₂ S xs ys := by
  obtain ⟨hlength, hzip⟩ := List.forall₂_iff_zip.mp h
  refine List.forall₂_iff_zip.mpr ⟨hlength, fun hxy => ?_⟩
  obtain ⟨hx, hy⟩ := List.of_mem_zip hxy
  exact hRS _ hx _ hy (hzip hxy)

/-- Only the children that are there matter. -/
lemma SameSlots.imp_mem {R S : α → β → Prop} {xs : List (Role × Slot α)} {ys : List (Role × Slot β)}
    (h : SameSlots R xs ys)
    (hRS : ∀ x ∈ xs.flatMap (·.2.children), ∀ y ∈ ys.flatMap (·.2.children), R x y → S x y) : SameSlots S xs ys := by
  have hone {c : Option α} {d : Option β} (h : Option.Rel R c d) (hcd : ∀ x ∈ c, ∀ y ∈ d, R x y → S x y) :
      Option.Rel S c d := by
    cases h with
    | none => exact .none
    | some h => exact .some (hcd _ rfl _ rfl h)
  have hslot {s : Slot α} {t : Slot β} (h : s.Rel R t) (hst : ∀ x ∈ s.children, ∀ y ∈ t.children, R x y → S x y) :
      s.Rel S t := by
    cases h with
    | one h => exact .one (hone h (by simpa [Slot.children] using hst))
    | many h =>
      refine .many (forall₂_imp_mem h fun c hc d hd h => hone h fun x hx y hy => hst x ?_ y ?_)
      · simpa [Slot.children] using Option.mem_def.mp hx ▸ hc
      · simpa [Slot.children] using Option.mem_def.mp hy ▸ hd
  refine forall₂_imp_mem h fun e he f hf hef => ⟨hef.1, hslot hef.2 fun x hx y hy => ?_⟩
  exact hRS x (List.mem_flatMap.mpr ⟨e, he, hx⟩) y (List.mem_flatMap.mpr ⟨f, hf, hy⟩)

lemma SameSlots.children {R : α → β → Prop} {xs : List (Role × Slot α)} {ys : List (Role × Slot β)}
    (h : SameSlots R xs ys) : List.Forall₂ R (xs.flatMap (·.2.children)) (ys.flatMap (·.2.children)) := by
  induction h with
  | nil => exact .nil
  | cons hxy _ ih => exact List.rel_append hxy.2.children ih

namespace Arena

variable {a b : Arena} {t : Tree} {id : NodeId}

/-! ### Trees in an arena -/

/-- The node stands for a tree. -/
def Bears (a : Arena) (t : Tree) : NodeId → Prop := t.fold fun node id =>
  ∃ c, a.cell? id = some c ∧ node.Rel (fun bears child => bears child) c.toNode

lemma bears_mk {node : Node Tree} : a.Bears (.mk node) id ↔ ∃ c, a.cell? id = some c ∧ node.Rel a.Bears c.toNode := by
  unfold Bears
  rw [Tree.fold_mk]
  refine exists_congr fun c => and_congr_right fun _ => ⟨fun h => ?_, fun h => ?_⟩
  · have hslots := h.slots
    rw [Tree.slots_foldPayload_eq, sameSlots_map_left] at hslots
    exact ⟨h.position_eq, h.leading_eq, h.trailing_eq, h.outline_eq.trans (Payload.outline_foldPayload ..), hslots⟩
  · refine ⟨h.position_eq, h.leading_eq, h.trailing_eq, h.outline_eq.trans (Payload.outline_foldPayload ..).symm, ?_⟩
    rw [Tree.slots_foldPayload_eq, sameSlots_map_left]
    exact h.slots

lemma Bears.lt_size (h : a.Bears t id) : id < a.size := by
  obtain ⟨node⟩ := t
  obtain ⟨c, hc, -⟩ := bears_mk.mp h
  exact lt_size_of_cell? hc

lemma Bears.kind?_eq (h : a.Bears t id) : a.kind? id = some t.kind := by
  obtain ⟨node⟩ := t
  obtain ⟨c, hc, hnode⟩ := bears_mk.mp h
  rw [kind?, hc, Option.map_some, Cell.kind, hnode.kind_eq]
  rfl

/-- A tree that is in an arena is still there when more has come. -/
lemma Bears.keep (h : a.Bears t id) (hab : a.Keeps b) : b.Bears t id := by
  induction t using Tree.induction generalizing id with
  | h node ih =>
  obtain ⟨c, hc, hnode⟩ := bears_mk.mp h
  obtain ⟨d, hd, heq⟩ := hab id c hc
  refine bears_mk.mpr ⟨d, hd, ?_⟩
  rw [heq]
  exact ⟨hnode.position_eq, hnode.leading_eq, hnode.trailing_eq, hnode.outline_eq,
    hnode.slots.imp_mem fun t ht id _ h => ih t ht h⟩

lemma push_modify {c : Cell} {f : Cell → Cell} (h : id < a.size) :
    (a.push c).modify id f = (a.modify id f).push c := by
  have hcells : (a.cells.push c).modify id f = (a.cells.modify id f).push c := by
    refine Array.ext_getElem? fun i => ?_
    rw [Array.getElem?_modify, Array.getElem?_push, Array.getElem?_push, Array.size_modify, Array.getElem?_modify]
    by_cases hi : id = i
    · have hne : i ≠ a.cells.size := hi ▸ Nat.ne_of_lt h
      simp [hi, hne]
    · simp [hi]
  exact congrArg (Arena.mk · a.root) hcells

lemma push_modify_last {c : Cell} {f : Cell → Cell} (h : id = a.size) : (a.push c).modify id f = a.push (f c) := by
  subst h
  have hcells : (a.cells.push c).modify a.cells.size f = a.cells.push (f c) := by
    refine Array.ext_getElem? fun i => ?_
    rw [Array.getElem?_modify, Array.getElem?_push, Array.getElem?_push]
    by_cases hi : a.cells.size = i
    · simp [hi]
    · simp [hi, Ne.symm hi]
  exact congrArg (Arena.mk · a.root) hcells

lemma push_adoptAll {c : Cell} {p : NodeId} {cs : List NodeId} (h : ∀ x ∈ cs, x < a.size) :
    adoptAll p (a.push c) cs = (adoptAll p a cs).push c := by
  induction cs generalizing a with
  | nil => rfl
  | cons x cs ih =>
    rw [adoptAll, List.foldl_cons, push_modify (h x List.mem_cons_self), ← adoptAll, ih, adoptAll, adoptAll,
      List.foldl_cons]
    exact fun y hy => (size_modify a x _).symm ▸ h y (List.mem_cons_of_mem x hy)

end Arena

namespace Edit

open Arena

variable {a : Arena} {failed : Arena → Prop}

/-- Children without a parent are adopted one after the other. -/
lemma adoptChildren_free {p : NodeId} (hp : p < a.size) (hexists : ∀ c ∈ a.childIds p, c < a.size)
    (hfree : ∀ c ∈ a.childIds p, a.parentOf c = none) (hnodup : (a.childIds p).Nodup) :
    (adoptChildren p).Ensures a (fun _ b => b = adoptAll p a (a.childIds p)) failed := by
  refine ensures_bind (ensures_askChildren hp ?_)
  refine ensures_bind ((ensures_forIn (fun rest b => ∃ done, done ++ rest = a.childIds p ∧ b = adoptAll p a done)
    (fun c rest b ⟨done, hdone, hb⟩ => ?_) ⟨[], rfl, rfl⟩).mono ?_ fun _ => id)
  · have hmem : c ∈ a.childIds p := hdone ▸ List.mem_append_right _ List.mem_cons_self
    have hbefore (d : NodeId) (hd : d ∈ done) : d < a.size := hexists d (hdone ▸ List.mem_append_left _ hd)
    have hnew : c ∉ done := fun hc =>
      (List.nodup_append.mp (hdone ▸ hnodup)).2.2 c hc c List.mem_cons_self rfl
    have hparent : b.parentOf c = none := by
      rw [hb, adoptAll_parentOf p a done hbefore, if_neg hnew, hfree c hmem]
    refine ensures_bind (ensures_askParent (by rw [hb, adoptAll_size]; exact hexists c hmem) ?_)
    rw [hparent, if_neg (by simp)]
    refine ensures_bind (ensures_change (ensures_pure ⟨rfl, done ++ [c], by simpa using hdone, ?_⟩))
    rw [hb, adoptAll, adoptAll, List.foldl_append, List.foldl_cons, List.foldl_nil]
  · rintro _ b ⟨done, hdone, rfl⟩
    rw [List.append_nil] at hdone
    exact ensures_pure (hdone ▸ rfl)

/-- A node is added around nodes that have no parent. -/
lemma add_free {payload : Payload NodeId} (position : Position) (hexists : ∀ c ∈ payload.children, c < a.size)
    (hfree : ∀ c ∈ payload.children, a.parentOf c = none) (hnodup : payload.children.Nodup) :
    (add payload position).Ensures a (fun id b => id = a.size ∧
      b = (adoptAll a.size a payload.children).push { payload, position }) failed := by
  have hkids : (a.push { payload, position }).childIds a.size = payload.children := by
    rw [childIds_update (payload?_push a _), update_self]
  have hparent : (a.push { payload, position }).parentOf = a.parentOf := parentOf_push a rfl
  refine ensures_bind (ensures_get (ensures_bind (ensures_change (ensures_bind ?_))))
  refine (adoptChildren_free (by simp) ?_ ?_ (hkids.symm ▸ hnodup)).mono (fun _ b hb => ensures_pure ⟨rfl, ?_⟩) fun _ => id
  · intro c hc
    rw [size_push]
    exact Nat.lt_succ_of_lt (hexists c (hkids ▸ hc))
  · intro c hc
    rw [hparent]
    exact hfree c (hkids ▸ hc)
  · rw [hb, hkids, push_adoptAll hexists]

lemma plantPayload_planted (p : Payload Tree) (h : Firm a.parentOf a.childIds) :
    Planted a ((plantPayload p).run a).1.children ((plantPayload p).run a).2 := by
  have hvisit := visitSlots_planted (fun _ c hc a => plantChild_planted (c := c) hc)
    (fun _ cs hcs a => mapM_plantChild_planted hcs) (Tree.foldPayload plantNode p).slots (fun act hact => ?_) a h
  · rw [← Payload.slots_traverse] at hvisit
    exact hvisit
  · have hact : act ∈ (Tree.foldPayload plantNode p).children := hact
    rw [Tree.children_foldPayload] at hact
    obtain ⟨t, -, rfl⟩ := List.mem_map.mp hact
    exact plant_plants t

/-- Planting a tree adds its root by an edit, when the children are in the arena, and puts its comments on it. -/
theorem add_plants (node : Node Tree) (h : Firm a.parentOf a.childIds) :
    (do
      let id ← add ((plantPayload node.payload).run a).1 node.position
      change (·.modify id fun c => { c with leading := node.leading, trailing := node.trailing })
      return id : Edit NodeId).Ensures ((plantPayload node.payload).run a).2
        (fun id b => (id, b) = (plant (.mk node)).run a) failed := by
  have hplanted := plantPayload_planted node.payload h
  have hfresh (c : NodeId) (hc : c ∈ ((plantPayload node.payload).run a).1.children) := hplanted.fresh c hc
  refine ensures_bind ((add_free node.position (fun c hc => (hfresh c hc).2.1) (fun c hc => (hfresh c hc).2.2)
    hplanted.nodup).mono ?_ fun _ => id)
  rintro _ b ⟨rfl, rfl⟩
  refine ensures_bind (ensures_change (ensures_pure ?_))
  rw [run_plant_mk, push_modify_last (adoptAll_size ..).symm]

end Edit

namespace Arena

variable {a b : Arena} {t t' : Tree} {id : NodeId} {kept more : List (Tree × NodeId)}

/-- Nodes that stand for trees, are held by no slot and differ from each other. The strings in the trees are spelled as
what they denote. -/
structure Stock (a : Arena) (held : List (Tree × NodeId)) : Prop where
  firm : Firm a.parentOf a.childIds
  nodup : (held.map Prod.snd).Nodup
  free : ∀ x ∈ held, a.parentOf x.2 = none
  bears : ∀ x ∈ held, a.Bears x.1 x.2
  spelled : ∀ x ∈ held, x.1.Spelled

lemma Stock.left (h : Stock a (kept ++ more)) : Stock a kept where
  firm := h.firm
  nodup := (List.nodup_append.mp (List.map_append ▸ h.nodup)).1
  free x hx := h.free x (List.mem_append_left more hx)
  bears x hx := h.bears x (List.mem_append_left more hx)
  spelled x hx := h.spelled x (List.mem_append_left more hx)

lemma Stock.planted (h : Stock a (kept ++ more)) : Planted {} (more.map Prod.snd) a where
  firm := h.firm
  size_le := Nat.zero_le _
  fresh id hid := by
    obtain ⟨x, hx, rfl⟩ := List.mem_map.mp hid
    have hx := List.mem_append_right kept hx
    exact ⟨Nat.zero_le _, (h.bears x hx).lt_size, h.free x hx⟩
  nodup := (List.nodup_append.mp (List.map_append ▸ h.nodup)).2.1
  parentOf_eq c hc := absurd hc (Nat.not_lt_zero c)

/-- A new node comes into the stock in place of its children. -/
lemma Stock.grow {P : Payload (Tree × NodeId)} (h : Stock a (kept ++ P.children)) (hP : P.IsSpelled)
    (position : Position) : Stock ((adoptAll a.size a (P.map Prod.snd).children).push { payload := P.map Prod.snd, position })
      (kept ++ [(.of (P.map Prod.fst) position, a.size)]) := by
  have hplanted : Planted {} (P.map Prod.snd).children a := Payload.children_map Prod.snd P ▸ h.planted
  have hgrown := hplanted.grow { payload := P.map Prod.snd, position } rfl
  have hkeeps : a.Keeps ((adoptAll a.size a (P.map Prod.snd).children).push { payload := P.map Prod.snd, position }) :=
    (grow_keeps _).1
  have hlt (x : Tree × NodeId) (hx : x ∈ kept) : x.2 < a.size := (h.left.bears x hx).lt_size
  refine ⟨hgrown.firm, ?_, fun x hx => ?_, fun x hx => ?_, fun x hx => ?_⟩
  · rw [List.map_append, List.map_singleton, List.nodup_append']
    refine ⟨h.left.nodup, List.nodup_singleton _, fun id hid hnew => ?_⟩
    obtain ⟨x, hx, rfl⟩ := List.mem_map.mp hid
    exact Nat.lt_irrefl _ (List.mem_singleton.mp hnew ▸ hlt x hx)
  · rcases List.mem_append.mp hx with hx | hx
    · have hnot : x.2 ∉ (P.map Prod.snd).children := fun hmem => by
        rw [Payload.children_map] at hmem
        exact (List.nodup_append'.mp (List.map_append ▸ h.nodup)).2.2 (List.mem_map_of_mem hx) hmem
      rw [parentOf_push _ rfl, adoptAll_parentOf _ _ _ fun c hc => (hplanted.fresh c hc).2.1, if_neg hnot, h.left.free x hx]
    · obtain rfl := List.mem_singleton.mp hx
      exact (hgrown.fresh a.size List.mem_cons_self).2.2
  · rcases List.mem_append.mp hx with hx | hx
    · exact (h.left.bears x hx).keep hkeeps
    · obtain rfl := List.mem_singleton.mp hx
      refine bears_mk.mpr ⟨{ payload := P.map Prod.snd, position }, ?_, rfl, rfl, rfl, ?_, ?_⟩
      · exact (grow_keeps _).2
      · rw [Payload.outline_map, Payload.outline_map]
      · exact Payload.sameSlots_map fun y hy => (h.bears y (List.mem_append_right kept hy)).keep hkeeps
  · rcases List.mem_append.mp hx with hx | hx
    · exact h.left.spelled x hx
    · obtain rfl := List.mem_singleton.mp hx
      refine .mk _ ((Payload.isSpelled_map Prod.fst P).mpr hP) fun t ht => ?_
      obtain ⟨y, hy, rfl⟩ := List.mem_map.mp (Payload.children_map Prod.fst P ▸ ht)
      exact h.spelled y (List.mem_append_right kept hy)

lemma mem_childIds {x y : NodeId} {c : Cell} (hc : a.cell? x = some c) (hy : y ∈ c.payload.children) :
    y ∈ a.childIds x := by
  have hpayload : a.payload? x = some c.payload := by rw [payload?, hc, Option.map_some]
  rwa [childIds_eq hpayload]

/-- The edit that adds a node. -/
lemma Stock.add {P : Payload (Tree × NodeId)} (h : Stock a (kept ++ P.children)) (hP : P.IsSpelled)
    (position : Position) {failed : Arena → Prop} : (Edit.add (P.map Prod.snd) position).Ensures a
      (fun id b => Stock b (kept ++ [(.of (P.map Prod.fst) position, id)])) failed := by
  have hplanted : Planted {} (P.map Prod.snd).children a := Payload.children_map Prod.snd P ▸ h.planted
  refine (Edit.add_free position (fun c hc => (hplanted.fresh c hc).2.1) (fun c hc => (hplanted.fresh c hc).2.2)
    hplanted.nodup).mono ?_ fun _ => id
  rintro _ _ ⟨rfl, rfl⟩
  exact h.grow hP position

/-- A node that nothing holds has no part in what the others stand for. -/
lemma Bears.modify {f : Cell → Cell} {x : NodeId} (h : a.Bears t x) (hfirm : Firm a.parentOf a.childIds)
    (hfree : a.parentOf id = none) (hne : x ≠ id) : (a.modify id f).Bears t x := by
  induction t using Tree.induction generalizing x with
  | h node ih =>
  obtain ⟨c, hc, hnode⟩ := bears_mk.mp h
  refine bears_mk.mpr ⟨c, by rw [cell?_modify, if_neg hne.symm, hc], hnode.position_eq, hnode.leading_eq,
    hnode.trailing_eq, hnode.outline_eq, hnode.slots.imp_mem fun t ht y hy h => ih t ht h ?_⟩
  rintro rfl
  cases hfree.symm.trans (hfirm.mem_iff.mp (mem_childIds hc hy))

/-- Comments are put on the last node of the stock. -/
lemma Stock.comment {f : Cell → Cell} (h : Stock a (kept ++ [(t, id)])) (hpayload : ∀ c, (f c).payload = c.payload)
    (hparent : ∀ c, (f c).parent = c.parent) (hspelled : t.Spelled → t'.Spelled)
    (hnode : ∀ c R, t.node.Rel R c.toNode → t'.node.Rel R (f c).toNode) :
    Stock (a.modify id f) (kept ++ [(t', id)]) := by
  have hparentOf : (a.modify id f).parentOf = a.parentOf := by
    funext x
    by_cases hx : id = x <;> simp [parentOf, hx, Function.comp_def, hparent, Option.bind_map]
  have hpayload? : (a.modify id f).payload? = a.payload? := by
    funext x
    by_cases hx : id = x <;> simp [payload?, hx, Function.comp_def, hpayload]
  have hfree : a.parentOf id = none := h.free (t, id) (by simp)
  have hids : (kept ++ [(t', id)]).map Prod.snd = (kept ++ [(t, id)]).map Prod.snd := by simp
  refine ⟨?_, hids ▸ h.nodup, fun x hx => ?_, fun x hx => ?_, fun x hx => ?_⟩
  · rw [hparentOf, childIds_congr hpayload?]
    exact h.firm
  · rw [hparentOf]
    rcases List.mem_append.mp hx with hx | hx
    · exact h.left.free x hx
    · obtain rfl := List.mem_singleton.mp hx
      exact hfree
  · rcases List.mem_append.mp hx with hx | hx
    · refine (h.left.bears x hx).modify h.firm hfree fun heq => ?_
      have hnodup := h.nodup
      rw [List.map_append, List.map_singleton, List.nodup_append'] at hnodup
      exact hnodup.2.2 (List.mem_map_of_mem hx) (heq ▸ List.mem_singleton_self _)
    · obtain rfl := List.mem_singleton.mp hx
      have hbears := h.bears (t, id) (by simp)
      obtain ⟨node⟩ := t
      obtain ⟨node'⟩ := t'
      obtain ⟨c, hc, hrel⟩ := bears_mk.mp hbears
      refine bears_mk.mpr ⟨f c, by rw [cell?_modify, if_pos rfl, hc, Option.map_some], hnode c _ ⟨hrel.position_eq,
        hrel.leading_eq, hrel.trailing_eq, hrel.outline_eq, hrel.slots.imp_mem fun s _ y hy hs => ?_⟩⟩
      refine hs.modify h.firm hfree ?_
      rintro rfl
      cases hfree.symm.trans (h.firm.mem_iff.mp (mem_childIds hc hy))
  · rcases List.mem_append.mp hx with hx | hx
    · exact h.left.spelled x hx
    · obtain rfl := List.mem_singleton.mp hx
      exact hspelled (h.spelled (t, id) (by simp))

end Arena

end PlainScript
