import PlainScript.Proofs.Links
import PlainScript.Proofs.TreeInduction

/-! Putting a tree into an arena. The nodes of the tree get new numbers, children before parents, and
the links of the arena stay in step. -/
namespace PlainScript.Arena

open Relation Function

/-- From `a` to `b`, the nodes `ids` are new and have no parent. -/
structure Planted (a : Arena) (ids : List NodeId) (b : Arena) : Prop where
  firm : Firm b.parentOf b.childIds
  size_le : a.size ≤ b.size
  fresh : ∀ id ∈ ids, a.size ≤ id ∧ id < b.size ∧ b.parentOf id = none
  nodup : ids.Nodup
  parentOf_eq : ∀ c < a.size, b.parentOf c = a.parentOf c

namespace Planted

variable {a b c : Arena} {xs ys : List NodeId}

lemma refl (h : Firm a.parentOf a.childIds) : Planted a [] a :=
  ⟨h, Nat.le_refl _, by simp, by simp, fun _ _ => rfl⟩

lemma append (hab : Planted a xs b) (hbc : Planted b ys c) : Planted a (xs ++ ys) c := by
  refine ⟨hbc.firm, Nat.le_trans hab.size_le hbc.size_le, fun id hid => ?_, ?_, fun d hd => ?_⟩
  · rcases List.mem_append.mp hid with hx | hy
    · obtain ⟨hle, hlt, hfree⟩ := hab.fresh id hx
      exact ⟨hle, Nat.lt_of_lt_of_le hlt hbc.size_le, (hbc.parentOf_eq id hlt).trans hfree⟩
    · obtain ⟨hle, hlt, hfree⟩ := hbc.fresh id hy
      exact ⟨Nat.le_trans hab.size_le hle, hlt, hfree⟩
  · refine List.nodup_append'.mpr ⟨hab.nodup, hbc.nodup, fun id hx hy => ?_⟩
    exact Nat.lt_irrefl _ (Nat.lt_of_lt_of_le (hab.fresh id hx).2.1 (hbc.fresh id hy).1)
  · rw [hbc.parentOf_eq d (Nat.lt_of_lt_of_le hd hab.size_le), hab.parentOf_eq d hd]

end Planted

/-- An action that puts a node into any arena whose links are in step. -/
def Plants (act : StateM Arena NodeId) : Prop :=
  ∀ a : Arena, Firm a.parentOf a.childIds → Planted a [(act.run a).1] (act.run a).2

section Slots

variable {one : Role → Option (StateM Arena NodeId) → StateM Arena (Option NodeId)}
  {many : Role → List (Option (StateM Arena NodeId)) → StateM Arena (List (Option NodeId))}

lemma visitSlots_planted
    (hone : ∀ role c, (∀ act ∈ c, Plants act) → ∀ a : Arena, Firm a.parentOf a.childIds →
      Planted a ((one role c).run a).1.toList ((one role c).run a).2)
    (hmany : ∀ role cs, (∀ act, some act ∈ cs → Plants act) → ∀ a : Arena,
      Firm a.parentOf a.childIds →
        Planted a (((many role cs).run a).1.filterMap id) ((many role cs).run a).2)
    (ss : List (Role × Slot (StateM Arena NodeId)))
    (h : ∀ act ∈ ss.flatMap (·.2.children), Plants act) (a : Arena)
    (ha : Firm a.parentOf a.childIds) :
    Planted a (((Payload.visitSlots one many ss).run a).1.flatMap (·.2.children))
      ((Payload.visitSlots one many ss).run a).2 := by
  induction ss generalizing a with
  | nil => exact .refl ha
  | cons entry rest ih =>
    have hrest := ih fun act hact => h act (by
      rw [List.flatMap_cons]
      exact List.mem_append_right _ hact)
    obtain ⟨role, c | cs⟩ := entry
    · have hc := hone role c (fun act hact => h act (by simp_all [Slot.children])) a ha
      exact hc.append (hrest _ hc.firm)
    · have hcs := hmany role cs (fun act hact => h act (by simp_all [Slot.children])) a ha
      exact hcs.append (hrest _ hcs.firm)

end Slots

/-- Children become those of a node that is yet to come. -/
def adoptAll (id : NodeId) (a : Arena) (cs : List NodeId) : Arena :=
  cs.foldl (fun a child => a.modify child fun c => { c with parent := some id }) a

lemma adoptAll_size (id : NodeId) (a : Arena) (cs : List NodeId) : (adoptAll id a cs).size = a.size := by
  induction cs generalizing a with
  | nil => rfl
  | cons child rest ih => exact (ih _).trans (size_modify ..)

lemma adoptAll_payload? (id : NodeId) (a : Arena) (cs : List NodeId) :
    (adoptAll id a cs).payload? = a.payload? := by
  induction cs generalizing a with
  | nil => rfl
  | cons child rest ih => exact (ih _).trans (payload?_setParent ..)

lemma adoptAll_parentOf (id : NodeId) (a : Arena) (cs : List NodeId) (h : ∀ c ∈ cs, c < a.size) (c : NodeId) :
    (adoptAll id a cs).parentOf c = if c ∈ cs then some id else a.parentOf c := by
  induction cs generalizing a with
  | nil => simp [adoptAll]
  | cons child rest ih =>
    have hrest := ih (a.modify child fun c => { c with parent := some id })
      (by simpa using fun c hc => h c (by simp [hc]))
    rw [show adoptAll id a (child :: rest) = adoptAll id _ rest from rfl, hrest,
      parentOf_setParent (h child (by simp))]
    by_cases hc : c = child
    · subst hc; simp
    · simp [hc]

/-- A new node around nodes without a parent. -/
lemma Planted.grow {a b : Arena} {payload : Payload NodeId} (h : Planted a payload.children b)
    (node : Node NodeId) (hnode : node.payload = payload) :
    Planted a [b.size] ((adoptAll b.size b payload.children).push { node with parent := none }) := by
  have hs := adoptAll_size b.size b payload.children
  have hk := adoptAll_payload? b.size b payload.children
  have hp := adoptAll_parentOf b.size b payload.children fun c hc => (h.fresh c hc).2.1
  generalize adoptAll b.size b payload.children = d at *
  have hparent : (d.push { node with parent := none }).parentOf = d.parentOf := parentOf_push d rfl
  have hpayload : (d.push { node with parent := none }).payload? =
      update b.payload? b.size (some payload) := by
    rw [payload?_push, hs, hk, hnode]
  have hroot : b.parentOf b.size = none := parentOf_of_size_le (Nat.le_refl _)
  have hfirm := h.firm.exchange (p := b.size) [] [] _ []
    (by simp [childIds_of_size_le]) h.nodup (fun c hc => (h.fresh c hc).2.2) (by
      intro c hc hup
      rcases hup.cases_head with rfl | ⟨e, he, -⟩
      · exact Nat.lt_irrefl _ (h.fresh _ hc).2.1
      · simp [hroot] at he)
  have hsize : (d.push { node with parent := none }).size = b.size + 1 := by simp [hs]
  have hnew : b.size ∉ payload.children := fun hm => Nat.lt_irrefl _ (h.fresh _ hm).2.1
  refine ⟨?_, ?_, fun id hid => ?_, by simp, fun c hc => ?_⟩
  · rw [hparent, childIds_update hpayload]
    convert hfirm using 2 with c
    · simp [hp c]
    · simp
  · rw [hsize]
    exact Nat.le_succ_of_le h.size_le
  · obtain rfl : id = b.size := by simpa using hid
    rw [hsize, hparent, hp, if_neg hnew]
    exact ⟨h.size_le, Nat.lt_succ_self _, hroot⟩
  · have hold : c ∉ payload.children := fun hm =>
      Nat.lt_irrefl _ (Nat.lt_of_lt_of_le hc (h.fresh c hm).1)
    rw [hparent, hp, if_neg hold, h.parentOf_eq c hc]

lemma plantChild_planted {c : Option (StateM Arena NodeId)} (h : ∀ act ∈ c, Plants act) {a : Arena}
    (ha : Firm a.parentOf a.childIds) :
    Planted a ((plantChild c).run a).1.toList ((plantChild c).run a).2 := by
  cases c with
  | none => exact .refl ha
  | some act => exact h act rfl a ha

lemma run_mapM_cons {α : Type} (f : α → StateM Arena (Option NodeId)) (x : α) (rest : List α) (a : Arena) :
    ((x :: rest).mapM f).run a = (((f x).run a).1 :: ((rest.mapM f).run ((f x).run a).2).1,
      ((rest.mapM f).run ((f x).run a).2).2) := by
  rw [List.mapM_cons]
  rfl

lemma mapM_plantChild_planted {cs : List (Option (StateM Arena NodeId))}
    (h : ∀ act, some act ∈ cs → Plants act) {a : Arena} (ha : Firm a.parentOf a.childIds) :
    Planted a (((cs.mapM plantChild).run a).1.filterMap id) ((cs.mapM plantChild).run a).2 := by
  induction cs generalizing a with
  | nil => exact .refl ha
  | cons c rest ih =>
    have hc := plantChild_planted (c := c) (fun act hact => h act (by simp_all)) ha
    have happ := hc.append (ih (fun act hact => h act (by simp [hact])) hc.firm)
    rw [run_mapM_cons]
    cases hr : ((plantChild c).run a).1 <;> simpa [hr] using happ

/-- Whatever puts the children of a node into an arena, puts the node into it. -/
lemma plantNode_plants {node : Node (StateM Arena NodeId)}
    (h : ∀ act ∈ node.payload.children, Plants act) : Plants (plantNode node) := by
  intro a ha
  have hvisit := visitSlots_planted (fun _ c hc a => plantChild_planted (c := c) hc)
    (fun _ cs hcs a => mapM_plantChild_planted hcs) node.payload.slots h a ha
  rw [← Payload.slots_traverse] at hvisit
  exact hvisit.grow _ rfl

theorem plant_plants (t : Tree) : Plants (plant t) := by
  induction t using Tree.induction with
  | h node ih =>
    rw [plant, Tree.fold_mk]
    apply plantNode_plants
    intro act hact
    rw [Tree.children_foldPayload] at hact
    obtain ⟨c, hc, rfl⟩ := List.mem_map.mp hact
    exact ih c hc

lemma empty_firm : Firm (parentOf {}) (childIds {}) :=
  ⟨fun _ => by simp [childIds, payload?, cell?], fun _ _ h => by simp [childIds, payload?, cell?] at h,
    fun _ _ h => by simp [parentOf, cell?] at h, fun c h => by
      obtain ⟨b, -, hb⟩ := TransGen.tail'_iff.mp h
      simp [parentOf, cell?] at hb⟩

theorem ofTree_firm (t : Tree) : Firm (ofTree t).parentOf (ofTree t).childIds :=
  (plant_plants t {} empty_firm).firm

end PlainScript.Arena
