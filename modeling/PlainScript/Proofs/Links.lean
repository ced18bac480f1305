import PlainScript.Arena.Edit
import PlainScript.Proofs.Places
import Mathlib.Logic.Relation
import Mathlib.Logic.Function.Basic
import Mathlib.Data.List.Nodup
import Mathlib.Tactic.Tauto
import Mathlib.Tactic.SplitIfs

/-! Links between parents and children, seen from both sides. The nodes of an arena are linked when
every node that stands in a slot has the node of that slot as its parent, and the other way round. -/
namespace PlainScript.Arena

open Relation Function

def parentOf (a : Arena) (id : NodeId) : Option NodeId := (a.cell? id).bind (·.parent)

/-- The nodes in the slots of the whole arena, one entry for each slot position that is filled. -/
def slotIds (a : Arena) : List NodeId := a.cells.toList.flatMap (·.payload.children)

/-- The first node has the second one as its parent. -/
def HasParent (a : Arena) (c p : NodeId) : Prop := a.parentOf c = some p

/-- Slots and parents agree, no node stands in two places, and no way up comes back. -/
structure Linked (a : Arena) : Prop where
  child_exists : ∀ c ∈ a.slotIds, c < a.size
  slots_nodup : a.slotIds.Nodup
  parent_iff : ∀ c < a.size, ∀ p, a.parentOf c = some p ↔ c ∈ a.childIds p
  acyclic : ∀ c, ¬ TransGen a.HasParent c c

/-! ### Single cells -/

lemma cell?_eq_none {a : Arena} {id : NodeId} (h : a.size ≤ id) : a.cell? id = none :=
  Array.getElem?_eq_none h

lemma exists_cell {a : Arena} {id : NodeId} (h : id < a.size) : ∃ c, a.cell? id = some c :=
  ⟨_, Array.getElem?_eq_getElem h⟩

lemma lt_size_of_cell? {a : Arena} {id : NodeId} {c : Cell} (h : a.cell? id = some c) : id < a.size := by
  by_contra hid
  simp [cell?_eq_none (Nat.not_lt.mp hid)] at h

lemma lt_size_of_payload? {a : Arena} {id : NodeId} {p : Payload NodeId} (h : a.payload? id = some p) :
    id < a.size := by
  obtain ⟨_, hc, -⟩ := Option.map_eq_some_iff.mp h
  exact lt_size_of_cell? hc

lemma lt_size_of_kind? {a : Arena} {id : NodeId} {k : Kind} (h : a.kind? id = some k) : id < a.size := by
  obtain ⟨_, hc, -⟩ := Option.map_eq_some_iff.mp h
  exact lt_size_of_cell? hc

lemma exists_kind {a : Arena} {id : NodeId} (h : id < a.size) : ∃ k, a.kind? id = some k := by
  obtain ⟨c, hc⟩ := exists_cell h
  exact ⟨c.kind, by simp [kind?, hc]⟩

lemma parent_eq_ok {a : Arena} {id : NodeId} (h : id < a.size) : a.parent id = .ok (a.parentOf id) := by
  obtain ⟨c, hc⟩ := exists_cell h
  simp [parent, cell, parentOf, hc, Except.map]

lemma children_eq_ok {a : Arena} {id : NodeId} (h : id < a.size) : a.children id = .ok (a.childIds id) := by
  obtain ⟨c, hc⟩ := exists_cell h
  simp [children, cell, childIds, payload?, hc, Except.map]

lemma lt_size_of_parentOf {a : Arena} {c p : NodeId} (h : a.parentOf c = some p) : c < a.size := by
  obtain ⟨_, hc, -⟩ := Option.bind_eq_some_iff.mp h
  exact lt_size_of_cell? hc

lemma lt_size_of_mem_childIds {a : Arena} {c p : NodeId} (h : c ∈ a.childIds p) : p < a.size := by
  by_contra hp
  simp [childIds, payload?, cell?_eq_none (Nat.not_lt.mp hp)] at h

lemma parentOf_of_size_le {a : Arena} {c : NodeId} (h : a.size ≤ c) : a.parentOf c = none := by
  simp [parentOf, cell?_eq_none h]

lemma childIds_of_size_le {a : Arena} {p : NodeId} (h : a.size ≤ p) : a.childIds p = [] := by
  simp [childIds, payload?, cell?_eq_none h]

lemma childIds_eq {a : Arena} {p : NodeId} {payload : Payload NodeId}
    (h : a.payload? p = some payload) : a.childIds p = payload.children := by
  simp [childIds, h]

@[simp] lemma cell?_modify (a : Arena) (id : NodeId) (f : Cell → Cell) (x : NodeId) :
    (a.modify id f).cell? x = if id = x then (a.cell? x).map f else a.cell? x :=
  Array.getElem?_modify

@[simp] lemma cell?_push (a : Arena) (c : Cell) (x : NodeId) :
    (a.push c).cell? x = if x = a.size then some c else a.cell? x :=
  Array.getElem?_push

lemma parentOf_setParent {a : Arena} {id : NodeId} (h : id < a.size) (p : Option NodeId) :
    (a.modify id fun c => { c with parent := p }).parentOf = update a.parentOf id p := by
  funext x
  obtain ⟨c, hc⟩ := exists_cell h
  by_cases hx : x = id
  · subst hx; simp [parentOf, hc]
  · simp [parentOf, hx, Ne.symm hx]

lemma payload?_setParent (a : Arena) (id : NodeId) (p : Option NodeId) :
    (a.modify id fun c => { c with parent := p }).payload? = a.payload? := by
  funext x
  by_cases hx : id = x <;> simp [payload?, hx, Function.comp_def]

lemma parentOf_modifyPayload (a : Arena) (id : NodeId) (f : Payload NodeId → Payload NodeId) :
    (a.modify id fun c => { c with payload := f c.payload }).parentOf = a.parentOf := by
  funext x
  by_cases hx : id = x
  · cases hcell : a.cell? x <;> simp [parentOf, hx, hcell]
  · simp [parentOf, hx]

lemma payload?_modifyPayload {a : Arena} {id : NodeId} {payload : Payload NodeId}
    (h : a.payload? id = some payload) (f : Payload NodeId → Payload NodeId) :
    (a.modify id fun c => { c with payload := f c.payload }).payload? =
      update a.payload? id (some (f payload)) := by
  funext x
  obtain ⟨c, hc, rfl⟩ := Option.map_eq_some_iff.mp h
  by_cases hx : x = id
  · subst hx; simp [payload?, hc]
  · simp [payload?, hx, Ne.symm hx]

lemma parentOf_push (a : Arena) {c : Cell} (h : c.parent = none) : (a.push c).parentOf = a.parentOf := by
  funext x
  by_cases hx : x = a.size
  · subst hx; simp [parentOf, cell?_eq_none, h]
  · simp [parentOf, hx]

lemma payload?_push (a : Arena) (c : Cell) :
    (a.push c).payload? = update a.payload? a.size (some c.payload) := by
  funext x
  by_cases hx : x = a.size
  · subst hx; simp [payload?]
  · simp [payload?, hx]

lemma childIds_congr {a b : Arena} (h : b.payload? = a.payload?) : b.childIds = a.childIds := by
  funext q
  simp only [childIds, h]

lemma childIds_update {a b : Arena} {p : NodeId} {payload : Payload NodeId}
    (h : b.payload? = update a.payload? p (some payload)) :
    b.childIds = update a.childIds p payload.children := by
  funext q
  by_cases hq : q = p
  · subst hq; simp [childIds, h]
  · simp [childIds, h, hq]

/-! ### Ties between two functions -/

/-- The parents and the slots of an arena in step, but for slots that are `loose`, whose child may
have another parent, and parents that are `stale`, which no longer hold the child. -/
structure Tied (loose stale : NodeId → NodeId → Prop) (parent : NodeId → Option NodeId)
    (kids : NodeId → List NodeId) : Prop where
  nodup : ∀ p, (kids p).Nodup
  parent_eq : ∀ p c, c ∈ kids p → parent c = some p ∨ loose p c
  mem_kids : ∀ p c, parent c = some p → c ∈ kids p ∨ stale p c
  acyclic : ∀ c, ¬ TransGen (parent · = some ·) c c

/-- Nothing is loose or stale. -/
abbrev Firm (parent : NodeId → Option NodeId) (kids : NodeId → List NodeId) : Prop :=
  Tied (fun _ _ => False) (fun _ _ => False) parent kids

lemma Firm.mem_iff {parent : NodeId → Option NodeId} {kids : NodeId → List NodeId}
    (h : Firm parent kids) {p c : NodeId} : c ∈ kids p ↔ parent c = some p :=
  ⟨fun hc => (h.parent_eq p c hc).resolve_right id, fun hc => (h.mem_kids p c hc).resolve_right id⟩

lemma Firm.parent_lt {a : Arena} (h : Firm a.parentOf a.childIds) {c p : NodeId} (hp : a.parentOf c = some p) :
    p < a.size := lt_size_of_mem_childIds (h.mem_iff.mpr hp)

lemma Firm.child_lt {a : Arena} (h : Firm a.parentOf a.childIds) {c p : NodeId} (hc : c ∈ a.childIds p) :
    c < a.size := lt_size_of_parentOf (h.mem_iff.mp hc)

section Ways

variable {parent parent' : NodeId → Option NodeId} {p : NodeId} {new : List NodeId}

/-- A way up after some nodes were hung below `p` is an old one or goes through `p`. -/
lemma way_of_hung (hnew : ∀ x y, parent' x = some y → parent x = some y ∨ x ∈ new ∧ y = p)
    {x y : NodeId} (h : TransGen (parent' · = some ·) x y) :
    TransGen (parent · = some ·) x y ∨
      (∃ c ∈ new, ReflTransGen (parent · = some ·) x c) ∧
        ReflTransGen (parent · = some ·) p y := by
  induction h with
  | single h =>
    rcases hnew _ _ h with h | ⟨hx, rfl⟩
    · exact .inl (.single h)
    · exact .inr ⟨⟨_, hx, .refl⟩, .refl⟩
  | tail _ h ih =>
    rcases hnew _ _ h with h | ⟨hx, rfl⟩
    · exact ih.imp (·.tail h) fun ⟨hc, hp⟩ => ⟨hc, hp.tail h⟩
    · exact .inr ⟨ih.elim (fun w => ⟨_, hx, w.to_reflTransGen⟩) And.left, .refl⟩

lemma acyclic_of_hung (new : List NodeId) (p : NodeId)
    (hnew : ∀ x y, parent' x = some y → parent x = some y ∨ x ∈ new ∧ y = p)
    (habove : ∀ c ∈ new, ¬ ReflTransGen (parent · = some ·) p c)
    (h : ∀ c, ¬ TransGen (parent · = some ·) c c) (c : NodeId) :
    ¬ TransGen (parent' · = some ·) c c := by
  intro hc
  rcases way_of_hung hnew hc with hw | ⟨⟨d, hd, hcd⟩, hpc⟩
  · exact h c hw
  · exact habove d hd (hpc.trans hcd)

/-- What was not above `p` is not above it after some nodes were hung below it. -/
lemma not_above_of_hung (hnew : ∀ x y, parent' x = some y → parent x = some y ∨ x ∈ new ∧ y = p)
    (habove : ∀ c ∈ new, ¬ ReflTransGen (parent · = some ·) p c) {d : NodeId}
    (h : ¬ ReflTransGen (parent · = some ·) p d) : ¬ ReflTransGen (parent' · = some ·) p d := by
  intro hd
  rcases reflTransGen_iff_eq_or_transGen.mp hd with rfl | hd
  · exact h .refl
  rcases way_of_hung hnew hd with hw | ⟨⟨c, hc, hpc⟩, -⟩
  · exact h hw.to_reflTransGen
  · exact habove c hc hpc

lemma way_mono (hsub : ∀ x y, parent' x = some y → parent x = some y) {x y : NodeId}
    (h : ReflTransGen (parent' · = some ·) x y) : ReflTransGen (parent · = some ·) x y :=
  ReflTransGen.mono hsub x y h

end Ways

section Ties

variable {loose stale : NodeId → NodeId → Prop} {parent : NodeId → Option NodeId}
  {kids : NodeId → List NodeId}

/-- A node leaves its slot and loses its parent. -/
lemma Tied.unlink (h : Tied loose stale parent kids) (c : NodeId) :
    Tied loose stale (update parent c none)
      (fun p => if parent c = some p then (kids p).erase c else kids p) where
  nodup p := by
    split
    · exact (h.nodup p).erase c
    · exact h.nodup p
  parent_eq p x hx := by
    have hxp : x ∈ kids p := by
      split at hx
      · exact List.mem_of_mem_erase hx
      · exact hx
    apply (h.parent_eq p x hxp).imp_left
    intro hp
    have hxc : x ≠ c := by
      rintro rfl
      rw [if_pos hp] at hx
      exact (h.nodup p).not_mem_erase hx
    rw [update_of_ne hxc, hp]
  mem_kids p x hx := by
    have hxc : x ≠ c := by rintro rfl; simp at hx
    rw [update_of_ne hxc] at hx
    apply (h.mem_kids p x hx).imp_left
    intro hp
    split
    · exact (List.mem_erase_of_ne hxc).mpr hp
    · exact hp
  acyclic := by
    refine acyclic_of_hung [] 0 (fun x y hx => .inl ?_) (by simp) h.acyclic
    have hxc : x ≠ c := by rintro rfl; simp at hx
    rwa [update_of_ne hxc] at hx

/-- A node that is loose in a slot of `p` and has no parent becomes a child of `p`. -/
lemma Tied.adopt {p c : NodeId} {rest : List NodeId}
    (h : Tied (fun q x => q = p ∧ x ∈ c :: rest) (fun _ _ => False) parent kids)
    (hc : c ∈ kids p) (hfree : ∀ q, parent c = some q → q = p)
    (habove : ¬ ReflTransGen (parent · = some ·) p c) :
    Tied (fun q x => q = p ∧ x ∈ rest) (fun _ _ => False) (update parent c (some p)) kids where
  nodup := h.nodup
  parent_eq q x hx := by
    by_cases hxc : x = c
    · subst hxc
      have hq : q = p := (h.parent_eq q x hx).elim (hfree q) And.left
      simp [hq]
    · rw [update_of_ne hxc]
      exact (h.parent_eq q x hx).imp_right fun ⟨hq, hm⟩ => ⟨hq, List.mem_of_ne_of_mem hxc hm⟩
  mem_kids q x hx := by
    by_cases hxc : x = c
    · subst hxc
      rw [update_self] at hx
      exact .inl (Option.some.inj hx ▸ hc)
    · rw [update_of_ne hxc] at hx
      exact h.mem_kids q x hx
  acyclic := by
    refine acyclic_of_hung [c] p (fun x y hx => ?_) (by simpa using habove) h.acyclic
    by_cases hxc : x = c
    · subst hxc
      rw [update_self] at hx
      exact .inr ⟨by simp, (Option.some.inj hx).symm⟩
    · exact .inl (by rwa [update_of_ne hxc] at hx)

/-- In the slots of `p`, some nodes leave and others, which have no parent, come. -/
lemma Firm.exchange (h : Firm parent kids) {p : NodeId} (before out new after : List NodeId)
    (hp : kids p = before ++ out ++ after) (hnodup : new.Nodup)
    (hfree : ∀ c ∈ new, parent c = none)
    (habove : ∀ c ∈ new, ¬ ReflTransGen (parent · = some ·) p c) :
    Firm (fun c => if c ∈ new then some p else if c ∈ out then none else parent c)
      (update kids p (before ++ new ++ after)) := by
  have hn : (before ++ out ++ after).Nodup := hp ▸ h.nodup p
  have hold : ∀ c, c ∈ before ++ out ++ after ↔ parent c = some p := fun c => hp ▸ h.mem_iff
  have hfresh : ∀ c ∈ new, c ∉ before ++ out ++ after := fun c hc hm => by
    simpa [hfree c hc] using (hold c).mp hm
  have hout : ∀ c ∈ out, c ∉ before ∧ c ∉ after := by
    intro c hc
    rw [List.append_assoc, List.nodup_append', List.nodup_append'] at hn
    exact ⟨fun hb => hn.2.2 hb (by simp [hc]), fun ha => hn.2.1.2.2 hc ha⟩
  have key : ∀ q c, c ∈ update kids p (before ++ new ++ after) q ↔
      (if c ∈ new then some p else if c ∈ out then none else parent c) = some q := by
    intro q c
    by_cases hq : q = p
    · subst hq
      rw [update_self]
      split_ifs with hc ho
      · simp [hc]
      · simp [hc, hout c ho]
      · simp [hc, ← hold, ho]
    · rw [update_of_ne hq, h.mem_iff]
      split_ifs with hc ho
      · simp [hfree c hc, Ne.symm hq]
      · simp [(hold c).mp (by simp [ho]), Ne.symm hq]
      · rfl
  refine ⟨fun q => ?_, fun q c hc => .inl ((key q c).mp hc), fun q c hc => .inl ((key q c).mpr hc),
    acyclic_of_hung new p (fun x y hx => ?_) habove h.acyclic⟩
  · by_cases hq : q = p
    · subst hq
      rw [update_self, List.append_assoc]
      have hrest : (before ++ after).Nodup :=
        hn.sublist (by simp)
      refine (List.perm_append_comm_assoc new before after).nodup_iff.mp
        (List.nodup_append'.mpr ⟨hnodup, hrest, fun c hc hm => hfresh c hc ?_⟩)
      simp only [List.mem_append] at hm ⊢
      tauto
    · rw [update_of_ne hq]
      exact h.nodup q
  · split_ifs at hx with hc ho
    · exact .inr ⟨hc, (Option.some.inj hx).symm⟩
    · exact .inl hx

end Ties

end PlainScript.Arena
