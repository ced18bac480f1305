import PlainScript.Grammar.Script
import PlainScript.Proofs.EditRuns
import PlainScript.Proofs.Planting
import PlainScript.Proofs.Replacement

/-! Edits of a list. What moves first leaves the slots where it was, then it is put in the list in front of, behind or
instead of the node that is named. Nothing else in the arena changes but the comments that go with a replaced node. -/
namespace PlainScript

open Relation Function

namespace Payload

variable {α : Type} [DecidableEq α] {gone : List α} {p : Payload α} {y : α}

lemma slots_lacking_of_list {n : Nat} {role : Role} {before after : List (Option α)}
    (hslot : p.slots[n]? = some (role, .many (before ++ some y :: after))) (hy : y ∉ gone) :
    (p.lacking gone).slots[n]? =
      some (role, .many (Slot.leftMany gone before ++ some y :: Slot.leftMany gone after)) := by
  rw [slots_lacking, List.getElem?_map, hslot]
  simp [Slot.lacking, Slot.change, Slot.leftMany, hy]

/-- A child that stands in a list is found there. -/
lemma place?_of_list {n : Nat} {role : Role} {before after : List (Option α)} (hnodup : p.children.Nodup)
    (hslot : p.slots[n]? = some (role, .many (before ++ some y :: after))) :
    p.place? y = some ⟨n, role, some before.length⟩ := by
  have hmem : (role, Slot.many (before ++ some y :: after)) ∈ p.slots := List.mem_of_getElem? hslot
  have hy : y ∈ (Slot.many (before ++ some y :: after)).children := by simp
  obtain ⟨place, hplace⟩ := exists_place (List.mem_flatMap.mpr ⟨_, hmem, hy⟩)
  obtain ⟨pre, slot, post, hslots, hpre, hcase⟩ := placeIn_eq_some hplace
  rw [Nat.zero_add] at hpre
  obtain ⟨hone, hpairs⟩ := List.nodup_flatMap.mp hnodup
  obtain ⟨hn, hget⟩ := List.getElem?_eq_some_iff.mp hslot
  have hlt : pre.length < p.slots.length := by simp [hslots]
  have hfound : p.slots[pre.length] = (place.role, slot) := by simp [hslots]
  have hchild : y ∈ (p.slots[pre.length]).2.children := hfound ▸ mem_children_of_place hcase
  have hsame : n = pre.length := by
    have hapart := List.pairwise_iff_getElem.mp hpairs
    obtain hlow | heq | hhigh := Nat.lt_trichotomy n pre.length
    · exact absurd hchild (hapart n pre.length hn hlt hlow (hget ▸ hy))
    · exact heq
    · exact absurd (hget ▸ hy) (hapart pre.length n hlt hn hhigh hchild)
  subst hsame
  obtain ⟨hrole, rfl⟩ := Prod.mk.inj (hfound.symm.trans hget)
  obtain ⟨-, ⟨⟩⟩ | ⟨i, cs, hi, hcs, hindex⟩ := hcase
  obtain rfl := Slot.many.inj hcs
  have hbefore : some y ∉ before := by
    have hnodup := hone _ hmem
    simp only [Slot.children_many, List.filterMap_append, List.nodup_append'] at hnodup
    exact fun hb => hnodup.2.2 (List.mem_filterMap.mpr ⟨_, hb, rfl⟩) (by simp)
  have hfirst : (before ++ some y :: after).idxOf? (some y) = some before.length := by
    refine List.idxOf?_eq_some_iff.mpr ⟨by simp, by simp, fun j hj => ?_⟩
    rw [List.getElem_append_left hj]
    exact fun heq => hbefore (heq ▸ List.getElem_mem hj)
  rw [hplace, ← hpre, ← hrole, ← Option.some.inj (hindex.symm.trans hfirst), ← hi]

omit [DecidableEq α] in
/-- Only what stands in a slot matters to a change of the slot. -/
lemma modifySlot_congr {n : Nat} {role : Role} {cs ds : List (Option α)} {many : List (Option α) → List (Option α)}
    (hslot : p.slots[n]? = some (role, .many cs)) (h : many cs = ds) :
    p.modifySlot n id many = p.modifySlot n id fun _ => ds := by
  refine ext_slots (by rw [hollow_modifySlot, hollow_modifySlot]) ?_
  rw [slots_modifySlot, slots_modifySlot]
  refine List.ext_getElem? fun m => ?_
  rw [List.getElem?_modify, List.getElem?_modify]
  split
  next heq =>
    subst heq
    simp [hslot, Slot.change, h]
  next => rfl

omit [DecidableEq α] in
/-- Splicing in a list replaces what stands at an index. -/
lemma splice_of_list {n : Nat} {role : Role} {before after : List (Option α)}
    (hslot : p.slots[n]? = some (role, .many (before ++ some y :: after))) (rs : List α) :
    p.splice ⟨n, role, some before.length⟩ rs = p.modifySlot n id fun _ => before ++ rs.map some ++ after := by
  refine modifySlot_congr hslot ?_
  rw [List.take_left, ← List.drop_drop, List.drop_left, List.drop_one, List.tail_cons]

end Payload

namespace Arena

/-- The leading comments of the nodes when those of `source` have gone to `target`. -/
def leadingHanded (a : Arena) (source target x : NodeId) : List Text :=
  if x = target then a.leadingOf source ++ a.leadingOf x else if x = source then [] else a.leadingOf x

end Arena

namespace Edit

open Arena

variable {a : Arena} {failed : Arena → Prop}

lemma Ensures.exists_run {e : Edit Unit} {post : Unit → Arena → Prop} (h : e.Ensures a post fun _ => False) :
    ∃ b, e.run a = .ok () b ∧ post () b := by
  unfold Ensures at h
  split at h
  next b heq => exact ⟨b, heq, h⟩
  next => exact h.elim

/-- The leading comments of `source` go to `target`. -/
lemma moveLeading_hands {source target : NodeId} (hs : source < a.size) (ht : target < a.size)
    (hne : source ≠ target) : (moveLeading source target).Ensures a
      (fun _ b => a.Becomes a.parentOf a.payload? (a.leadingHanded source target) b) failed := by
  have hlinks : (moveLeading source target).Ensures a
      (fun _ b => b.size = a.size ∧ b.parentOf = a.parentOf ∧ b.payload? = a.payload?) failed :=
    moveLeading_ensures hs ht fun b hsize hp hk => ⟨hsize, hp, hk⟩
  suffices hnotes : (moveLeading source target).Ensures a (fun _ b => b.root = a.root ∧
      ∀ x, b.notes? x = a.notesWith (a.leadingHanded source target) x) failed from
    (hlinks.and hnotes).mono (fun _ b ⟨⟨hsize, hp, hk⟩, hr, hn⟩ => ⟨hsize, hr, congrFun hp, congrFun hk, hn⟩)
      fun _ => And.left
  refine ensures_bind (ensures_askCell hs fun cell hcell => ?_)
  have hsource : a.leadingOf source = cell.leading := by simp [leadingOf, hcell]
  by_cases hempty : cell.leading.isEmpty
  · rw [if_neg (by simp [hempty])]
    refine ensures_pure ⟨rfl, fun x => (notesWith_eq ?_).symm⟩
    rw [leadingHanded, hsource, List.isEmpty_iff.mp hempty]
    by_cases hxs : x = source <;> simp_all
  rw [if_pos (by simp [hempty])]
  refine ensures_bind (ensures_bind (ensures_askCell ht fun _ _ => ensures_pure ?_))
  refine ensures_bind (ensures_change (ensures_change ⟨rfl, fun x => ?_⟩))
  rw [notesWith, leadingHanded, hsource]
  cases hx : a.cell? x with
  | none => simp [notes?, hx]
  | some c =>
    by_cases hxs : x = source
    · subst hxs; simp [notes?, hx, hne, hne.symm]
    by_cases hxt : x = target
    · subst hxt; simp [notes?, leadingOf, hx, hne]
    · simp [notes?, leadingOf, hx, hxs, hxt, Ne.symm hxs, Ne.symm hxt]

end Edit

/-- An edit of a list at a node that stands in it. -/
inductive ListEdit
  | replaceWith (target r : NodeId)
  | replaceWithMany (target : NodeId) (rs : List NodeId)
  | insertBefore (anchor r : NodeId)
  | insertAfter (anchor r : NodeId)

namespace ListEdit

open Arena Edit

def run : ListEdit → Edit Unit
  | replaceWith target r => Edit.replaceWith target r
  | replaceWithMany target rs => Edit.replaceWithMany target rs
  | insertBefore anchor r => Edit.insertBefore anchor r
  | insertAfter anchor r => Edit.insertAfter anchor r

def anchor : ListEdit → NodeId
  | replaceWith x _ | replaceWithMany x _ | insertBefore x _ | insertAfter x _ => x

/-- The nodes that are put in the list. -/
def moved : ListEdit → List NodeId
  | replaceWith _ r | insertBefore _ r | insertAfter _ r => [r]
  | replaceWithMany _ rs => rs

/-- What stands afterwards where the anchor stood. -/
def placed : ListEdit → List NodeId
  | replaceWith _ r => [r]
  | replaceWithMany _ rs => rs
  | insertBefore x r => [r, x]
  | insertAfter x r => [x, r]

/-- The node that gets the leading comments of a replaced one. -/
def heir : ListEdit → Option NodeId
  | replaceWith _ r => some r
  | replaceWithMany _ rs => rs.head?
  | insertBefore .. | insertAfter .. => none

/-- The list after the edit, where `before` and `after` stood on both sides of the anchor. -/
def list (e : ListEdit) (before after : List (Option NodeId)) : List (Option NodeId) :=
  Slot.leftMany e.moved before ++ e.placed.map some ++ Slot.leftMany e.moved after

/-- The parents after the edit of a list of `p`. -/
def parent (e : ListEdit) (a : Arena) (p x : NodeId) : Option NodeId :=
  if x ∈ e.placed then some p else if x = e.anchor then none else a.parentOf x

/-- The payloads after the edit of the list in the `n`th slot of `p`. -/
def payload (e : ListEdit) (a : Arena) (p : NodeId) (n : Nat) (before after : List (Option NodeId)) (q : NodeId) :
    Option (Payload NodeId) :=
  if q = p then (a.payloadWithout e.moved p).map (·.modifySlot n id fun _ => e.list before after)
  else a.payloadWithout e.moved q

/-- The leading comments of a node after the edit. -/
def leading (e : ListEdit) (a : Arena) (x : NodeId) : List Text :=
  e.heir.elim (a.leadingOf x) fun heir => a.leadingHanded e.anchor heir x

section Runs

variable {a b : Arena} {failed : Arena → Prop} {p n x : Nat} {held : Payload NodeId} {role : Role}
  {before after : List (Option NodeId)} {moved : List NodeId}

/-- What is left when the comments have not been moved yet. -/
lemma becomes_of_handed {e : ListEdit} {c : Arena} {heir : NodeId} (hheir : e.heir = some heir)
    (hb : a.Relinked (e.parent a p) (e.payload a p n before after) b)
    (hc : b.Becomes b.parentOf b.payload? (b.leadingHanded e.anchor heir) c) :
    a.Becomes (e.parent a p) (e.payload a p n before after) (e.leading a) c := by
  have hleading : b.leadingHanded e.anchor heir = e.leading a := by
    funext y
    rw [leading, hheir, Option.elim_some, leadingHanded, leadingHanded, hb.leadingOf_eq]
  rw [hleading, funext hb.parentOf_eq, funext hb.payload?_eq] at hc
  exact hb.becomes hc

lemma becomes_of_heirless {e : ListEdit} (hheir : e.heir = none)
    (hb : a.Relinked (e.parent a p) (e.payload a p n before after) b) :
    a.Becomes (e.parent a p) (e.payload a p n before after) (e.leading a) b := by
  have hleading : e.leading a = a.leadingOf := funext fun y => by rw [leading, hheir, Option.elim_none]
  exact hleading ▸ hb

variable (h : Firm a.parentOf a.childIds) (hpay : a.payload? p = some held)
  (hslot : held.slots[n]? = some (role, .many (before ++ some x :: after)))
include h hpay hslot

lemma parentOf_anchor : a.parentOf x = some p := by
  refine h.mem_iff.mp ?_
  rw [childIds_eq hpay]
  exact List.mem_flatMap.mpr ⟨_, List.mem_of_getElem? hslot, by simp⟩

/-- Once some nodes have left their slots, the anchor is behind what is left in front of it. -/
lemma locate_ensures {post : NodeId × Payload.Place → Arena → Prop} (hx : x ∉ moved) (hb : a.Released moved b)
    (hpost : post (p, ⟨n, role, some (Slot.leftMany moved before).length⟩) b) : (locate x).Ensures b post failed := by
  have hparent : b.parentOf x = some p := by
    rw [hb.parentOf_eq, parentWithout, if_neg hx, parentOf_anchor h hpay hslot]
  have hpayb : b.payload? p = some (held.lacking moved) := by rw [hb.payload?_eq, payloadWithout, hpay, Option.map_some]
  refine ensures_located hparent hpayb (Payload.place?_of_list ?_ (Payload.slots_lacking_of_list hslot hx)) hpost
  exact childIds_eq hpayb ▸ (hb.firm h).nodup p

omit h hslot in
/-- The list is changed once the nodes that move have left their slots. -/
lemma change_relinks {e : ListEdit} (hb : a.Released e.moved b) (f : Payload NodeId → Payload NodeId)
    (hf : f (held.lacking e.moved) = (held.lacking e.moved).modifySlot n id fun _ => e.list before after) :
    (change (·.modify p fun c => { c with payload := f c.payload })).Ensures b
      (fun _ c => a.Relinked (a.parentWithout e.moved) (e.payload a p n before after) c) failed := by
  have hpayb : b.payload? p = some (held.lacking e.moved) := by
    rw [hb.payload?_eq, payloadWithout, hpay, Option.map_some]
  refine (changePayload_relinks f hpayb).mono (fun _ c hc => ?_) fun _ => id
  refine (Relinked.trans hb hc).congr hb.parentOf_eq fun q => ?_
  rw [payload]
  by_cases hq : q = p
  · subst hq
    rw [update_self, if_pos rfl, ← hb.payload?_eq, hpayb, hf, Option.map_some]
  · rw [update_of_ne hq, if_neg hq, hb.payload?_eq]

lemma replaceWith_becomes {r : NodeId} (hr : r < a.size) (hne : x ≠ r) :
    let e := replaceWith x r
    e.run.Ensures a (fun _ b => a.Becomes (e.parent a p) (e.payload a p n before after) (e.leading a) b)
      fun _ => False := by
  intro e
  have hanchor : x < a.size := lt_size_of_parentOf (parentOf_anchor h hpay hslot)
  have hx : x ∉ [r] := by simpa using hne
  change (Edit.replaceWith x r).Ensures ..
  unfold Edit.replaceWith
  rw [if_pos (by simpa using hne)]
  refine ensures_bind ((unlink_releases h hr).mono (fun _ b hb => ?_) fun _ => id)
  refine ensures_bind (locate_ensures h hpay hslot hx hb ?_)
  have hlist := Payload.splice_of_list (Payload.slots_lacking_of_list hslot hx) [r]
  refine ensures_bind ((change_relinks (e := e) hpay hb (·.splice _ [r]) hlist).mono (fun _ b₁ hb₁ => ?_) fun _ => id)
  have hr₁ : r < b₁.size := hb₁.size_eq ▸ hr
  refine ensures_bind ((setParent_relinks hr₁).mono (fun _ b₂ hb₂ => ?_) fun _ => id)
  have hx₂ : x < b₂.size := by rwa [hb₂.size_eq, hb₁.size_eq]
  refine ensures_bind ((setParent_relinks hx₂).mono (fun _ b₃ hb₃ => ?_) fun _ => id)
  have hb₃' : a.Relinked (e.parent a p) (e.payload a p n before after) b₃ := by
    refine ((hb₁.trans hb₂).trans hb₃).congr (fun y => ?_) fun q => by rw [hb₂.payload?_eq, hb₁.payload?_eq]
    simp only [update_apply, hb₂.parentOf_eq, hb₁.parentOf_eq, parentWithout, parent, e, placed, moved, anchor,
      List.mem_singleton]
    by_cases hy : y = x
    · subst hy; simp [hne]
    · by_cases hyr : y = r <;> simp [hy, hyr, hne.symm]
  refine (moveLeading_hands (hb₃.size_eq ▸ hx₂) (by rwa [hb₃.size_eq, hb₂.size_eq]) hne).mono (fun _ c hc => ?_)
    fun _ => id
  exact becomes_of_handed rfl hb₃' ⟨hc.size_eq, hc.root_eq, hc.parentOf_eq, hc.payload?_eq, hc.notes?_eq⟩

lemma replaceWithMany_becomes {rs : List NodeId} (hrs : ∀ r ∈ rs, r < a.size) (hx : x ∉ rs) :
    let e := replaceWithMany x rs
    e.run.Ensures a (fun _ b => a.Becomes (e.parent a p) (e.payload a p n before after) (e.leading a) b)
      fun _ => False := by
  intro e
  have hanchor : x < a.size := lt_size_of_parentOf (parentOf_anchor h hpay hslot)
  change (Edit.replaceWithMany x rs).Ensures ..
  unfold Edit.replaceWithMany
  refine ensures_bind ((gather_releases h hrs).mono (fun _ b hb => ?_) fun _ => id)
  refine ensures_bind (locate_ensures h hpay hslot hx hb ?_)
  dsimp only
  rw [if_pos Option.isSome_some]
  have hlist := Payload.splice_of_list (Payload.slots_lacking_of_list hslot hx) rs
  refine ensures_bind ((change_relinks (e := e) hpay hb (·.splice _ rs) hlist).mono (fun _ b₁ hb₁ => ?_) fun _ => id)
  have hrs₁ : ∀ r ∈ rs, r < b₁.size := hb₁.size_eq ▸ hrs
  refine ensures_bind ((setParents_relinks hrs₁).mono (fun _ b₂ hb₂ => ?_) fun _ => id)
  have hs₂ : b₂.size = a.size := hb₂.size_eq.trans hb₁.size_eq
  refine ensures_bind ((setParent_relinks (hs₂ ▸ hanchor)).mono (fun _ b₃ hb₃ => ?_) fun _ => id)
  have hb₃' : a.Relinked (e.parent a p) (e.payload a p n before after) b₃ := by
    refine ((hb₁.trans hb₂).trans hb₃).congr (fun y => ?_) fun q => by rw [hb₂.payload?_eq, hb₁.payload?_eq]
    simp only [update_apply, hb₂.parentOf_eq, hb₁.parentOf_eq, parentWithout, parent, e, placed, moved, anchor]
    by_cases hy : y = x
    · subst hy; simp [hx]
    · by_cases hyr : y ∈ rs <;> simp [hy, hyr]
  have hs₃ : b₃.size = a.size := hb₃.size_eq.trans hs₂
  cases rs with
  | nil => exact ensures_pure (becomes_of_heirless rfl hb₃')
  | cons first rest =>
    have hne : x ≠ first := fun heq => hx (by simp [heq])
    refine (moveLeading_hands (hs₃ ▸ hanchor) (hs₃ ▸ hrs first (by simp)) hne).mono (fun _ c hc => ?_) fun _ => id
    exact becomes_of_handed rfl hb₃' ⟨hc.size_eq, hc.root_eq, hc.parentOf_eq, hc.payload?_eq, hc.notes?_eq⟩

/-- A node is inserted next to the anchor, which keeps its place in the list. -/
lemma insertAt_becomes {e : ListEdit} {r : NodeId} (hr : r < a.size) (hne : x ≠ r) {offset : Nat}
    (hmoved : e.moved = [r]) (hheir : e.heir = none) (hanchor : e.anchor = x)
    (hplaced : ∀ y, y ∈ e.placed ↔ y = x ∨ y = r)
    (hlist : ∀ left right : List (Option NodeId),
      (left ++ some x :: right).take (left.length + offset) ++
        some r :: (left ++ some x :: right).drop (left.length + offset) = left ++ e.placed.map some ++ right) :
    (insertAt x r offset).Ensures a
      (fun _ b => a.Becomes (e.parent a p) (e.payload a p n before after) (e.leading a) b) fun _ => False := by
  have hx : x ∉ [r] := by simpa using hne
  unfold insertAt
  refine ensures_bind ((unlink_releases h hr).mono (fun _ b hb => ?_) fun _ => id)
  refine ensures_bind (locate_ensures h hpay hslot hx hb ?_)
  let i := (Slot.leftMany [r] before).length + offset
  have hinsert : ((held.lacking [r]).modifySlot n id fun cs => cs.take i ++ some r :: cs.drop i) =
      (held.lacking [r]).modifySlot n id fun _ => e.list before after := by
    rw [list, hmoved]
    exact Payload.modifySlot_congr (Payload.slots_lacking_of_list hslot hx) (hlist ..)
  rw [← hmoved] at hb hinsert
  refine ensures_bind ((change_relinks hpay hb _ hinsert).mono (fun _ b₁ hb₁ => ?_) fun _ => id)
  refine (setParent_relinks (hb₁.size_eq ▸ hr)).mono (fun _ b₂ hb₂ => ?_) fun _ => id
  refine becomes_of_heirless hheir ((hb₁.trans hb₂).congr (fun y => ?_) hb₁.payload?_eq)
  rw [update_apply, hb₁.parentOf_eq, parentWithout, parent, hmoved, hanchor]
  by_cases hyx : y = x
  · subst hyx; simp [hplaced, hne, parentOf_anchor h hpay hslot]
  · by_cases hyr : y = r <;> simp [hplaced, hyx, hyr]

omit h hpay hslot in
lemma becomes (h : Firm a.parentOf a.childIds) (e : ListEdit) (hpay : a.payload? p = some held)
    (hslot : held.slots[n]? = some (role, .many (before ++ some e.anchor :: after)))
    (hexists : ∀ r ∈ e.moved, r < a.size) (hanchor : e.anchor ∉ e.moved) :
    e.run.Ensures a (fun _ b => a.Becomes (e.parent a p) (e.payload a p n before after) (e.leading a) b)
      fun _ => False := by
  cases e with
  | replaceWith x r =>
    exact replaceWith_becomes h hpay hslot (hexists r (by simp [moved])) (by simpa [anchor, moved] using hanchor)
  | replaceWithMany x rs => exact replaceWithMany_becomes h hpay hslot hexists hanchor
  | insertBefore x r =>
    refine insertAt_becomes h hpay hslot (hexists r (by simp [moved])) (by simpa [anchor, moved] using hanchor)
      rfl rfl rfl (by simp [placed, anchor, or_comm]) fun left right => by
        rw [List.take_length_add_append, List.drop_length_add_append]
        simp [placed, anchor]
  | insertAfter x r =>
    refine insertAt_becomes h hpay hslot (hexists r (by simp [moved])) (by simpa [anchor, moved] using hanchor)
      rfl rfl rfl (by simp [placed, anchor]) fun left right => by
        rw [List.take_length_add_append, List.drop_length_add_append]
        simp [placed, anchor]

end Runs

/-- In a linked arena an edit of a list is a splice of that list. The nodes that move leave their slots wherever they
stood, also in the same list or below the anchor; then those that are placed stand where the anchor stood, between what
is left on both sides. Other payloads lose no more than the moved nodes, and a replaced node leaves its leading comments
to the first node that comes for it. -/
theorem run_splices {a : Arena} (h : a.Linked) (e : ListEdit) {p n : Nat} {held : Payload NodeId} {role : Role}
    {before after : List (Option NodeId)} (hpay : a.payload? p = some held)
    (hslot : held.slots[n]? = some (role, .many (before ++ some e.anchor :: after)))
    (hexists : ∀ r ∈ e.moved, r < a.size) (hanchor : e.anchor ∉ e.moved) :
    ∃ b, e.run.run a = .ok () b ∧
      a.Becomes (e.parent a p) (e.payload a p n before after) (e.leading a) b ∧
      (∃ new, b.payload? p = some new ∧ new.slots[n]? = some (role, .many (Slot.leftMany e.moved before ++
        e.placed.map some ++ Slot.leftMany e.moved after)) ∧
        new.hollow = held.hollow ∧ ∀ m, m ≠ n → new.slots[m]? = (held.lacking e.moved).slots[m]?) ∧
      (∀ q, q ≠ p → b.payload? q = (a.payload? q).map (·.lacking e.moved) ∧
        b.childIds q = (a.childIds q).filter (· ∉ e.moved) ∧
        ((∀ r ∈ e.moved, a.parentOf r ≠ some q) → b.payload? q = a.payload? q)) ∧
      ∀ heir, e.heir = some heir → b.leadingOf heir = a.leadingOf e.anchor ++ a.leadingOf heir := by
  rw [linked_iff_firm] at h
  obtain ⟨b, hrun, hb⟩ := (becomes h e hpay hslot hexists hanchor).exists_run
  refine ⟨b, hrun, hb, ⟨(held.lacking e.moved).modifySlot n id fun _ => e.list before after, ?_, ?_, ?_, ?_⟩,
    fun q hq => ?_, fun heir hheir => ?_⟩
  · rw [hb.payload?_eq, payload, if_pos rfl, payloadWithout, hpay]
    rfl
  · rw [Payload.slots_modifySlot, List.getElem?_modify_eq, Payload.slots_lacking, List.getElem?_map, hslot]
    rfl
  · exact (Payload.hollow_modifySlot ..).trans Payload.hollow_mapSlots
  · intro m hm
    rw [Payload.slots_modifySlot, List.getElem?_modify_ne _ _ hm.symm]
  · have hpayload : b.payload? q = (a.payload? q).map (·.lacking e.moved) := by
      rw [hb.payload?_eq, payload, if_neg hq, payloadWithout]
    refine ⟨hpayload, ?_, fun hfar => ?_⟩
    · rw [childIds, childIds, hpayload]
      cases a.payload? q with
      | none => rfl
      | some payload => exact Payload.children_lacking
    · rw [hpayload]
      exact payloadWithout_eq fun r hr hmem => hfar r hr (h.mem_iff.mp hmem)
  · have hmem : heir ∈ e.moved := by
      cases e with
      | replaceWith x r => simpa [ListEdit.heir, moved, eq_comm] using hheir
      | replaceWithMany x rs => exact List.mem_of_mem_head? hheir
      | insertBefore x r | insertAfter x r => simp [ListEdit.heir] at hheir
    rw [hb.leadingOf_eq (hexists heir hmem), leading, hheir, Option.elim_some, leadingHanded, if_pos rfl]

/-- A block gives way to the statement behind it, its own statement and the one in front of it. -/
theorem run_splices_regrouped :
    ∃ script b, parse ("a();\n// n\n\x7b b(); \x7d\nc();" : Text) {} = .ok script ∧
      let a := Arena.ofTree script.tree
      a.childIds 10 = [2, 6, 9] ∧ a.childIds 6 = [5] ∧ a.leadingOf 6 = ["// n"] ∧ a.leadingOf 9 = [] ∧
      (replaceWithMany 6 [9, 5, 2]).run.run a = .ok () b ∧
      b.payload? 10 = some (.program [some 9, some 5, some 2]) ∧ b.childIds 6 = [] ∧ b.leadingOf 9 = ["// n"] := by
  have hrun : (parse ("a();\n// n\n\x7b b(); \x7d\nc();" : Text) {}).toOption.any (fun script =>
      let a := Arena.ofTree script.tree
      a.payload? 10 = some (.program [some 2, some 6, some 9]) && a.childIds 6 = [5] && a.leadingOf 6 = ["// n"] &&
        a.leadingOf 9 = [] && a.size = 11) := by decide +kernel
  cases hs : parse ("a();\n// n\n\x7b b(); \x7d\nc();" : Text) {} with
  | error e => simp [hs, Except.toOption] at hrun
  | ok script =>
    simp only [hs, Except.toOption, Option.any_some, Bool.and_eq_true, decide_eq_true_eq] at hrun
    obtain ⟨⟨⟨⟨hpay, hblock⟩, hcomments⟩, hnone⟩, hsize⟩ := hrun
    have hslot : (Payload.program [some 2, some 6, some 9]).slots[0]? =
        some (.statementList, .many ([some 2] ++ some 6 :: [some 9])) := rfl
    obtain ⟨b, hedit, hb, -, hothers, hheir⟩ := run_splices (linked_iff_firm.mpr (ofTree_firm script.tree))
      (replaceWithMany 6 [9, 5, 2]) hpay hslot (by simp [moved, hsize]) (by simp [moved, anchor])
    refine ⟨script, b, rfl, (childIds_eq hpay).trans rfl, hblock, hcomments, hnone, hedit, ?_, ?_, ?_⟩
    · rw [hb.payload?_eq, payload, if_pos rfl, payloadWithout, hpay]
      rfl
    · rw [(hothers 6 (by simp)).2.1, hblock]
      rfl
    · rw [hheir 9 rfl, anchor, hcomments, hnone]
      rfl

end ListEdit

end PlainScript
