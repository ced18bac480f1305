import PlainScript.Idiom.Scope
import PlainScript.Proofs.Hosting
import PlainScript.Proofs.Replacement

/-! A node below the root gives way to nodes from below it. What stays with the node that went is no longer
part of the tree, and the rest of the tree is as it was but for the slot of that node. -/
namespace PlainScript

open Relation

namespace Payload

variable {α : Type}

lemma kind_modifySlot (n : Nat) (one : Option α → Option α) (many : List (Option α) → List (Option α))
    (p : Payload α) : (p.modifySlot n one many).kind = p.kind :=
  kind_traverse ..

lemma kind_splice (p : Payload α) (place : Place) (rs : List α) : (p.splice place rs).kind = p.kind := by
  unfold splice
  split <;> exact kind_modifySlot ..

end Payload

namespace Arena

/-- A linked tree under a root. -/
structure Rooted (a : Arena) (root : NodeId) : Prop where
  firm : Firm a.parentOf a.childIds
  root_eq : a.root = some root
  root_lt : root < a.size
  parentOf_root : a.parentOf root = none

/-- A node below the root, at a place of its parent. -/
structure At (a : Arena) (root target p : NodeId) (payload : Payload NodeId) (place : Payload.Place) : Prop where
  attached : ReflTransGen a.HasParent target root
  parent_eq : a.parentOf target = some p
  payload_eq : a.payload? p = some payload
  place_eq : payload.place? target = some place

/-- A node on a way up to the target without any of the nodes that are moved. -/
def StaysWith (a : Arena) (moved : List NodeId) (target x : NodeId) : Prop :=
  ReflTransGen (fun x y => a.HasParent x y ∧ x ∉ moved) x target

/-- The target gives way to nodes from below it, or to a new node around these. -/
structure Exchange (a : Arena) (root target p : NodeId) (payload : Payload NodeId) (place : Payload.Place)
    (moved new : List NodeId) (b : Arena) : Prop extends At a root target p payload place where
  rooted : a.Rooted root
  taken : ∀ r ∈ moved, ∃ q, a.parentOf r = some q ∧ a.StaysWith moved target q
  replaced : a.Replaced target p (payload.splice place new) moved new b

variable {a b : Arena} {root target p x : NodeId} {payload : Payload NodeId} {place : Payload.Place}
  {moved new : List NodeId}

lemma StaysWith.way (h : a.StaysWith moved target x) : ReflTransGen a.HasParent x target :=
  ReflTransGen.mono (fun _ _ => And.left) _ _ h

lemma Rooted.exists_at (h : a.Rooted root) (hway : ReflTransGen a.HasParent target root) (hne : target ≠ root) :
    ∃ p payload place, a.At root target p payload place := by
  obtain heq | ⟨p, hp, -⟩ := hway.cases_head
  · exact absurd heq hne
  · have hchild := h.firm.mem_iff.mpr hp
    cases hpay : a.payload? p with
    | none => simp [childIds, hpay] at hchild
    | some payload =>
      obtain ⟨place, hplace⟩ := Payload.exists_place (childIds_eq hpay ▸ hchild)
      exact ⟨p, payload, place, hway, hp, hpay, hplace⟩

namespace At

variable (h : a.At root target p payload place)
include h

lemma target_lt : target < a.size := lt_size_of_parentOf h.parent_eq

lemma target_ne_root (hrooted : a.Rooted root) : target ≠ root := by
  rintro rfl
  simpa [h.parent_eq] using hrooted.parentOf_root

lemma p_attached (hrooted : a.Rooted root) : ReflTransGen a.HasParent p root := by
  obtain heq | ⟨q, hq, hway⟩ := h.attached.cases_head
  · exact absurd heq (h.target_ne_root hrooted)
  · obtain rfl : p = q := Option.some.inj (h.parent_eq.symm.trans hq)
    exact hway

/-- What stands in a list of statements has an index in it. -/
lemma isSome_index (hlist : a.inStatementList target = true) : place.index.isSome = true := by
  obtain ⟨pre, slot, post, hslots, -, ⟨-, rfl⟩ | ⟨i, _, hi, -⟩⟩ := Payload.placeIn_eq_some h.place_eq
  · obtain ⟨role, hslot⟩ : ∃ role, (role, .one (some target)) ∈ payload.slots := ⟨place.role, by simp [hslots]⟩
    unfold inStatementList at hlist
    rw [show (a.cell? target).bind (·.parent) = some p from h.parent_eq, Option.bind_some, h.payload_eq] at hlist
    split at hlist
    next heq =>
      cases heq
      rcases hslot with _ | ⟨_, ⟨⟩⟩
    next heq =>
      cases heq
      rcases hslot with _ | ⟨_, ⟨⟩⟩
    next heq =>
      cases heq
      rcases hslot with _ | ⟨_, _ | ⟨_, ⟨⟩⟩⟩
      simp at hlist
    next => cases hlist
  · simp [hi]

end At

namespace Exchange

variable (h : a.Exchange root target p payload place moved new b)
include h

lemma moved_way (hx : x ∈ moved) : TransGen a.HasParent x target := by
  obtain ⟨q, hq, hstays⟩ := h.taken x hx
  exact .head' hq hstays.way

lemma moved_lt (hx : x ∈ moved) : x < a.size := by
  obtain ⟨q, hq, -⟩ := h.taken x hx
  exact lt_size_of_parentOf hq

lemma target_not_moved : target ∉ moved := fun hm => h.rooted.firm.acyclic _ (h.moved_way hm)

lemma root_not_moved : root ∉ moved := fun hm => by
  obtain ⟨q, hq, -⟩ := h.taken root hm
  simp [h.rooted.parentOf_root] at hq

lemma moved_not_stays (hx : x ∈ moved) : ¬ a.StaysWith moved target x := fun hstays => by
  obtain rfl | ⟨_, ⟨-, hnot⟩, -⟩ := hstays.cases_head
  · exact h.target_not_moved hx
  · exact hnot hx

lemma p_not_stays : ¬ a.StaysWith moved target p := fun hstays =>
  h.rooted.firm.acyclic _ (.head' h.parent_eq hstays.way)

lemma root_not_stays : ¬ a.StaysWith moved target root := fun hstays => by
  obtain heq | ⟨_, ⟨hroot, -⟩, -⟩ := hstays.cases_head
  · exact h.target_ne_root h.rooted heq.symm
  · simp [HasParent, h.rooted.parentOf_root] at hroot

/-- Old nodes among those that came were moved. -/
lemma mem_moved_of_new (hx : x ∈ new) (hlt : x < a.size) : x ∈ moved := by
  obtain ⟨rfl, -⟩ | ⟨rfl, -⟩ := h.replaced.filling
  · exact hx
  · exact absurd hlt (List.mem_singleton.mp hx ▸ Nat.lt_irrefl _)

/-- A node that was not moved has the parent that it had, unless it is the target. -/
lemma parentOf_of_lt (hx : x < a.size) (hmoved : x ∉ moved) :
    b.parentOf x = if x = target then none else a.parentOf x := by
  rw [h.replaced.parentOf_eq, if_neg fun hn => hmoved (h.mem_moved_of_new hn hx), if_neg hmoved]

/-- A node that neither went nor was moved has the parent that it had. -/
lemma parentOf_of_not_stays (hx : x < a.size) (hmoved : x ∉ moved) (hstays : ¬ a.StaysWith moved target x) :
    b.parentOf x = a.parentOf x := by
  rw [h.parentOf_of_lt hx hmoved, if_neg]
  rintro rfl
  exact hstays .refl

/-- What stays with the target is no longer below the root. -/
lemma not_attached (hx : a.StaysWith moved target x) : ¬ ReflTransGen b.HasParent x root := by
  induction hx using ReflTransGen.head_induction_on with
  | refl =>
    intro hway
    obtain heq | ⟨y, hy, -⟩ := hway.cases_head
    · exact h.target_ne_root h.rooted heq
    · simp [HasParent, h.parentOf_of_lt h.target_lt h.target_not_moved] at hy
  | @head x y hxy hstays ih =>
    intro hway
    have hne : x ≠ target := by
      rintro rfl
      exact h.rooted.firm.acyclic _ (.head' hxy.1 (StaysWith.way hstays))
    obtain rfl | ⟨z, hz, hroot⟩ := hway.cases_head
    · simp [HasParent, h.rooted.parentOf_root] at hxy
    · rw [HasParent, h.parentOf_of_lt (lt_size_of_parentOf hxy.1) hxy.2, if_neg hne] at hz
      obtain rfl := Option.some.inj (hxy.1.symm.trans hz)
      exact ih hroot

/-- What is below the root now was so before, unless it is new. -/
lemma attached_before (hx : ReflTransGen b.HasParent x root) (hlt : x < a.size) :
    ReflTransGen a.HasParent x root := by
  induction hx using ReflTransGen.head_induction_on with
  | refl => exact .refl
  | @head x y hxy hway ih =>
    by_cases hm : x ∈ moved
    · exact ((h.moved_way hm).to_reflTransGen).trans h.attached
    · rw [HasParent, h.parentOf_of_lt hlt hm] at hxy
      split_ifs at hxy
      exact .head hxy (ih (h.rooted.firm.parent_lt hxy))

/-- Only `p` and what stays with the target have changed. -/
lemma payload?_of_lt (hx : x < a.size) (hp : x ≠ p) (hstays : ¬ a.StaysWith moved target x) :
    b.payload? x = a.payload? x := by
  refine h.replaced.payload?_eq x hx hp fun r hr hrx => hstays ?_
  obtain ⟨q, hq, hq'⟩ := h.taken r hr
  exact Option.some.inj (hrx.symm.trans hq) ▸ hq'

lemma kind?_of_lt (hx : x < a.size) (hstays : ¬ a.StaysWith moved target x) : b.kind? x = a.kind? x := by
  rw [kind?_eq, kind?_eq]
  by_cases hp : x = p
  · subst hp
    rw [h.replaced.payload?_place, h.payload_eq]
    simp [Payload.kind_splice]
  · rw [h.payload?_of_lt hx hp hstays]

/-- A node that is new is a block or an empty statement. -/
lemma kind?_new {k : Kind} (hle : a.size ≤ x) (hk : b.kind? x = some k) : k = .blockStatement ∨ k = .emptyStatement := by
  have hlt := lt_size_of_kind? hk
  obtain ⟨-, hsize⟩ | ⟨-, hsize, hfresh⟩ := h.replaced.filling
  · exact absurd hlt (Nat.not_lt.mpr (hsize ▸ hle))
  · obtain rfl : x = a.size := Nat.le_antisymm (Nat.lt_succ_iff.mp (Nat.lt_of_lt_of_eq hlt hsize)) hle
    rw [kind?_eq] at hk
    obtain hblock | ⟨-, hempty⟩ := hfresh
    · rw [hblock] at hk
      exact .inl (Option.some.inj hk).symm
    · rw [hempty] at hk
      exact .inr (Option.some.inj hk).symm

lemma rooted_after : b.Rooted root where
  firm := h.replaced.firm
  root_eq := h.replaced.kept.root_eq.trans h.rooted.root_eq
  root_lt := Nat.lt_of_lt_of_le h.rooted.root_lt h.replaced.size_le
  parentOf_root := by
    rw [h.parentOf_of_lt h.rooted.root_lt h.root_not_moved, h.rooted.parentOf_root]
    simp

omit h in
/-- The parent of a node that neither went nor was moved did not go. -/
lemma parent_not_stays {y : NodeId} (hxy : a.parentOf x = some y) (hmoved : x ∉ moved)
    (hstays : ¬ a.StaysWith moved target x) : ¬ a.StaysWith moved target y := fun hy =>
  hstays (.head ⟨hxy, hmoved⟩ hy)

omit h in
/-- A child that stays with the target is the target itself, or its parent stays too. -/
lemma stays_of_parent {y : NodeId} (hxy : a.parentOf x = some y) (hy : ¬ a.StaysWith moved target y)
    (hx : a.StaysWith moved target x) : x = target := by
  obtain heq | ⟨z, ⟨hz, -⟩, hstays⟩ := hx.cases_head
  · exact heq
  · exact absurd (Option.some.inj (hz.symm.trans hxy) ▸ hstays) hy

end Exchange

/-! ### What the edits leave behind -/

section Edits

open Edit

variable (hrooted : a.Rooted root) (h : a.At root target p payload place)
include hrooted h

/-- A node below the target comes for it, as it is. -/
lemma replaceWith_exchanges {r q : NodeId} (hq : a.parentOf r = some q) (hstays : a.StaysWith [r] target q) :
    (replaceWith target r).Ensures a (fun _ b => a.Exchange root target p payload place [r] [r] b)
      fun _ => False :=
  (replaceWith_replaces hrooted.firm h.parent_eq h.payload_eq h.place_eq (.head' hq hstays.way)).mono
    (fun _ _ hb => ⟨h, hrooted, fun _ hm => ⟨q, List.mem_singleton.mp hm ▸ hq, hstays⟩, hb⟩) fun _ => id

/-- Nodes below the target come for it in a list. -/
lemma replaceWithMany_exchanges (hi : place.index.isSome) (hnodup : moved.Nodup)
    (htaken : ∀ r ∈ moved, ∃ q, a.parentOf r = some q ∧ a.StaysWith moved target q) :
    (replaceWithMany target moved).Ensures a (fun _ b => a.Exchange root target p payload place moved moved b)
      fun _ => False :=
  (replaceWithMany_replaces hrooted.firm h.parent_eq h.payload_eq h.place_eq hi hnodup fun r hr => by
    obtain ⟨q, hq, hstays⟩ := htaken r hr
    exact .head' hq hstays.way).mono (fun _ _ hb => ⟨h, hrooted, htaken, hb⟩) fun _ => id

/-- Nodes below the target come for it in a block of their own. -/
lemma replaceWith_block_exchanges (hnodup : moved.Nodup)
    (htaken : ∀ r ∈ moved, ∃ q, a.parentOf r = some q ∧ a.StaysWith moved target q) (position : Position) :
    (do
      let block ← add (.blockStatement (moved.map some)) position
      replaceWith target block : Edit Unit).Ensures a
      (fun _ b => a.Exchange root target p payload place moved [a.size] b ∧
        b.payload? a.size = some (.blockStatement (moved.map some))) fun _ => False :=
  (replaceWith_block_replaces hrooted.firm h.parent_eq h.payload_eq h.place_eq hnodup (fun r hr => by
    obtain ⟨q, hq, hstays⟩ := htaken r hr
    exact .head' hq hstays.way) position).mono (fun _ _ hb => ⟨⟨h, hrooted, htaken, hb.1⟩, hb.2⟩) fun _ => id

/-- Nothing comes for the target, or an empty statement. -/
lemma remove_exchanges (hrole : place.role ≠ .expression) :
    (remove target).Ensures a (fun _ b => ∃ new, a.Exchange root target p payload place [] new b ∧
      (place.role ≠ .statement ∧ new = [] ∨
        place.role = .statement ∧ new = [a.size] ∧ b.payload? a.size = some .emptyStatement))
      fun _ => False := by
  refine (remove_replaces hrooted.firm h.parent_eq h.payload_eq h.place_eq hrole).mono ?_ fun _ => id
  rintro _ b ⟨new, hreplaced, hnew⟩
  exact ⟨new, ⟨h, hrooted, by simp, hreplaced⟩, hnew⟩

end Edits

/-! ### Trees of plain statements -/

/-- The root of a script is a program. -/
structure Scripted (a : Arena) (root : NodeId) : Prop extends Rooted a root where
  isProgram : a.kind? root = some .program

/-- A script, in which a plain statement stands where any statement may stand. -/
structure Standing (a : Arena) (root : NodeId) : Prop extends Scripted a root where
  hosts : ∀ x p, ReflTransGen a.HasParent x root → a.payload? x = some p → p.Hosts a.kind?

/-- What was read from a text stands. -/
theorem ofTree_standing {t : Tree} (h : t.Is (· == .program)) : ∃ root, (ofTree t).Standing root := by
  have hplanted := plant_plants t {} empty_firm
  obtain ⟨hkind, hhosting⟩ := (plant_hosting t {}).2.1 h.1
  have hfirm := ofTree_firm t
  refine ⟨((plant t).run {}).1, ⟨⟨hfirm, rfl, lt_size_of_kind? hkind, ?_⟩, ?_⟩, fun x p hx hp => ?_⟩
  · exact (hplanted.fresh _ (by simp)).2.2
  · exact hkind.trans (congrArg some (by simpa using h.2))
  · obtain ⟨hp', hhosts, -⟩ := hhosting.attached hfirm hx
    exact Option.some.inj (hp'.symm.trans hp) ▸ hhosts

lemma Exchange.scripted_after (h : a.Exchange root target p payload place moved new b) (hscripted : a.Scripted root) :
    b.Scripted root :=
  ⟨h.rooted_after, (h.kind?_of_lt h.rooted.root_lt h.root_not_stays).trans hscripted.isProgram⟩

section Standing

variable {k : Kind}

/-- A plain statement stands at a place for statements, and not in an expression. -/
lemma Standing.takesStatement (h : a.Standing root) (hk : a.kind? target = some k) (hplain : k.isPlainStatement = true)
    (hat : a.At root target p payload place) :
    place.role.takesStatement = true ∧ payload.kind.isExpression = false := by
  obtain ⟨pre, slot, post, hslots, htarget, -⟩ := Payload.slots_splice hat.place_eq
  obtain ⟨k', hk', hhosts⟩ := h.hosts p payload (hat.p_attached h.toRooted) hat.payload_eq place.role slot
    (by simp [hslots]) target htarget
  exact hhosts (Option.some.inj (hk'.symm.trans hk) ▸ hplain)

/-- A plain statement below the root is not the root itself. -/
lemma Standing.exists_at (h : a.Standing root) (hk : a.kind? target = some k) (hplain : k.isPlainStatement = true)
    (hway : ReflTransGen a.HasParent target root) : ∃ p payload place, a.At root target p payload place ∧
      place.role.takesStatement = true ∧ payload.kind.isExpression = false := by
  have hne : target ≠ root := by
    rintro rfl
    obtain rfl := Option.some.inj (h.isProgram.symm.trans hk)
    cases hplain
  obtain ⟨p, payload, place, hat⟩ := h.toRooted.exists_at hway hne
  exact ⟨p, payload, place, hat, h.takesStatement hk hplain hat⟩

lemma hosts_blockStatement {kindOf : NodeId → Option Kind} {ids : List NodeId}
    (h : ∀ x ∈ ids, ∃ k, kindOf x = some k) : (Payload.blockStatement (ids.map some)).Hosts kindOf := by
  rintro role slot hslot c hc
  obtain ⟨rfl, rfl⟩ : role = .statementList ∧ slot = .many (ids.map some) := by simpa using hslot
  obtain ⟨k, hk⟩ := h c (by simpa [Slot.children] using hc)
  exact ⟨k, hk, fun _ => ⟨rfl, rfl⟩⟩

variable (h : a.Exchange root target p payload place moved new b) (hstanding : a.Standing root)
  (hplace : place.role.takesStatement = true ∧ payload.kind.isExpression = false)
include h hstanding hplace

/-- Where one of the nodes that come stands, any statement may stand. -/
lemma Exchange.hosts_after {q : Payload NodeId} (hx : ReflTransGen b.HasParent x root) (hq : b.payload? x = some q) :
    q.Hosts b.kind? := by
  have hstays : ¬ a.StaysWith moved target x := fun hs => h.not_attached hs hx
  have hchild (c : NodeId) (hc : c ∈ q.children) : ∃ k, b.kind? c = some k := by
    have hparent : b.parentOf c = some x := h.replaced.firm.mem_iff.mp (childIds_eq hq ▸ hc)
    exact exists_kind (lt_size_of_parentOf hparent)
  have hkept (c : NodeId) (hc : c ∈ q.children) (k : Kind) (hk : a.kind? c = some k) : b.kind? c = some k := by
    have hparent : b.parentOf c = some x := h.replaced.firm.mem_iff.mp (childIds_eq hq ▸ hc)
    rw [h.kind?_of_lt (lt_size_of_kind? hk) fun hs => h.not_attached hs (.head hparent hx), hk]
  by_cases hlt : x < a.size
  · have hbefore := h.attached_before hx hlt
    by_cases hp : x = p
    · subst hp
      obtain rfl := Option.some.inj (h.replaced.payload?_place.symm.trans hq)
      obtain ⟨pre, slot, post, hslots, -, hsplice⟩ := Payload.slots_splice h.place_eq
      obtain ⟨slot', hslots'⟩ := hsplice new
      intro role t ht c hc
      have hmem : c ∈ (payload.splice place new).children := List.mem_flatMap.mpr ⟨_, ht, hc⟩
      rw [hslots', List.mem_append, List.mem_cons] at ht
      by_cases hchanged : (role, t) = (place.role, slot')
      · obtain ⟨rfl, rfl⟩ := Prod.mk.inj hchanged
        obtain ⟨k, hk⟩ := hchild c hmem
        exact ⟨k, hk, fun _ => ⟨hplace.1, (Payload.kind_splice ..).symm ▸ hplace.2⟩⟩
      · have hslot : (role, t) ∈ payload.slots := by
          rw [hslots, List.mem_append, List.mem_cons]
          tauto
        obtain ⟨k, hk, hplain⟩ := hstanding.hosts x payload hbefore h.payload_eq role t hslot c hc
        exact ⟨k, hkept c hmem k hk, by rwa [Payload.kind_splice]⟩
    · rw [h.payload?_of_lt hlt hp hstays] at hq
      exact (hstanding.hosts x q hbefore hq).mono fun c hc k => hkept c hc k
  · obtain ⟨rfl, hs⟩ | ⟨rfl, hs, hfresh⟩ := h.replaced.filling
    · exact absurd (lt_size_of_payload? hq) (hs ▸ hlt)
    · have hsize := lt_size_of_payload? hq
      rw [hs] at hsize
      obtain rfl : x = a.size := Nat.le_antisymm (Nat.lt_succ_iff.mp hsize) (Nat.not_lt.mp hlt)
      obtain hblock | ⟨-, hempty⟩ := hfresh
      · obtain rfl := Option.some.inj (hblock.symm.trans hq)
        exact hosts_blockStatement fun c hc => hchild c (by simpa [Edit.children_blockStatement] using hc)
      · obtain rfl := Option.some.inj (hempty.symm.trans hq)
        exact fun _ _ => nofun

lemma Exchange.standing_after : b.Standing root where
  toScripted := h.scripted_after hstanding.toScripted
  hosts _ _ hx hq := h.hosts_after hstanding hplace hx hq

end Standing

end Arena

end PlainScript
