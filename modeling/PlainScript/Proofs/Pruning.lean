import PlainScript.Proofs.PlacedWays
import PlainScript.Proofs.Rewrites
import PlainScript.Proofs.Turns

/-! Nodes without some of their statements. A removal takes a statement out of one slot of one node. What all removals
together leave of a node is what it was, without the statements that are gone. -/
namespace PlainScript

open Relation Function

variable {α : Type}

namespace Slot

variable [DecidableEq α] {gone : List α} {stand f : α → α} {role : Role} {slot : Slot α} {y : α}

/-- What is left in a single slot. Where there must be a statement, another one stands for one that is gone. -/
def leftOne (gone : List α) (stand : α → α) (role : Role) (c : Option α) : Option α :=
  c.bind fun x => if x ∈ gone then if role = .statement then some (stand x) else none else some x

/-- What is left of a slot. -/
def without (gone : List α) (stand : α → α) (role : Role) : Slot α → Slot α :=
  change (leftOne gone stand role) (leftMany gone)

lemma without_eq_self (h : ∀ x ∈ slot.children, x ∉ gone) : slot.without gone stand role = slot := by
  cases slot with
  | one c =>
    cases c with
    | none => rfl
    | some x => simp [without, change, leftOne, h x (by simp)]
  | many cs =>
    refine congrArg Slot.many (List.filter_eq_self.mpr fun c hc => ?_)
    cases c with
    | none => rfl
    | some x => simpa using h x (by simpa using hc)

lemma without_without (hy : y ∉ gone) (hstand : ∀ x ∈ gone, stand x ≠ y) :
    (slot.without gone stand role).without [y] f role = slot.without (gone ++ [y]) (update stand y (f y)) role := by
  cases slot with
  | one c =>
    cases c with
    | none => rfl
    | some x =>
      by_cases hx : x ∈ gone
      · have hne : x ≠ y := ne_of_mem_of_not_mem hx hy
        by_cases hrole : role = .statement <;> simp [without, change, leftOne, hx, hne, hrole, hstand x hx]
      · by_cases hxy : x = y
        · subst hxy
          by_cases hrole : role = .statement <;> simp [without, change, leftOne, hx, hrole]
        · simp [without, change, leftOne, hx, hxy]
  | many cs =>
    refine congrArg Slot.many ?_
    rw [leftMany, leftMany, leftMany, List.filter_filter]
    refine List.filter_congr fun c _ => ?_
    cases c <;> simp [and_comm]

end Slot

namespace Payload

/-- What is left of a node. -/
def without [DecidableEq α] (gone : List α) (stand : α → α) (p : Payload α) : Payload α :=
  Id.run (p.traverse (fun role c => pure (Slot.leftOne gone stand role c)) fun _ cs => pure (Slot.leftMany gone cs))

lemma role_of_many {p : Payload α} {role : Role} {cs : List (Option α)} (h : (role, .many cs) ∈ p.slots) :
    role ≠ .statement := by
  have hall : (p.slots.all fun entry => entry.1 != .statement || !entry.2.isList) = true := by
    cases p <;> rfl
  rintro rfl
  exact Bool.false_ne_true (List.all_eq_true.mp hall _ h)

variable [DecidableEq α] {gone : List α} {stand f : α → α} {p : Payload α} {y : α}

lemma slots_without (gone : List α) (stand : α → α) (p : Payload α) :
    (p.without gone stand).slots = p.slots.map fun x => (x.1, x.2.without gone stand x.1) := slots_mapSlots

lemma kind_without (gone : List α) (stand : α → α) (p : Payload α) : (p.without gone stand).kind = p.kind := by
  cases p <;> rfl

lemma without_eq_self (h : ∀ x ∈ p.children, x ∉ gone) : p.without gone stand = p :=
  mapSlots_eq_self fun x hx => Slot.without_eq_self fun y hy => h y (List.mem_flatMap.mpr ⟨x, hx, hy⟩)

lemma without_without (hy : y ∉ gone) (hstand : ∀ x ∈ gone, stand x ≠ y) :
    (p.without gone stand).without [y] f = p.without (gone ++ [y]) (update stand y (f y)) := by
  refine ext_slots (hollow_mapSlots.trans (hollow_mapSlots.trans hollow_mapSlots.symm)) ?_
  rw [slots_without, slots_without, slots_without, List.map_map]
  exact List.map_congr_left fun x _ => by simp only [comp_apply, Slot.without_without hy hstand]

/-- What the removal of a statement leaves of its parent. -/
lemma splice_eq_without {place : Place} {new : List α} (hplace : p.place? y = some place) (hnodup : p.children.Nodup)
    (hnew : place.role ≠ .statement ∧ new = [] ∨ place.role = .statement ∧ new = [f y]) :
    p.splice place new = p.without [y] f := by
  refine splice_eq_mapSlots hplace hnodup (fun role slot hy => ?_) ?_ fun i cs hslot hi hcs => ?_
  · exact Slot.without_eq_self fun z hz hmem => hy (List.mem_singleton.mp hmem ▸ hz)
  · obtain ⟨hrole, rfl⟩ | ⟨hrole, rfl⟩ := hnew <;> simp [Slot.leftOne, hrole]
  · obtain ⟨-, rfl⟩ | ⟨hrole, -⟩ := hnew
    · rw [List.map_nil, List.append_nil, take_append_drop_eq_leftMany hi hcs]
    · exact absurd hrole (role_of_many hslot)

end Payload

namespace Arena

variable {a b c : Arena} {root target x y : NodeId} {gone bared : List NodeId} {stand : NodeId → NodeId}

namespace RemovesAt

variable (h : RemovesAt root target a b)
include h

lemma target_lt : target < a.size := by
  obtain ⟨p, payload, place, new, hexchange, -⟩ := h
  exact hexchange.target_lt

/-- What is left of each node. -/
lemma payload?_eq (hx : x < a.size) : b.payload? x = (a.payload? x).map (·.without [target] fun _ => a.size) := by
  obtain ⟨p, payload, place, new, hexchange, -, -, hnew⟩ := h
  by_cases hp : x = p
  · subst hp
    have hnodup : payload.children.Nodup := childIds_eq hexchange.payload_eq ▸ hexchange.rooted.firm.nodup x
    rw [hexchange.replaced.payload?_place, hexchange.payload_eq, Option.map_some]
    refine congrArg some (Payload.splice_eq_without hexchange.place_eq hnodup (hnew.imp_right fun hnew => ?_))
    exact ⟨hnew.1, hnew.2.1⟩
  · rw [hexchange.replaced.payload?_eq x hx hp (by simp)]
    cases hq : a.payload? x with
    | none => rfl
    | some q =>
      refine congrArg some (Payload.without_eq_self fun z hz hmem => hp ?_).symm
      obtain rfl := List.mem_singleton.mp hmem
      have hparent : a.parentOf z = some x := hexchange.rooted.firm.mem_iff.mp (childIds_eq hq ▸ hz)
      exact Option.some.inj (hparent.symm.trans hexchange.parent_eq)

lemma hasParent_iff (hx : x < a.size) : b.HasParent x y ↔ a.HasParent x y ∧ x ≠ target := by
  obtain ⟨p, payload, place, new, hexchange, -⟩ := h
  rw [HasParent, HasParent, hexchange.parentOf_of_lt hx List.not_mem_nil]
  by_cases hxt : x = target <;> simp [hxt]

/-- What is new is an empty statement. -/
lemma payload?_of_size_le (hx : a.size ≤ x) {q : Payload NodeId} (hq : b.payload? x = some q) :
    q = .emptyStatement := by
  obtain ⟨p, payload, place, new, hexchange, -, -, hnew⟩ := h
  have hlt := lt_size_of_payload? hq
  obtain ⟨hnil, hsize⟩ | ⟨hone, hsize, -⟩ := hexchange.replaced.filling
  · exact absurd (Nat.lt_of_lt_of_eq hlt hsize) (Nat.not_lt.mpr hx)
  · obtain rfl : x = a.size := Nat.le_antisymm (Nat.lt_succ_iff.mp (Nat.lt_of_lt_of_eq hlt hsize)) hx
    obtain ⟨-, hnil⟩ | ⟨-, -, hempty⟩ := hnew
    · cases hone.symm.trans hnil
    · exact Option.some.inj (hq.symm.trans hempty)

end RemovesAt

/-- So far these statements are gone, and these expressions have become names. -/
structure Pruned (a : Arena) (root : NodeId) (gone bared : List NodeId) (stand : NodeId → NodeId) (b : Arena) :
    Prop where
  standing : b.Standing root
  size_le : a.size ≤ b.size
  stand_new : ∀ x ∈ gone, a.size ≤ stand x
  payload?_bared : ∀ x ∈ bared, b.payload? x = some (.identifier "undefined")
  payload?_eq : ∀ x < a.size, x ∉ bared → b.payload? x = (a.payload? x).map (·.without gone stand)
  payload?_new : ∀ x, a.size ≤ x → ∀ q, b.payload? x = some q → q = .emptyStatement
  hasParent_iff : ∀ x < a.size, ∀ p, b.HasParent x p ↔ a.HasParent x p ∧ x ∉ gone ∧ p ∉ bared

lemma Standing.pruned (h : a.Standing root) : a.Pruned root [] [] id a where
  standing := h
  size_le := Nat.le_refl _
  stand_new := by simp
  payload?_bared := by simp
  payload?_eq x _ _ := by
    cases a.payload? x with
    | none => rfl
    | some q => exact congrArg some (Payload.without_eq_self fun _ _ => List.not_mem_nil).symm
  payload?_new x hx q hq := absurd (lt_size_of_payload? hq) (Nat.not_lt.mpr hx)
  hasParent_iff := by simp

namespace Pruned

variable (h : a.Pruned root gone bared stand b)
include h

lemma remove (hy : y < a.size) (hgone : y ∉ gone) (hremoves : RemovesAt root y b c) :
    a.Pruned root (gone ++ [y]) bared (update stand y b.size) c where
  standing := hremoves.standing h.standing
  size_le := Nat.le_trans h.size_le hremoves.size_le
  stand_new x hx := by
    by_cases hxy : x = y
    · rw [hxy, update_self]
      exact h.size_le
    · rw [update_of_ne hxy]
      exact h.stand_new x (by simpa [hxy] using hx)
  payload?_bared x hx := by
    have hp := h.payload?_bared x hx
    rw [hremoves.payload?_eq (lt_size_of_payload? hp), hp]
    rfl
  payload?_eq x hx hbared := by
    have hne (z : NodeId) (hz : z ∈ gone) : stand z ≠ y :=
      Nat.ne_of_gt (Nat.lt_of_lt_of_le hy (h.stand_new z hz))
    rw [hremoves.payload?_eq (Nat.lt_of_lt_of_le hx h.size_le), h.payload?_eq x hx hbared, Option.map_map]
    exact congrArg (Option.map · _) (funext fun q => Payload.without_without hgone hne)
  payload?_new x hx q hq := by
    by_cases hlt : x < b.size
    · rw [hremoves.payload?_eq hlt] at hq
      obtain ⟨q', hq', rfl⟩ := Option.map_eq_some_iff.mp hq
      rw [h.payload?_new x hx q' hq']
      rfl
    · exact hremoves.payload?_of_size_le (Nat.not_lt.mp hlt) hq
  hasParent_iff x hx p := by
    rw [hremoves.hasParent_iff (Nat.lt_of_lt_of_le hx h.size_le), h.hasParent_iff x hx]
    simp only [List.mem_append, List.mem_singleton, not_or]
    tauto

lemma bare (hway : ReflTransGen b.HasParent x root) (hk : b.kind? x = some .callExpression)
    (hbared : b.Bared x (.identifier "undefined") c) : a.Pruned root gone (bared ++ [x]) stand c where
  standing := by
    obtain ⟨callee, arguments, isOptional, hq⟩ := exists_call hk
    exact Withers.standing ⟨_, x, _, _, hway, hq, rfl, .name _, hbared⟩ h.standing
  size_le := hbared.size_eq ▸ h.size_le
  stand_new := h.stand_new
  payload?_bared y hy := by
    by_cases hyx : y = x
    · exact hyx ▸ hbared.payload?_target
    · rw [hbared.payload?_of_ne hyx]
      exact h.payload?_bared y (by simpa [hyx] using hy)
  payload?_eq y hy hnot := by
    simp only [List.mem_append, List.mem_singleton, not_or] at hnot
    rw [hbared.payload?_of_ne hnot.2, h.payload?_eq y hy hnot.1]
  payload?_new y hy q hq := by
    obtain rfl | hne := eq_or_ne y x
    · obtain ⟨q', hq', hkind⟩ := exists_payload hk
      rw [h.payload?_new y hy q' hq'] at hkind
      cases hkind
    · exact h.payload?_new y hy q ((hbared.payload?_of_ne hne).symm.trans hq)
  hasParent_iff y hy p := by
    rw [hbared.hasParent_iff, h.hasParent_iff y hy]
    simp only [List.mem_append, List.mem_singleton, not_or]
    tauto

lemma way_iff (hrooted : a.Rooted root) (hx : x < a.size) : ReflTransGen b.HasParent x root ↔
    ReflTransGen a.HasParent x root ∧
      ∀ y p, ReflTransGen a.HasParent x y → a.HasParent y p → y ∉ gone ∧ p ∉ bared :=
  hrooted.way_of_kept h.hasParent_iff hx

/-- Nothing that is below the root is gone. -/
lemma not_gone (hx : x < a.size) (hne : x ≠ root) (hway : ReflTransGen b.HasParent x root) :
    ∃ p, a.HasParent x p ∧ x ∉ gone ∧ p ∉ bared := by
  obtain heq | ⟨p, hp, -⟩ := hway.cases_head
  · exact absurd heq hne
  · exact ⟨p, (h.hasParent_iff x hx p).mp hp⟩

lemma payload?_of_children (hx : x < a.size) (hbared : x ∉ bared) (hchildren : ∀ y, a.HasParent y x → y ∉ gone)
    (hrooted : a.Rooted root) : b.payload? x = a.payload? x := by
  rw [h.payload?_eq x hx hbared]
  cases hq : a.payload? x with
  | none => rfl
  | some q =>
    refine congrArg some (Payload.without_eq_self fun y hy => hchildren y ?_)
    exact hrooted.firm.mem_iff.mp (childIds_eq hq ▸ hy)

lemma kind?_eq (hx : x < a.size) (hbared : x ∉ bared) : b.kind? x = a.kind? x := by
  rw [Arena.kind?_eq, Arena.kind?_eq, h.payload?_eq x hx hbared, Option.map_map]
  exact congrArg (Option.map · _) (funext fun q => q.kind_without ..)

end Pruned

end Arena

end PlainScript
