import PlainScript.Proofs.EditLinks

/-! What is left when nodes have taken the place of another one. -/
namespace PlainScript

open Relation Function Arena

namespace Arena

/-- The root is the same, and nodes other than `target` still have all their comments. -/
structure Kept (target : NodeId) (a b : Arena) : Prop where
  root_eq : b.root = a.root
  leading_suffix : ∀ x, x ≠ target → a.leadingOf x <:+ b.leadingOf x

namespace Kept

variable {a b c : Arena} {target : NodeId}

lemma refl (target : NodeId) (a : Arena) : Kept target a a := ⟨rfl, fun _ _ => List.suffix_rfl⟩

lemma trans (h : Kept target a b) (h' : Kept target b c) : Kept target a c :=
  ⟨h'.root_eq.trans h.root_eq, fun x hx => (h.leading_suffix x hx).trans (h'.leading_suffix x hx)⟩

instance : IsPreorder Arena (Kept target) where
  refl := refl target
  trans _ _ _ := trans

lemma modify {id : NodeId} {f : Cell → Cell} (h : id = target ∨ ∀ c, c.leading <:+ (f c).leading)
    (a : Arena) : Kept target a (a.modify id f) := by
  refine ⟨rfl, fun x hx => ?_⟩
  by_cases hid : id = x
  · have hf := h.resolve_left (hid ▸ hx)
    cases hcell : a.cell? x with
    | none => simp [leadingOf, hid, hcell]
    | some cell => simpa [leadingOf, hid, hcell] using hf cell
  · simp [leadingOf, hid]

lemma push (target : NodeId) (a : Arena) (cell : Cell) : Kept target a (a.push cell) := by
  refine ⟨rfl, fun x _ => ?_⟩
  by_cases hx : x = a.size
  · subst hx; simp [leadingOf, cell?_eq_none]
  · simp [leadingOf, hx]

lemma rewires (target : NodeId) : Edit.Rewires (Kept target) where
  parent a _ parent := modify (f := fun c => { c with parent }) (.inr fun _ => List.suffix_rfl) a
  payload a _ g := modify (f := fun c => { c with payload := g c.payload }) (.inr fun _ => List.suffix_rfl) a

end Kept

end Arena

namespace Edit

lemma Ensures.and {α : Type} {e : Edit α} {a : Arena} {P P' : α → Arena → Prop} {failed failed' : Arena → Prop}
    (h : e.Ensures a P failed) (h' : e.Ensures a P' failed') :
    e.Ensures a (fun r b => P r b ∧ P' r b) fun b => failed b ∧ failed' b := by
  unfold Ensures at h h' ⊢
  split <;> simp_all

section Kept

variable {target : NodeId}

lemma keeps_add {payload : Payload NodeId} {position : Position} : (add payload position).Preserves (Kept target) :=
  preserves_get.bind fun _ => .bind (preserves_change fun a => .push target a _) fun _ =>
    .bind (Kept.rewires target).adoptChildren fun _ => preserves_pure _

/-- Only the comments of the source go. -/
lemma keeps_moveLeading {source replacement : NodeId} : (moveLeading source replacement).Preserves (Kept source) := by
  refine (preserves_ask _).bind fun _ => preserves_ite ?_ (preserves_pure _)
  refine .bind ((preserves_ask _).bind fun _ => preserves_pure _) fun _ => ?_
  exact .bind (preserves_change (.modify (.inr fun c => List.suffix_append _ c.leading))) fun _ =>
    preserves_change (.modify (.inl rfl))

lemma keeps_replaceWith {target replacement : NodeId} :
    (replaceWith target replacement).Preserves (Kept target) := by
  have h := Kept.rewires target
  unfold replaceWith
  refine preserves_ite (.bind h.unlink fun _ => ?_) (preserves_pure _)
  refine (preserves_ask _).bind fun _ => .bind h.splice fun _ => ?_
  exact .bind h.setParent fun _ => .bind h.setParent fun _ => keeps_moveLeading

lemma keeps_replaceWithMany {target : NodeId} {rs : List NodeId} :
    (replaceWithMany target rs).Preserves (Kept target) := by
  have h := Kept.rewires target
  unfold replaceWithMany
  refine .bind (preserves_forIn fun r _ => .bind h.unlink fun _ => preserves_pure _) fun _ =>
    (preserves_ask _).bind fun x => ?_
  extract_lets last
  have hlast (u : PUnit) : (last u).Preserves (Kept target) := by
    refine .bind h.setParent fun _ => ?_
    cases rs with
    | nil => exact preserves_pure _
    | cons first rest => exact keeps_moveLeading
  refine preserves_ite (.bind h.splice fun _ => ?_) (preserves_ite ?_ ?_)
  · exact .bind (preserves_forIn fun r _ => .bind h.setParent fun _ => preserves_pure _) hlast
  · refine (preserves_ask _).bind fun _ => .bind keeps_add fun _ => ?_
    exact .bind h.splice fun _ => .bind h.setParent hlast
  · exact (preserves_ask _).bind fun _ => .bind (preserves_throw _) hlast

lemma keeps_remove {id : NodeId} : (remove id).Preserves (Kept target) := by
  have h := Kept.rewires target
  have hlast : (setParent id none).Preserves (Kept target) := h.setParent
  unfold remove
  refine (preserves_ask _).bind fun x => ?_
  dsimp only
  split
  · refine (preserves_ask _).bind fun _ => .bind keeps_add fun _ => ?_
    exact .bind h.splice fun _ => .bind h.setParent fun _ => hlast
  · exact (preserves_ask _).bind fun _ => (preserves_ask _).bind fun _ =>
      (preserves_throw _).bind fun _ => hlast
  · exact .bind h.splice fun _ => hlast

end Kept

end Edit

namespace Arena

/-- The nodes `new` stand in the place of a child of `p`, of which `payload` is left. They are the nodes
`moved`, or one new node around these. Other nodes only lost children that are among `moved`. -/
structure Replaced (a : Arena) (target p : NodeId) (payload : Payload NodeId) (moved new : List NodeId)
    (b : Arena) : Prop where
  firm : Firm b.parentOf b.childIds
  kept : Kept target a b
  parentOf_eq : ∀ c, b.parentOf c =
    if c ∈ new then some p else if c ∈ moved then some a.size else if c = target then none else a.parentOf c
  payload?_place : b.payload? p = some payload
  payload?_eq : ∀ q < a.size, q ≠ p → (∀ r ∈ moved, a.parentOf r ≠ some q) → b.payload? q = a.payload? q
  filling : new = moved ∧ b.size = a.size ∨ new = [a.size] ∧ b.size = a.size + 1 ∧
    (b.payload? a.size = some (.blockStatement (moved.map some)) ∨
      moved = [] ∧ b.payload? a.size = some .emptyStatement)

lemma Replaced.size_le {a b : Arena} {target p : NodeId} {payload : Payload NodeId} {moved new : List NodeId}
    (h : a.Replaced target p payload moved new b) : a.size ≤ b.size := by
  obtain ⟨-, hs⟩ | ⟨-, hs, -⟩ := h.filling <;> omega

/-- A node that is below another one does not stand next to it. -/
lemma Firm.parentOf_ne {a : Arena} (h : Firm a.parentOf a.childIds) {target p r : NodeId}
    (hp : a.parentOf target = some p) (hr : TransGen a.HasParent r target) : a.parentOf r ≠ some p := by
  intro hrp
  obtain ⟨q, hq, hway⟩ := TransGen.head'_iff.mp hr
  obtain rfl : p = q := Option.some.inj (hrp.symm.trans hq)
  exact h.acyclic target (.head' hp hway)

end Arena

namespace Edit

section Replaced

variable {a : Arena} {target p : NodeId} {payload : Payload NodeId} {place : Payload.Place}

lemma ensures_of_kept (target : NodeId) {e : Edit Unit} {Q : Arena → Prop}
    (hfirm : e.Ensures a (fun _ b => Firm b.parentOf b.childIds) fun b => Firm b.parentOf b.childIds)
    (hkept : e.Preserves (Kept target))
    (h : e.Ensures a (fun _ b => Firm b.parentOf b.childIds → Kept target a b → Q b) fun _ => False) :
    e.Ensures a (fun _ b => Q b) fun _ => False :=
  ((hfirm.and (hkept a)).and h).mono (fun _ _ hb => hb.2 hb.1.1 hb.1.2) fun _ hb => hb.2

lemma add_leaf_ensures {leaf : Payload NodeId} (hleaf : leaf.children = []) (position : Position)
    {failed : Arena → Prop} :
    (add leaf position).Ensures a
      (fun id b => id = a.size ∧ b = a.push { payload := leaf, position }) failed := by
  refine ensures_bind (ensures_get (ensures_bind (ensures_change ?_)))
  refine ensures_bind (ensures_bind (ensures_askChildren (by simp) ?_))
  have hkids : (a.push { payload := leaf, position }).childIds a.size = [] := by
    simp [childIds, payload?_push, hleaf]
  rw [hkids]
  exact ensures_pure ⟨rfl, rfl⟩

/-- A node that is not next to `target` comes for it. -/
lemma replaceWith_comes {r : NodeId} (h : Firm a.parentOf a.childIds) (hp : a.parentOf target = some p)
    (hpay : a.payload? p = some payload) (hplace : payload.place? target = some place) (hr : r < a.size)
    (hne : target ≠ r) (hrp : a.parentOf r ≠ some p) (habove : ¬ TransGen a.HasParent target r) :
    (replaceWith target r).Ensures a (fun _ b => Firm b.parentOf b.childIds ∧ Kept target a b ∧
      b.size = a.size ∧ b.parentOf = update (update a.parentOf r (some p)) target none ∧
      b.payload? p = some (payload.splice place [r]) ∧
      ∀ q, q ≠ p → a.parentOf r ≠ some q → b.payload? q = a.payload? q) fun _ => False := by
  have ht : target < a.size := lt_size_of_parentOf hp
  refine ensures_of_kept target (replaceWith_ensures h ht hr habove) keeps_replaceWith ?_
  unfold replaceWith
  rw [if_pos (by simpa using hne)]
  refine ensures_bind ((unlink_releases h hr).mono (fun _ b hb => ?_) fun _ => id)
  have hs := hb.size_eq
  have hpb : b.parentOf target = some p := by rw [hb.parentOf_of_notMem (by simpa using hne), hp]
  have hpayb : b.payload? p = some payload := by rw [hb.payload?_of_far h (by simpa using hrp), hpay]
  refine ensures_bind (ensures_located hpb hpayb hplace ?_)
  refine ensures_bind (ensures_splice hpayb fun b₁ hs₁ hp₁ hk₁ => ?_)
  have hr₁ : r < b₁.size := by rwa [hs₁, hs]
  have ht₁ : target < b₁.size := by rwa [hs₁, hs]
  refine ensures_bind (ensures_setParent hr₁ fun b₂ hs₂ hp₂ hk₂ => ?_)
  refine ensures_bind (ensures_setParent (hs₂ ▸ ht₁) fun b₃ hs₃ hp₃ hk₃ => ?_)
  apply moveLeading_ensures (hs₃ ▸ hs₂ ▸ ht₁) (hs₃ ▸ hs₂ ▸ hr₁)
  intro b₄ hs₄ hp₄ hk₄ hfirm hkept
  have hk : b₄.payload? = update b.payload? p (some (payload.splice place [r])) := by
    rw [hk₄, hk₃, hk₂, hk₁]
  refine ⟨hfirm, hkept, by rw [hs₄, hs₃, hs₂, hs₁, hs], ?_, by simp [hk], fun q hqp hq => ?_⟩
  · have hparent : b.parentOf = update a.parentOf r none := funext fun x => by
      rw [hb.parentOf_eq, parentWithout, update_apply]
      simp
    rw [hp₄, hp₃, hp₂, hp₁, hparent, update_idem]
  · rw [hk, update_of_ne hqp, hb.payload?_of_far h (by simpa using hq)]

section Steps

variable (h : Firm a.parentOf a.childIds) (hp : a.parentOf target = some p)
  (hpay : a.payload? p = some payload) (hplace : payload.place? target = some place)
include h hp hpay hplace

/-- A node from below the target comes for it. -/
lemma replaceWith_replaces {r : NodeId} (hr : TransGen a.HasParent r target) :
    (replaceWith target r).Ensures a
      (fun _ b => a.Replaced target p (payload.splice place [r]) [r] [r] b) fun _ => False := by
  obtain ⟨q, hq, -⟩ := TransGen.head'_iff.mp hr
  have hne : target ≠ r := by
    rintro rfl
    exact h.acyclic _ hr
  refine (replaceWith_comes h hp hpay hplace (lt_size_of_parentOf hq) hne (h.parentOf_ne hp hr)
    fun hway => h.acyclic r (hr.trans hway)).mono ?_ fun _ => id
  rintro _ b ⟨hfirm, hkept, hs, hparent, hplaced, hothers⟩
  refine ⟨hfirm, hkept, fun c => ?_, hplaced, fun q _ hqp hq => hothers q hqp (hq r (by simp)), .inl ⟨rfl, hs⟩⟩
  rw [hparent]
  by_cases hc : c = r
  · subst hc; simp [hne.symm]
  · by_cases hct : c = target <;> simp [hc, hct, hne]

/-- A new block around nodes from below the target comes for it. -/
lemma replaceWith_block_replaces {rs : List NodeId} (hnodup : rs.Nodup)
    (hr : ∀ r ∈ rs, TransGen a.HasParent r target) (position : Position) :
    (do
      let block ← add (.blockStatement (rs.map some)) position
      replaceWith target block : Edit Unit).Ensures a
      (fun _ b => a.Replaced target p (payload.splice place [a.size]) rs [a.size] b ∧
        b.payload? a.size = some (.blockStatement (rs.map some))) fun _ => False := by
  have hblock := children_blockStatement rs
  have hlt (r : NodeId) (hm : r ∈ rs) : r < a.size := by
    obtain ⟨q, hq, -⟩ := TransGen.head'_iff.mp (hr r hm)
    exact lt_size_of_parentOf hq
  have ht : target < a.size := lt_size_of_parentOf hp
  have hps : p < a.size := h.parent_lt hp
  have htrs : target ∉ rs := fun hm => h.acyclic _ (hr _ hm)
  have hnew : a.size ∉ rs := fun hm => Nat.lt_irrefl _ (hlt _ hm)
  have hkeeps : (add (.blockStatement (rs.map some)) position).Preserves (Kept target) := keeps_add
  refine ensures_bind (((add_adopts position h (by rwa [hblock]) (by rwa [hblock])).and
    (hkeeps a)).mono ?_ fun _ hb => hb.1)
  rintro _ b ⟨⟨rfl, hfirm, hs, hparent, hfresh, hothers⟩, hkept⟩
  rw [hblock] at hparent hothers
  have hpb : b.parentOf target = some p := by simp [hparent, htrs, hp]
  have hpayb : b.payload? p = some payload :=
    (hothers p hps fun r hm => h.parentOf_ne hp (hr r hm)).trans hpay
  have hfree : b.parentOf a.size = none := by simp [hparent, hnew, parentOf_of_size_le]
  have habove : ¬ TransGen b.HasParent target a.size := by
    have hplace : ∀ r ∈ rs, ¬ ReflTransGen (a.parentOf · = some ·) p r := fun r hm hway =>
      h.acyclic r ((hr r hm).trans_left (.head hp hway))
    intro hway
    obtain ⟨q, hq, hway⟩ := TransGen.head'_iff.mp hway
    obtain rfl : p = q := Option.some.inj (hpb.symm.trans hq)
    exact not_above_wrapped h hps hplace hparent hway
  refine (replaceWith_comes hfirm hpb hpayb hplace (hs ▸ Nat.lt_succ_self a.size) (Nat.ne_of_lt ht) (by simp [hfree])
    habove).mono ?_ fun _ => id
  rintro _ d ⟨hfirm', hkept', hs', hparent', hplaced, hothers'⟩
  have hblock : d.payload? a.size = some (.blockStatement (rs.map some)) := by
    rw [hothers' a.size (Nat.ne_of_gt hps) (by simp [hfree]), hfresh]
  refine ⟨⟨hfirm', hkept.trans hkept', fun c => ?_, hplaced, fun q hq hqp hfar => ?_,
    .inr ⟨rfl, by omega, .inl hblock⟩⟩, hblock⟩
  · rw [hparent']
    by_cases hct : c = target
    · subst hct; simp [htrs, Nat.ne_of_lt ht]
    · by_cases hc : c = a.size
      · subst hc; simp [Nat.ne_of_gt ht]
      · simp [hct, hc, hparent]
  · rw [hothers' q hqp (by simp [hfree]), hothers q hq hfar]

/-- In a list, nodes from below the target come for it. -/
lemma replaceWithMany_replaces (hi : place.index.isSome) {rs : List NodeId} (hnodup : rs.Nodup)
    (hr : ∀ r ∈ rs, TransGen a.HasParent r target) :
    (replaceWithMany target rs).Ensures a
      (fun _ b => a.Replaced target p (payload.splice place rs) rs rs b) fun _ => False := by
  have ht : target < a.size := lt_size_of_parentOf hp
  have hrs (r : NodeId) (hm : r ∈ rs) : r < a.size := by
    obtain ⟨q, hq, -⟩ := TransGen.head'_iff.mp (hr r hm)
    exact lt_size_of_parentOf hq
  have htrs : target ∉ rs := fun hm => h.acyclic _ (hr _ hm)
  refine ensures_of_kept target (replaceWithMany_ensures h ht hrs hnodup fun r hm hway =>
    h.acyclic r ((hr r hm).trans hway)) keeps_replaceWithMany ?_
  unfold replaceWithMany
  refine ensures_bind ((gather_releases h hrs).mono (fun _ b hb => ?_) fun _ => id)
  have hs := hb.size_eq
  have hpb : b.parentOf target = some p := by rw [hb.parentOf_of_notMem htrs, hp]
  have hpayb : b.payload? p = some payload := by
    rw [hb.payload?_of_far h fun r hm => h.parentOf_ne hp (hr r hm), hpay]
  refine ensures_bind (ensures_located hpb hpayb hplace ?_)
  dsimp only
  rw [if_pos hi]
  refine ensures_bind (ensures_splice hpayb fun b₁ hs₁ hp₁ hk₁ => ?_)
  refine ensures_bind ((setParents_relinks (by rwa [hs₁, hs])).mono (fun _ b₂ hb₂ => ?_) fun _ => id)
  have hk₂ := funext hb₂.payload?_eq
  have hle : b₂.size = a.size := by rw [hb₂.size_eq, hs₁, hs]
  refine ensures_bind (ensures_setParent (hle ▸ ht) fun b₃ hs₃ hp₃ hk₃ => ?_)
  have hlast (d : Arena) (hds : d.size = b₃.size) (hdp : d.parentOf = b₃.parentOf)
      (hdk : d.payload? = b₃.payload?) (hfirm : Firm d.parentOf d.childIds) (hkept : Kept target a d) :
      a.Replaced target p (payload.splice place rs) rs rs d := by
    have hdk : d.payload? = update b.payload? p (some (payload.splice place rs)) := by
      rw [hdk, hk₃, hk₂, hk₁]
    refine ⟨hfirm, hkept, fun c => ?_, by simp [hdk], fun q _ hqp hq => ?_, .inl ⟨rfl, by rw [hds, hs₃, hle]⟩⟩
    · rw [hdp, hp₃]
      by_cases hct : c = target
      · subst hct; simp [htrs]
      · rw [update_of_ne hct, hb₂.parentOf_eq, hp₁, if_neg hct]
        by_cases hc : c ∈ rs
        · simp [hc]
        · simp [hc, hb.parentOf_of_notMem hc]
    · rw [hdk, update_of_ne hqp, hb.payload?_of_far h hq]
  cases rs with
  | nil => exact ensures_pure (hlast b₃ rfl rfl rfl)
  | cons first rest =>
    exact moveLeading_ensures (hs₃ ▸ hle ▸ ht) (hs₃ ▸ hle ▸ hrs first (by simp)) fun d => hlast d

/-- What is removed leaves nothing behind, or an empty statement where there must be one. -/
lemma remove_replaces (hrole : place.role ≠ .expression) :
    (remove target).Ensures a (fun _ b => ∃ new, a.Replaced target p (payload.splice place new) [] new b ∧
      (place.role ≠ .statement ∧ new = [] ∨
        place.role = .statement ∧ new = [a.size] ∧ b.payload? a.size = some .emptyStatement))
      fun _ => False := by
  have ht : target < a.size := lt_size_of_parentOf hp
  have hps : p < a.size := h.parent_lt hp
  refine ensures_of_kept target (remove_ensures h ht) keeps_remove ?_
  unfold remove
  refine ensures_bind (ensures_located hp hpay hplace ?_)
  dsimp only
  split
  next hstatement =>
    refine ensures_bind (ensures_askCell ht fun cell _ => ?_)
    refine ensures_bind ((add_leaf_ensures rfl cell.position).mono ?_ fun _ => id)
    rintro _ _ ⟨rfl, rfl⟩
    have hpayb := (congrFun (payload?_push a { payload := .emptyStatement, position := cell.position }) p).trans
      ((update_of_ne (Nat.ne_of_lt hps) ..).trans hpay)
    refine ensures_bind (ensures_splice hpayb fun b₁ hs₁ hp₁ hk₁ => ?_)
    refine ensures_bind (ensures_setParent (by simp [hs₁]) fun b₂ hs₂ hp₂ hk₂ => ?_)
    refine ensures_setParent (by simpa [hs₂, hs₁] using Nat.lt_succ_of_lt ht) fun b₃ hs₃ hp₃ hk₃ hfirm hkept => ?_
    have hsize : b₃.size = a.size + 1 := by rw [hs₃, hs₂, hs₁, size_push]
    have hk : b₃.payload? = update (update a.payload? a.size (some .emptyStatement)) p
        (some (payload.splice place [a.size])) := by rw [hk₃, hk₂, hk₁, payload?_push]
    have hnew : b₃.payload? a.size = some .emptyStatement := by
      rw [hk, update_of_ne (Nat.ne_of_gt hps), update_self]
    refine ⟨[a.size], ⟨hfirm, hkept, fun c => ?_, by simp [hk], fun q hqs hqp _ => ?_,
      .inr ⟨rfl, hsize, .inr ⟨rfl, hnew⟩⟩⟩, .inr ⟨hstatement, rfl, hnew⟩⟩
    · rw [hp₃, hp₂, hp₁, parentOf_push a rfl]
      by_cases hct : c = target
      · simp [hct, Nat.ne_of_lt ht]
      · simp [hct, update_apply]
    · rw [hk, update_of_ne hqp, update_of_ne (Nat.ne_of_lt hqs)]
  next hexpression => exact absurd hexpression hrole
  next hstatement _ =>
    refine ensures_bind (ensures_splice hpay fun b₁ hs₁ hp₁ hk₁ => ?_)
    refine ensures_setParent (hs₁ ▸ ht) fun b₂ hs₂ hp₂ hk₂ hfirm hkept => ⟨[], ?_, .inl ⟨hstatement, rfl⟩⟩
    refine ⟨hfirm, hkept, fun c => ?_, by simp [hk₂, hk₁], fun q _ hqp _ => ?_, .inl ⟨rfl, by rw [hs₂, hs₁]⟩⟩
    · simp [hp₂, hp₁, update_apply]
    · rw [hk₂, hk₁, update_of_ne hqp]

end Steps

end Replaced

end Edit

end PlainScript
