import PlainScript.Proofs.Links

/-! Edits keep an arena linked. Every edit is taken apart into nodes that leave their slots, and nodes
without a parent that are put into slots. -/
namespace PlainScript

open Relation Function

namespace Edit

/-- What an edit answers satisfies `post`, and what it leaves behind when it fails `failed`. -/
def Ensures {α : Type} (e : Edit α) (a : Arena) (post : α → Arena → Prop)
    (failed : Arena → Prop) : Prop :=
  match e.run a with
  | .ok r b => post r b
  | .error _ b => failed b

/-- The arena after an edit, whether it succeeds or fails. -/
def after {α : Type} (e : Edit α) (a : Arena) : Arena :=
  match e.run a with
  | .ok _ b => b
  | .error _ b => b

section Ensures

variable {α β : Type} {e : Edit α} {a : Arena} {post : α → Arena → Prop} {failed : Arena → Prop}

lemma ensures_bind {f : α → Edit β} {post : β → Arena → Prop}
    (h : e.Ensures a (fun r b => (f r).Ensures b post failed) failed) :
    (e >>= f).Ensures a post failed := by
  unfold Ensures at h ⊢
  rw [EStateM.run_bind]
  cases hr : e.run a <;> rw [hr] at h <;> exact h

lemma Ensures.mono {post' : α → Arena → Prop} {failed' : Arena → Prop}
    (h : e.Ensures a post failed) (hpost : ∀ r b, post r b → post' r b)
    (hfailed : ∀ b, failed b → failed' b) : e.Ensures a post' failed' := by
  unfold Ensures at h ⊢
  split at h
  · exact hpost _ _ h
  · exact hfailed _ h

lemma Ensures.after {inv : Arena → Prop} (h : e.Ensures a (fun _ => inv) inv) : inv (e.after a) := by
  unfold Ensures at h
  unfold Edit.after
  split <;> simpa [*] using h

lemma ensures_pure {r : α} (h : post r a) : (pure r : Edit α).Ensures a post failed := h

lemma ensures_throw {err : ArenaError} (h : failed a) : (throw err : Edit α).Ensures a post failed :=
  h

lemma ensures_ask {question : Arena → Except ArenaError α} {r : α} (hq : question a = .ok r)
    (h : post r a) : (ask question).Ensures a post failed := by
  simp only [Ensures, ask, EStateM.run, hq]
  exact h

lemma ensures_get {post : Arena → Arena → Prop} (h : post a a) :
    (get : Edit Arena).Ensures a post failed := h

lemma ensures_change {f : Arena → Arena} {post : Unit → Arena → Prop} (h : post () (f a)) :
    (change f).Ensures a post failed := h

/-- A loop keeps an invariant that knows which elements are still to come. -/
lemma ensures_forIn {xs : List α} {body : α → PUnit → Edit (ForInStep PUnit)}
    (inv : List α → Arena → Prop)
    (hbody : ∀ x rest b, inv (x :: rest) b →
      (body x ⟨⟩).Ensures b (fun r d => r = .yield ⟨⟩ ∧ inv rest d) failed)
    (h : inv xs a) : (forIn xs ⟨⟩ body).Ensures a (fun _ => inv []) failed := by
  induction xs generalizing a with
  | nil => exact h
  | cons x rest ih =>
    rw [List.forIn_cons]
    refine ensures_bind ((hbody x rest a h).mono ?_ fun _ => id)
    rintro _ b ⟨rfl, hb⟩
    exact ih hb

end Ensures

/-! ### Single steps -/

section Steps

variable {a : Arena} {c : NodeId} {failed : Arena → Prop}

lemma ensures_askParent {post : Option NodeId → Arena → Prop} (hc : c < a.size)
    (h : post (a.parentOf c) a) : (ask (·.parent c)).Ensures a post failed :=
  ensures_ask (Arena.parent_eq_ok hc) h

lemma ensures_askCell {post : Cell → Arena → Prop} (hc : c < a.size)
    (h : ∀ cell, a.cell? c = some cell → post cell a) : (ask (·.cell c)).Ensures a post failed := by
  obtain ⟨cell, hcell⟩ := Arena.exists_cell hc
  exact ensures_ask (by simp [Arena.cell, hcell]) (h cell hcell)

lemma ensures_askKind {post : Kind → Arena → Prop} (hc : c < a.size) (h : ∀ k, post k a) :
    (ask (·.kind c)).Ensures a post failed := by
  obtain ⟨cell, hcell⟩ := Arena.exists_cell hc
  exact ensures_ask (r := cell.kind) (by simp [Arena.kind, Arena.cell, hcell, Except.map]) (h _)

lemma ensures_askChildren {post : List NodeId → Arena → Prop} (hc : c < a.size)
    (h : post (a.childIds c) a) : (ask (·.children c)).Ensures a post failed :=
  ensures_ask (Arena.children_eq_ok hc) h

lemma ensures_setParent {post : Unit → Arena → Prop} {p : Option NodeId} (hc : c < a.size)
    (h : ∀ b : Arena, b.size = a.size → b.parentOf = update a.parentOf c p →
      b.payload? = a.payload? → post () b) : (setParent c p).Ensures a post failed :=
  ensures_change (h _ (Arena.size_modify ..) (Arena.parentOf_setParent hc p)
    (Arena.payload?_setParent a c p))

lemma ensures_changePayload {post : Unit → Arena → Prop} {p : NodeId} {payload : Payload NodeId}
    (f : Payload NodeId → Payload NodeId) (hp : a.payload? p = some payload)
    (h : ∀ b : Arena, b.size = a.size → b.parentOf = a.parentOf →
      b.payload? = update a.payload? p (some (f payload)) → post () b) :
    (change (·.modify p fun c => { c with payload := f c.payload })).Ensures a post failed :=
  ensures_change (h _ (Arena.size_modify ..) (Arena.parentOf_modifyPayload a p f)
    (Arena.payload?_modifyPayload hp f))

lemma ensures_splice {post : Unit → Arena → Prop} {p : NodeId} {payload : Payload NodeId}
    {place : Payload.Place} {rs : List NodeId} (hp : a.payload? p = some payload)
    (h : ∀ b : Arena, b.size = a.size → b.parentOf = a.parentOf →
      b.payload? = update a.payload? p (some (payload.splice place rs)) → post () b) :
    (splice p place rs).Ensures a post failed :=
  ensures_changePayload (·.splice place rs) hp h

/-- A child is located at its place. -/
lemma ensures_located {post : NodeId × Payload.Place → Arena → Prop} {p : NodeId} {payload : Payload NodeId}
    {place : Payload.Place} (hp : a.parentOf c = some p) (hpay : a.payload? p = some payload)
    (hplace : payload.place? c = some place) (h : post (p, place) a) : (locate c).Ensures a post failed := by
  obtain ⟨cell, hcell, hparent⟩ := Option.bind_eq_some_iff.mp hp
  obtain ⟨holder, hholder, rfl⟩ := Option.map_eq_some_iff.mp hpay
  refine ensures_ask (r := (p, place)) ?_ h
  simp [Arena.cell, hcell, hparent, hholder, hplace, bind, Except.bind, pure, Except.pure]

/-- A node is located in a slot of its parent; a detached one is not. -/
lemma ensures_locate {post : NodeId × Payload.Place → Arena → Prop} (hc : c < a.size)
    (hheld : ∀ p, a.parentOf c = some p → c ∈ a.childIds p)
    (hdetached : a.parentOf c = none → failed a)
    (h : ∀ p payload place, a.parentOf c = some p → a.payload? p = some payload →
      payload.place? c = some place → post (p, place) a) :
    (locate c).Ensures a post failed := by
  obtain ⟨cell, hcell⟩ := Arena.exists_cell hc
  have hparent : a.parentOf c = cell.parent := by simp [Arena.parentOf, hcell]
  cases hp : cell.parent with
  | none =>
    have hrun : (locate c).run a = .error (.detached cell.kind) a := by
      simp [locate, ask, EStateM.run, Arena.cell, hcell, hp, bind, Except.bind, throw,
        throwThe, MonadExceptOf.throw]
    simp only [Ensures, hrun]
    exact hdetached (hparent.trans hp)
  | some p =>
    rw [hp] at hparent
    have hmem := hheld p hparent
    obtain ⟨holder, hholder⟩ := Arena.exists_cell (Arena.lt_size_of_mem_childIds hmem)
    have hpayload : a.payload? p = some holder.payload := by simp [Arena.payload?, hholder]
    rw [Arena.childIds_eq hpayload] at hmem
    obtain ⟨place, hplace⟩ := Payload.exists_place hmem
    exact ensures_located hparent hpayload hplace (h p _ place hparent hpayload hplace)

end Steps

end Edit

namespace Arena

/-- What is left after a node was taken out of its slot. -/
structure Unlinked (a : Arena) (c : NodeId) (b : Arena) : Prop where
  size_eq : b.size = a.size
  parentOf_eq : b.parentOf = update a.parentOf c none
  childIds_eq : b.childIds =
    fun p => if a.parentOf c = some p then (a.childIds p).erase c else a.childIds p
  payload?_eq : ∀ p, a.parentOf c ≠ some p → b.payload? p = a.payload? p

end Arena

namespace Edit

open Arena

lemma unlink_ensures {a : Arena} {c : NodeId} {failed : Arena → Prop} (hc : c < a.size)
    (hnodup : ∀ p, (a.childIds p).Nodup) (hheld : ∀ p, a.parentOf c = some p → c ∈ a.childIds p) :
    (unlink c).Ensures a (fun _ b => a.Unlinked c b) failed := by
  refine ensures_bind (ensures_askParent hc ?_)
  cases hp : a.parentOf c with
  | none => exact ensures_pure ⟨rfl, by rw [← hp, update_eq_self], by simp [hp], fun _ _ => rfl⟩
  | some p =>
    refine ensures_bind (ensures_locate hc hheld (by simp [hp]) fun q payload place hq hpay hplace => ?_)
    obtain rfl : p = q := by simpa [hp] using hq
    obtain ⟨before, after, hkids, hsplice⟩ := Payload.children_splice hplace
    refine ensures_bind (ensures_splice hpay fun b hs hb hk => ?_)
    refine ensures_setParent (hs ▸ hc) fun d hds hd hdk => ⟨hds.trans hs, by rw [hd, hb], ?_, ?_⟩
    · have hnew := hsplice []
      rw [childIds_update (hdk.trans hk), hnew]
      funext r
      rw [hp]
      by_cases hr : r = p
      · subst hr
        have hn := hnodup r
        rw [childIds_eq hpay, hkids] at hn ⊢
        have hc : c ∉ before := fun h => (List.nodup_append'.mp hn).2.2 h (by simp)
        simp [List.erase_append_right _ hc]
      · simp [hr, Ne.symm hr]
    · intro q hq
      rw [hdk, hk, update_of_ne (by simpa [hp, eq_comm] using hq)]

/-- What is left after a node became the parent of some nodes. -/
structure Adopted (a : Arena) (p : NodeId) (cs : List NodeId) (b : Arena) : Prop where
  size_eq : b.size = a.size
  parentOf_eq : b.parentOf = fun c => if c ∈ cs then some p else a.parentOf c
  payload?_eq : ∀ q, (∀ c ∈ cs, a.parentOf c = some q → q = p) → b.payload? q = a.payload? q

/-- The state of an adoption when the children `pending` are still to come. -/
structure Adopting (a : Arena) (p : NodeId) (pending : List NodeId) (b : Arena) : Prop where
  tied : Tied (fun q c => q = p ∧ c ∈ pending) (fun _ _ => False) b.parentOf b.childIds
  size_eq : b.size = a.size
  childIds_eq : b.childIds p = a.childIds p
  above : ∀ c ∈ pending, ¬ ReflTransGen (b.parentOf · = some ·) p c
  pending_suffix : pending <:+ a.childIds p
  parentOf_eq : ∀ c, c ∉ pending →
    b.parentOf c = if c ∈ a.childIds p then some p else a.parentOf c
  parentOf_pending : ∀ c ∈ pending, ∀ q, b.parentOf c = some q → a.parentOf c = some q
  payload?_eq : ∀ q, (∀ c ∈ a.childIds p, a.parentOf c = some q → q = p) →
    b.payload? q = a.payload? q

/-- One child is adopted, once it has left the slot of another node. -/
lemma Adopting.step {a b d : Arena} {p c : NodeId} {rest : List NodeId}
    (h : Adopting a p (c :: rest) b) (hnodup : (a.childIds p).Nodup)
    (hfree : ∀ q, b.parentOf c = some q → q = p) (hs : d.size = b.size)
    (hd : d.parentOf = update b.parentOf c (some p)) (hk : d.payload? = b.payload?) :
    Adopting a p rest d := by
  have hc : c ∈ a.childIds p := h.pending_suffix.subset (by simp)
  have hchildIds : d.childIds = b.childIds := childIds_congr hk
  have hup : ∀ x y, d.parentOf x = some y → b.parentOf x = some y ∨ x ∈ [c] ∧ y = p := by
    intro x y hx
    rw [hd] at hx
    by_cases hxc : x = c
    · subst hxc; exact .inr ⟨by simp, by simpa [eq_comm] using hx⟩
    · exact .inl (by rwa [update_of_ne hxc] at hx)
  have hrest : c ∉ rest := (List.nodup_cons.mp (hnodup.sublist h.pending_suffix.sublist)).1
  refine ⟨?_, hs.trans h.size_eq, by rw [hchildIds, h.childIds_eq], fun x hx => ?_, ?_,
    fun x hx => ?_, fun x hx q hq => ?_, fun q hq => by rw [hk, h.payload?_eq q hq]⟩
  · rw [hd, hchildIds]
    exact h.tied.adopt (h.childIds_eq ▸ hc) hfree (h.above c (by simp))
  · exact not_above_of_hung hup (by simpa using h.above c (by simp)) (h.above x (by simp [hx]))
  · exact (List.suffix_cons c rest).trans h.pending_suffix
  · rw [hd]
    by_cases hxc : x = c
    · subst hxc; simp [hc]
    · rw [update_of_ne hxc, h.parentOf_eq x (by simp [hxc, hx])]
  · rw [hd, update_of_ne (ne_of_mem_of_not_mem hx hrest)] at hq
    exact h.parentOf_pending x (by simp [hx]) q hq

/-- A child of another node leaves its slot there. -/
lemma Adopting.unlinked {a b d : Arena} {p q c : NodeId} {rest : List NodeId}
    (h : Adopting a p (c :: rest) b) (hd : b.Unlinked c d) (hq : b.parentOf c = some q)
    (hqp : q ≠ p) : Adopting a p (c :: rest) d := by
  have hup : ∀ x y, d.parentOf x = some y → b.parentOf x = some y := by
    intro x y hx
    rw [hd.parentOf_eq] at hx
    by_cases hxc : x = c
    · subst hxc; simp at hx
    · rwa [update_of_ne hxc] at hx
  refine ⟨?_, hd.size_eq.trans h.size_eq, ?_, fun x hx hpx => h.above x hx (way_mono hup hpx),
    h.pending_suffix, fun x hx => ?_, fun x hx r hr => h.parentOf_pending x hx r (hup x r hr),
    fun r hr => ?_⟩
  · rw [hd.parentOf_eq, hd.childIds_eq]
    exact h.tied.unlink c
  · simp [hd.childIds_eq, hq, hqp, h.childIds_eq]
  · rw [hd.parentOf_eq, update_of_ne (fun hxc => hx (by simp [hxc])), h.parentOf_eq x hx]
  · refine (hd.payload?_eq r fun hcr => ?_).trans (h.payload?_eq r hr)
    obtain rfl : q = r := by simpa [hq] using hcr
    exact hqp (hr c (h.pending_suffix.subset (by simp)) (h.parentOf_pending c (by simp) q hq))

/-- The children of a node are adopted from the slots that held them before. -/
lemma adoptChildren_ensures {a : Arena} {p : NodeId} {failed : Arena → Prop} (hp : p < a.size)
    (h : Tied (fun q _ => q = p) (fun _ _ => False) a.parentOf a.childIds)
    (hexists : ∀ c ∈ a.childIds p, c < a.size)
    (habove : ∀ c ∈ a.childIds p, ¬ ReflTransGen (a.parentOf · = some ·) p c) :
    (adoptChildren p).Ensures a
      (fun _ b => Firm b.parentOf b.childIds ∧ Adopted a p (a.childIds p) b) failed := by
  refine ensures_bind (ensures_askChildren hp ?_)
  have hnodup : (a.childIds p).Nodup := h.nodup p
  refine ensures_bind ((ensures_forIn (Adopting a p) (fun c rest b hb => ?_) ?_).mono ?_
    fun _ => id)
  · have hc : c < b.size := hb.size_eq ▸ hexists c (hb.pending_suffix.subset (by simp))
    refine ensures_bind (ensures_askParent hc ?_)
    have hset : ∀ d : Arena, c < d.size → Adopting a p (c :: rest) d →
        (∀ q, d.parentOf c = some q → q = p) →
        (do setParent c (some p); pure (ForInStep.yield PUnit.unit) : Edit _).Ensures d
          (fun r e => r = .yield ⟨⟩ ∧ Adopting a p rest e) failed := fun d hc hd hfree =>
      ensures_bind (ensures_setParent hc fun e hs he hk =>
        ensures_pure ⟨rfl, hd.step hnodup hfree hs he hk⟩)
    by_cases hfree : ∀ q, b.parentOf c = some q → q = p
    · rw [if_neg (by cases hq : b.parentOf c <;> simp_all)]
      exact hset b hc hb hfree
    · obtain ⟨q, hq, hqp⟩ : ∃ q, b.parentOf c = some q ∧ q ≠ p := by simpa using hfree
      rw [if_pos (by simp [hq, hqp])]
      refine ensures_bind ((unlink_ensures hc hb.tied.nodup fun r hr =>
        (hb.tied.mem_kids r c hr).resolve_right id).mono (fun _ d hd => ?_) fun _ => id)
      exact hset d (hd.size_eq ▸ hc) (hb.unlinked hd hq hqp) (by simp [hd.parentOf_eq])
  · exact ⟨⟨h.nodup, fun q c hc => (h.parent_eq q c hc).imp_right fun hq => ⟨hq, hq ▸ hc⟩,
      h.mem_kids, h.acyclic⟩, rfl, rfl, habove, List.suffix_rfl, fun c hc => by simp [hc],
      fun c _ q hq => hq, fun _ _ => rfl⟩
  · rintro _ b hb
    refine ensures_pure ⟨⟨hb.tied.nodup, fun q c hc => ?_, hb.tied.mem_kids, hb.tied.acyclic⟩,
      hb.size_eq, ?_, hb.payload?_eq⟩
    · exact (hb.tied.parent_eq q c hc).imp_right (by simp)
    · funext c
      exact hb.parentOf_eq c (by simp)

end Edit
end PlainScript
