import PlainScript.Proofs.Releases

/-! Every edit keeps an arena linked. -/
namespace PlainScript

open Relation Function Arena

namespace Edit

variable {a : Arena} {failed : Arena → Prop}

/-- What was added is linked to its children, which have left their old slots. -/
lemma add_adopts {payload : Payload NodeId} (position : Position)
    (h : Firm a.parentOf a.childIds) (hexists : ∀ c ∈ payload.children, c < a.size)
    (hnodup : payload.children.Nodup) :
    (add payload position).Ensures a (fun id b => id = a.size ∧ Firm b.parentOf b.childIds ∧
      b.size = a.size + 1 ∧
      (b.parentOf = fun c => if c ∈ payload.children then some a.size else a.parentOf c) ∧
      b.payload? a.size = some payload ∧
      ∀ q < a.size, (∀ c ∈ payload.children, a.parentOf c ≠ some q) →
        b.payload? q = a.payload? q) failed := by
  refine ensures_bind (ensures_get ?_)
  have hparent : (a.push { payload, position }).parentOf = a.parentOf := parentOf_push a rfl
  have hpayload := payload?_push a { payload, position }
  have hkids := childIds_update hpayload
  refine ensures_bind (ensures_change ?_)
  have hfree : a.parentOf a.size = none := parentOf_of_size_le (Nat.le_refl _)
  refine ensures_bind ((adoptChildren_ensures (by simp) ?_ ?_ ?_).mono ?_ fun _ => id)
  · rw [hparent, hkids]
    refine ⟨fun p => ?_, fun p c hc => ?_, fun p c hc => ?_, h.acyclic⟩
    · by_cases hp : p = a.size
      · subst hp; simpa using hnodup
      · simpa [hp] using h.nodup p
    · by_cases hp : p = a.size
      · exact .inr hp
      · exact .inl (h.mem_iff.mp (by simpa [hp] using hc))
    · have hm := h.mem_iff.mpr hc
      exact .inl (by simpa [Nat.ne_of_lt (lt_size_of_mem_childIds hm)] using hm)
  · intro c hc
    rw [hkids, update_self] at hc
    simpa using Nat.lt_succ_of_lt (hexists c hc)
  · intro c hc hup
    rw [hkids, update_self] at hc
    rw [hparent] at hup
    rcases hup.cases_head with rfl | ⟨d, hd, -⟩
    · exact Nat.lt_irrefl _ (hexists _ hc)
    · simp [hfree] at hd
  · rintro _ b ⟨hb, hs, hp, hk⟩
    rw [hkids, update_self] at hp hk
    rw [hparent] at hp
    refine ensures_pure ⟨rfl, hb, by simpa using hs, hp, ?_, fun q hq hfar => ?_⟩
    · rw [hk a.size fun _ _ _ => rfl, hpayload, update_self]
    · rw [hk q fun c hc hcq => absurd hcq (by rw [hparent]; exact hfar c hc), hpayload,
        update_of_ne (Nat.ne_of_lt hq)]

lemma add_ensures {payload : Payload NodeId} (position : Position)
    (h : Firm a.parentOf a.childIds) (hexists : ∀ c ∈ payload.children, c < a.size)
    (hnodup : payload.children.Nodup) :
    (add payload position).Ensures a (fun id b => id = a.size ∧ Firm b.parentOf b.childIds ∧
      b.size = a.size + 1 ∧
      (b.parentOf = fun c => if c ∈ payload.children then some a.size else a.parentOf c) ∧
      ∀ q < a.size, (∀ c ∈ payload.children, a.parentOf c ≠ some q) →
        b.payload? q = a.payload? q) failed :=
  (add_adopts position h hexists hnodup).mono
    (fun _ _ ⟨hid, hb, hs, hp, _, hk⟩ => ⟨hid, hb, hs, hp, hk⟩) fun _ => id

/-- The leading comments of a node have no part in the links. -/
lemma moveLeading_ensures {source target : NodeId} {post : Unit → Arena → Prop}
    (hs : source < a.size) (ht : target < a.size)
    (h : ∀ b : Arena, b.size = a.size → b.parentOf = a.parentOf → b.payload? = a.payload? →
      post () b) : (moveLeading source target).Ensures a post failed := by
  have hleading (b : Arena) (id : NodeId) (f : Cell → List Text) :
      (b.modify id fun c => { c with leading := f c }).parentOf = b.parentOf ∧
        (b.modify id fun c => { c with leading := f c }).payload? = b.payload? := by
    constructor <;> funext x <;> by_cases hx : id = x
    · cases hcell : b.cell? x <;> simp [parentOf, hx, hcell]
    · simp [parentOf, hx]
    · cases hcell : b.cell? x <;> simp [payload?, hx, hcell]
    · simp [payload?, hx]
  refine ensures_bind (ensures_askCell hs fun cell hcell => ?_)
  by_cases hempty : cell.leading.isEmpty
  · rw [if_neg (by simp [hempty])]
    exact ensures_pure (h a rfl rfl rfl)
  rw [if_pos (by simp [hempty])]
  refine ensures_bind (ensures_bind (ensures_askCell ht fun _ _ => ensures_pure ?_))
  refine ensures_bind (ensures_change (ensures_change ?_))
  refine h _ (by simp) ?_ ?_
  · rw [(hleading _ source fun _ => []).1, (hleading _ target fun c => _ ++ c.leading).1]
  · rw [(hleading _ source fun _ => []).2, (hleading _ target fun c => _ ++ c.leading).2]

/-- At the place of a node, other nodes that have no parent are put. -/
lemma firm_of_exchange {parent parent' : NodeId → Option NodeId} {kids kids' : NodeId → List NodeId}
    {p target : NodeId} {before after : List NodeId} (new : List NodeId) (h : Firm parent kids)
    (hp : kids p = before ++ target :: after) (hnodup : new.Nodup)
    (hfree : ∀ c ∈ new, parent c = none)
    (habove : ∀ c ∈ new, ¬ ReflTransGen (parent · = some ·) p c)
    (hparent : ∀ c, parent' c = if c ∈ new then some p else if c = target then none else parent c)
    (hkids : kids' = update kids p (before ++ new ++ after)) : Firm parent' kids' := by
  have hx := h.exchange before [target] new after (by simpa using hp) hnodup hfree habove
  rw [hkids]
  convert hx using 2 with c
  simp [hparent c]

/-- A node that is not above `target` is not above the parent of `target` either. -/
lemma not_above_place {b : Arena} {target r p : NodeId}
    (hup : ∀ x y, b.parentOf x = some y → a.parentOf x = some y) (hp : b.parentOf target = some p)
    (h : ¬ TransGen a.HasParent target r) : ¬ ReflTransGen (b.parentOf · = some ·) p r :=
  fun hpr => h (.head' (hup _ _ hp) (way_mono hup hpr))

lemma replaceWith_ensures {target replacement : NodeId} (h : Firm a.parentOf a.childIds)
    (ht : target < a.size) (hr : replacement < a.size)
    (habove : ¬ TransGen a.HasParent target replacement) :
    (replaceWith target replacement).Ensures a (fun _ b => Firm b.parentOf b.childIds)
      (fun b => Firm b.parentOf b.childIds) := by
  unfold replaceWith
  by_cases heq : target = replacement
  · rw [if_neg (by simp [heq])]
    exact ensures_pure h
  rw [if_pos (by simp [heq])]
  refine ensures_bind ((unlink_releases h hr).mono (fun _ b hb => ?_) fun _ => id)
  have hfirm := hb.firm h
  have hs := hb.size_eq
  refine ensures_bind (ensures_locate (hb.size_eq ▸ ht) (fun p hp => hfirm.mem_iff.mpr hp)
    (fun _ => hfirm) fun p payload place hp hpay hplace => ?_)
  obtain ⟨before, after, hkids, hsplice⟩ := Payload.children_splice hplace
  refine ensures_bind (ensures_splice hpay fun b₁ hs₁ hp₁ hk₁ => ?_)
  have hr₁ : replacement < b₁.size := by rwa [hs₁, hs]
  have ht₁ : target < b₁.size := by rwa [hs₁, hs]
  refine ensures_bind (ensures_setParent hr₁ fun b₂ hs₂ hp₂ hk₂ => ?_)
  refine ensures_bind (ensures_setParent (hs₂ ▸ ht₁) fun b₃ hs₃ hp₃ hk₃ => ?_)
  apply moveLeading_ensures (hs₃ ▸ hs₂ ▸ ht₁) (hs₃ ▸ hs₂ ▸ hr₁)
  intro b₄ hs₄ hp₄ hk₄
  have hfree : b.parentOf replacement = none := hb.parentOf_of_mem (List.mem_singleton_self _)
  have hne : replacement ≠ target := fun heq => by simp [← heq, hfree] at hp
  refine firm_of_exchange [replacement] hfirm ((childIds_eq hpay).trans hkids) (by simp)
    (by simp [hfree]) ?_ (fun c => ?_) ?_
  · simpa using not_above_place hb.way hp habove
  · rw [hp₄, hp₃, hp₂, hp₁]
    by_cases hc : c = target <;> by_cases hr : c = replacement <;> simp_all
  · have hk : b₄.payload? = update b.payload? p (some (payload.splice place [replacement])) := by
      rw [hk₄, hk₃, hk₂, hk₁]
    rw [childIds_update hk, hsplice]
    simp

lemma children_blockStatement {α : Type} (cs : List α) :
    (Payload.blockStatement (cs.map some)).children = cs := by
  simp [Payload.children]

/-- A new node around nodes that are not above `p` is not above `p`. -/
lemma not_above_wrapped {b : Arena} {p : NodeId} {rs : List NodeId}
    (h : Firm a.parentOf a.childIds) (hp : p < a.size)
    (habove : ∀ r ∈ rs, ¬ ReflTransGen (a.parentOf · = some ·) p r)
    (hb : b.parentOf = fun c => if c ∈ rs then some a.size else a.parentOf c) :
    ¬ ReflTransGen (b.parentOf · = some ·) p a.size := by
  intro hup
  rcases reflTransGen_iff_eq_or_transGen.mp hup with heq | hup
  · exact Nat.lt_irrefl _ (heq ▸ hp)
  have hnew : ∀ x y, b.parentOf x = some y → a.parentOf x = some y ∨ x ∈ rs ∧ y = a.size := by
    intro x y hx
    rw [hb] at hx
    by_cases hm : x ∈ rs
    · exact .inr ⟨hm, by simpa [hm, eq_comm] using hx⟩
    · exact .inl (by simpa [hm] using hx)
  rcases way_of_hung hnew hup with hway | ⟨⟨r, hr, hpr⟩, -⟩
  · obtain ⟨x, -, hx⟩ := TransGen.tail'_iff.mp hway
    exact Nat.lt_irrefl _ (lt_size_of_mem_childIds (h.mem_iff.mpr hx))
  · exact habove r hr hpr

/-- A new node takes the place of `target`, and its children, which had no parent, come with it. -/
lemma takePlace_ensures {α : Type} {next : Edit α} {post : α → Arena → Prop}
    {fresh payload : Payload NodeId} {position : Position} {target p : NodeId} {place : Payload.Place}
    {before after : List NodeId} (h : Firm a.parentOf a.childIds)
    (hexists : ∀ c ∈ fresh.children, c < a.size) (hnodup : fresh.children.Nodup)
    (hfree : ∀ c ∈ fresh.children, a.parentOf c = none)
    (habove : ∀ c ∈ fresh.children, ¬ ReflTransGen (a.parentOf · = some ·) p c)
    (hp : a.parentOf target = some p) (hpay : a.payload? p = some payload)
    (hkids : payload.children = before ++ target :: after)
    (hsplice : (payload.splice place [a.size]).children = before ++ [a.size] ++ after)
    (hnext : ∀ b : Arena, b.size = a.size + 1 → Firm (update b.parentOf target none) b.childIds →
      next.Ensures b post failed) :
    (do
      let id ← add fresh position
      splice p place [id]
      setParent id (some p)
      next : Edit α).Ensures a post failed := by
  have htarget := h.mem_iff.mpr hp
  have hpsize : p < a.size := lt_size_of_mem_childIds htarget
  have hne : target ≠ a.size := by
    rintro rfl
    simp [parentOf_of_size_le] at hp
  refine ensures_bind ((add_ensures position h hexists hnodup).mono ?_ fun _ => id)
  rintro _ b ⟨rfl, hfirm, hs, hpb, hk⟩
  have hpayb : b.payload? p = some payload :=
    (hk p hpsize fun c hc => by simp [hfree c hc]).trans hpay
  refine ensures_bind (ensures_splice hpayb fun d hds hdp hdk => ?_)
  refine ensures_bind (ensures_setParent (by rw [hds, hs]; exact Nat.lt_succ_self _)
    fun e hes hep hek => hnext e (hes.trans (hds.trans hs)) ?_)
  refine firm_of_exchange [a.size] hfirm ((childIds_eq hpayb).trans hkids) (by simp) ?_ ?_
    (fun c => ?_) ?_
  · have hnew : a.size ∉ fresh.children := fun hm => Nat.lt_irrefl _ (hexists _ hm)
    simp [hpb, hnew, parentOf_of_size_le]
  · simpa using not_above_wrapped h hpsize habove hpb
  · by_cases hc : c = target
    · subst hc; simp [hne]
    · simp [hc, hep, hdp, update_apply]
  · rw [childIds_update (hek.trans hdk), hsplice]

/-- The end of a replacement: the target is cut off, and its comments go to the first new node. -/
lemma cutOff_ensures {target : NodeId} {rs : List NodeId} (ht : target < a.size)
    (hr : ∀ r ∈ rs, r < a.size) (h : Firm (update a.parentOf target none) a.childIds) :
    (do
      setParent target none
      match rs with
      | [] => pure ()
      | first :: _ => moveLeading target first : Edit Unit).Ensures a
      (fun _ b => Firm b.parentOf b.childIds) (fun b => Firm b.parentOf b.childIds) := by
  refine ensures_bind (ensures_setParent ht fun b hs hp hk => ?_)
  have hfirm : Firm b.parentOf b.childIds := by rwa [hp, childIds_congr hk]
  cases rs with
  | nil => exact ensures_pure hfirm
  | cons first rest =>
    apply moveLeading_ensures (hs ▸ ht) (hs ▸ hr first (by simp))
    intro d hds hdp hdk
    rwa [hdp, childIds_congr hdk]

lemma replaceWithMany_ensures {target : NodeId} {rs : List NodeId}
    (h : Firm a.parentOf a.childIds) (ht : target < a.size) (hr : ∀ r ∈ rs, r < a.size)
    (hnodup : rs.Nodup) (habove : ∀ r ∈ rs, ¬ TransGen a.HasParent target r) :
    (replaceWithMany target rs).Ensures a (fun _ b => Firm b.parentOf b.childIds)
      (fun b => Firm b.parentOf b.childIds) := by
  unfold replaceWithMany
  refine ensures_bind ((gather_releases h hr).mono (fun _ b hb => ?_) fun _ => id)
  have hs := hb.size_eq
  have hb' := hb.firm h
  refine ensures_bind (ensures_locate (hs ▸ ht) (fun p hp => hb'.mem_iff.mpr hp)
    (fun _ => hb') fun p payload place hp hpay hplace => ?_)
  obtain ⟨before, after, hkids, hsplice⟩ := Payload.children_splice hplace
  have hfree : ∀ r ∈ rs, b.parentOf r = none := fun r hr => hb.parentOf_of_mem hr
  have hrs : target ∉ rs := fun hm => by simp [hfree target hm] at hp
  have hplaceAbove : ∀ r ∈ rs, ¬ ReflTransGen (b.parentOf · = some ·) p r :=
    fun r hr => not_above_place hb.way hp (habove r hr)
  have hlast (d : Arena) (hd : b.size ≤ d.size) (hfirm : Firm (update d.parentOf target none) d.childIds) :=
    have hle : a.size ≤ d.size := hs ▸ hd
    cutOff_ensures (Nat.lt_of_lt_of_le ht hle) (fun r hm => Nat.lt_of_lt_of_le (hr r hm) hle) hfirm
  dsimp only
  by_cases hi : place.index.isSome
  · rw [if_pos hi]
    refine ensures_bind (ensures_splice hpay fun b₁ hs₁ hp₁ hk₁ => ?_)
    have hr₁ : ∀ r ∈ rs, r < b₁.size := by
      rw [hs₁, hs]
      exact hr
    refine ensures_bind ((setParents_relinks hr₁).mono (fun _ b₂ hb₂ => ?_) fun _ => id)
    refine hlast b₂ (Nat.le_of_eq (hb₂.size_eq.trans hs₁).symm)
      (firm_of_exchange rs hb' ((childIds_eq hpay).trans hkids) hnodup hfree hplaceAbove
        (fun c => ?_) ?_)
    · by_cases hc : c = target
      · subst hc; simp [hrs]
      · simp [hc, hb₂.parentOf_eq, hp₁]
    · rw [childIds_update ((funext hb₂.payload?_eq).trans hk₁), hsplice, if_pos hi]
  rw [if_neg hi]
  by_cases hrole : place.role = .statement ∨ place.role = .optionalStatement
  · rw [if_pos (by simpa using hrole)]
    refine ensures_bind (ensures_askCell (hs ▸ ht) fun cell _ => ?_)
    have hblock := children_blockStatement rs
    refine takePlace_ensures hb' (by rwa [hblock, hs]) (by rwa [hblock]) (by rwa [hblock])
      (by rwa [hblock]) hp hpay hkids ?_ fun d hds hfirm => hlast d (hds ▸ Nat.le_succ _) hfirm
    rw [hsplice, if_neg hi]
    rfl
  · rw [if_neg (by simpa using hrole)]
    exact ensures_bind (ensures_askKind (lt_size_of_mem_childIds (hb'.mem_iff.mpr hp))
      fun k => ensures_bind (ensures_throw hb'))

lemma remove_ensures {target : NodeId} (h : Firm a.parentOf a.childIds) (ht : target < a.size) :
    (remove target).Ensures a (fun _ b => Firm b.parentOf b.childIds)
      (fun b => Firm b.parentOf b.childIds) := by
  unfold remove
  refine ensures_bind (ensures_locate ht (fun p hp => h.mem_iff.mpr hp)
    (fun _ => h) fun p payload place hp hpay hplace => ?_)
  obtain ⟨before, after, hkids, hsplice⟩ := Payload.children_splice hplace
  have hpsize : p < a.size := lt_size_of_mem_childIds (h.mem_iff.mpr hp)
  have hplain : (do splice p place []; setParent target none : Edit Unit).Ensures a
      (fun _ b => Firm b.parentOf b.childIds) (fun b => Firm b.parentOf b.childIds) := by
    refine ensures_bind (ensures_splice hpay fun b₁ hs₁ hp₁ hk₁ => ?_)
    apply ensures_setParent (hs₁ ▸ ht)
    intro b₂ hs₂ hp₂ hk₂
    refine firm_of_exchange [] h ((childIds_eq hpay).trans hkids) (by simp) (by simp)
      (by simp) (fun c => ?_) ?_
    · simp [hp₂, hp₁, update_apply]
    · rw [childIds_update (hk₂.trans hk₁), hsplice]
      simp
  dsimp only
  split
  · refine ensures_bind (ensures_askCell ht fun cell _ => ?_)
    have hempty : (Payload.emptyStatement : Payload NodeId).children = [] := rfl
    refine takePlace_ensures h (by simp [hempty]) (by simp [hempty]) (by simp [hempty])
      (by simp [hempty]) hp hpay hkids (by simp [hsplice]) fun b hs hfirm => ?_
    exact ensures_setParent (hs ▸ Nat.lt_succ_of_lt ht) fun d _ hdp hdk => by
      rwa [hdp, childIds_congr hdk]
  · exact ensures_bind (ensures_askKind ht fun _ =>
      ensures_bind (ensures_askKind hpsize fun _ => ensures_bind (ensures_throw h)))
  · exact hplain

lemma insertAt_ensures {anchor inserted offset : NodeId} (h : Firm a.parentOf a.childIds)
    (ht : anchor < a.size) (hr : inserted < a.size)
    (habove : ¬ TransGen a.HasParent anchor inserted) :
    (insertAt anchor inserted offset).Ensures a (fun _ b => Firm b.parentOf b.childIds)
      (fun b => Firm b.parentOf b.childIds) := by
  unfold insertAt
  refine ensures_bind ((unlink_releases h hr).mono (fun _ b hb => ?_) fun _ => id)
  have hfirm := hb.firm h
  have hs := hb.size_eq
  refine ensures_bind (ensures_locate (hs ▸ ht) (fun p hp => hfirm.mem_iff.mpr hp)
    (fun _ => hfirm) fun p payload place hp hpay hplace => ?_)
  dsimp only
  cases hi : place.index with
  | none => exact ensures_bind (ensures_askKind (hs ▸ ht) fun _ => ensures_throw hfirm)
  | some i =>
    obtain ⟨before, after, hkids, hinsert⟩ := Payload.children_insert hplace hi (i + offset) inserted
    refine ensures_bind (ensures_changePayload _ hpay fun b₁ hs₁ hp₁ hk₁ => ?_)
    apply ensures_setParent (by rw [hs₁, hs]; exact hr)
    intro b₂ hs₂ hp₂ hk₂
    have hfree : b.parentOf inserted = none := hb.parentOf_of_mem (List.mem_singleton_self _)
    have hx := hfirm.exchange before [] [inserted] after
      (p := p) (by rw [childIds_eq hpay, hkids]; simp) (by simp) (by simp [hfree])
      (by simpa using not_above_place hb.way hp habove)
    rw [hp₂, hp₁, childIds_update (hk₂.trans hk₁), hinsert]
    convert hx using 2 with c
    · simp [update_apply]
    · simp

/-- The state when the former children `pending` are still to be let go. -/
structure Replacing (a : Arena) (target : NodeId) (payload : Payload NodeId)
    (pending : List NodeId) (b : Arena) : Prop where
  tied : Tied (fun q _ => q = target)
    (fun q c => q = target ∧ c ∈ pending ∧ c ∉ payload.children) b.parentOf b.childIds
  size_eq : b.size = a.size
  way : ∀ x y, b.parentOf x = some y → a.parentOf x = some y
  childIds_eq : b.childIds target = payload.children
  pending_subset : ∀ c ∈ pending, c ∈ a.childIds target

lemma Replacing.keep {b : Arena} {target old : NodeId} {payload : Payload NodeId}
    {rest : List NodeId} (h : Replacing a target payload (old :: rest) b)
    (hold : b.parentOf old = some target → old ∈ payload.children) :
    Replacing a target payload rest b := by
  refine ⟨⟨h.tied.nodup, h.tied.parent_eq, fun q c hc => ?_, h.tied.acyclic⟩, h.size_eq, h.way,
    h.childIds_eq, fun c hc => h.pending_subset c (by simp [hc])⟩
  refine (h.tied.mem_kids q c hc).imp_right ?_
  rintro ⟨rfl, hm, hn⟩
  refine ⟨rfl, (List.mem_cons.mp hm).resolve_left ?_, hn⟩
  rintro rfl
  exact hn (hold hc)

lemma Replacing.drop {b d : Arena} {target old : NodeId} {payload : Payload NodeId}
    {rest : List NodeId} (h : Replacing a target payload (old :: rest) b)
    (hold : b.parentOf old = some target) (hnot : old ∉ payload.children) (hs : d.size = b.size)
    (hp : d.parentOf = update b.parentOf old none) (hk : d.payload? = b.payload?) :
    Replacing a target payload rest d := by
  have hkids : d.childIds = b.childIds := childIds_congr hk
  have hup : ∀ x y, d.parentOf x = some y → x ≠ old ∧ b.parentOf x = some y := by
    intro x y hx
    rw [hp] at hx
    by_cases hxo : x = old
    · subst hxo; simp at hx
    · exact ⟨hxo, by rwa [update_of_ne hxo] at hx⟩
  refine ⟨⟨hkids ▸ h.tied.nodup, fun q c hc => ?_, fun q c hc => ?_, ?_⟩, hs.trans h.size_eq,
    fun x y hx => h.way x y (hup x y hx).2, hkids ▸ h.childIds_eq,
    fun c hc => h.pending_subset c (by simp [hc])⟩
  · rw [hkids] at hc
    have hq := h.tied.parent_eq q c hc
    by_cases hco : c = old
    · subst hco
      rw [hold] at hq
      exact .inr (hq.elim (fun hq => (Option.some.inj hq).symm) id)
    · rwa [hp, update_of_ne hco]
  · obtain ⟨hco, hc⟩ := hup c q hc
    rw [hkids]
    exact (h.tied.mem_kids q c hc).imp_right fun hkeep =>
      ⟨hkeep.1, (List.mem_cons.mp hkeep.2.1).resolve_left hco, hkeep.2.2⟩
  · exact acyclic_of_hung [] 0 (fun x y hx => .inl (hup x y hx).2) (by simp)
      h.tied.acyclic

lemma replaceData_ensures {target : NodeId} {payload : Payload NodeId}
    (h : Firm a.parentOf a.childIds) (ht : target < a.size)
    (hexists : ∀ c ∈ payload.children, c < a.size) (hnodup : payload.children.Nodup)
    (habove : ∀ c ∈ payload.children, ¬ ReflTransGen a.HasParent target c) :
    (replaceData target payload).Ensures a (fun _ b => Firm b.parentOf b.childIds)
      (fun b => Firm b.parentOf b.childIds) := by
  unfold replaceData
  refine ensures_bind (ensures_askChildren ht ?_)
  obtain ⟨cell, hcell⟩ := exists_cell ht
  refine ensures_bind (ensures_changePayload (fun _ => payload)
    (show a.payload? target = some cell.payload by simp [payload?, hcell]) fun b₁ hs₁ hp₁ hk₁ => ?_)
  refine ensures_bind ((ensures_forIn (Replacing a target payload) ?_ ?_).mono ?_ fun _ => id)
  · intro old rest b hb
    have hexists : old < b.size := by
      rw [hb.size_eq]
      exact lt_size_of_parentOf (h.mem_iff.mp (hb.pending_subset old (by simp)))
    by_cases hc : old ∈ payload.children
    · rw [if_neg (by simp [hc])]
      exact ensures_pure ⟨rfl, hb.keep fun _ => hc⟩
    rw [if_pos (by simp [hc])]
    refine ensures_bind (ensures_askParent hexists ?_)
    by_cases hp : b.parentOf old = some target
    · rw [if_pos (by simp [hp])]
      exact ensures_bind (ensures_setParent hexists fun d hs hd hk =>
        ensures_pure ⟨rfl, hb.drop hp hc hs hd hk⟩)
    · rw [if_neg (by simp [hp])]
      exact ensures_pure ⟨rfl, hb.keep fun h => absurd h hp⟩
  · have hkids := childIds_update hk₁
    refine ⟨⟨fun q => ?_, fun q c hc => ?_, fun q c hc => ?_, ?_⟩, hs₁, fun x y => hp₁ ▸ id,
      by simp [hkids], fun _ => id⟩
    · by_cases hq : q = target
      · subst hq; simpa [hkids] using hnodup
      · simpa [hkids, hq] using h.nodup q
    · by_cases hq : q = target
      · exact .inr hq
      · rw [hp₁]
        exact .inl (h.mem_iff.mp (by simpa [hkids, hq] using hc))
    · rw [hp₁] at hc
      have hm := h.mem_iff.mpr hc
      by_cases hq : q = target
      · subst hq
        by_cases hcp : c ∈ payload.children
        · exact .inl (by simpa [hkids] using hcp)
        · exact .inr ⟨rfl, hm, hcp⟩
      · exact .inl (by simpa [hkids, hq] using hm)
    · rw [hp₁]
      exact h.acyclic
  · intro _ b hb
    refine (adoptChildren_ensures (by rw [hb.size_eq]; exact ht) ?_ ?_ ?_).mono
      (fun _ _ hd => hd.1) fun _ => id
    · exact ⟨hb.tied.nodup, hb.tied.parent_eq, fun q c hc =>
        .inl ((hb.tied.mem_kids q c hc).resolve_right (by simp)), hb.tied.acyclic⟩
    · rw [hb.childIds_eq, hb.size_eq]
      exact hexists
    · rw [hb.childIds_eq]
      exact fun c hc hup => habove c hc (way_mono hb.way hup)

end Edit

end PlainScript
