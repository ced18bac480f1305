import PlainScript.Proofs.Visits

/-! Walks turn by turn. The nodes of a subtree are listed with each node before those below it, or behind them, and
what is shown of a walk may speak of the nodes that have had their turn. A node is handled at its turn if it is
still below the root then. -/
namespace PlainScript

open Relation

namespace Arena

variable {a : Arena} {arrange : List NodeId → List NodeId} {root x : NodeId} {done rest : List NodeId}

/-- No node is listed behind one that is below it. -/
lemma Firm.pairwise_listing (h : Firm a.parentOf a.childIds) (harrange : ∀ cs, (arrange cs).Perm cs)
    (start : NodeId) : (a.listing arrange start).Pairwise fun x y => ¬ TransGen a.HasParent x y := by
  have hpairwise (depth : Nat) (top : NodeId) :
      (a.listTo arrange depth top).Pairwise fun x y => ¬ TransGen a.HasParent x y := by
    induction depth generalizing top with
    | zero => exact List.pairwise_singleton _ top
    | succ depth ih =>
      have hchild {c : NodeId} (hc : c ∈ arrange (a.childIds top)) : a.HasParent c top :=
        h.mem_iff.mp ((harrange _).mem_iff.mp hc)
      refine List.pairwise_cons.mpr ⟨fun y hy hup => ?_, List.pairwise_flatMap.mpr ⟨fun c _ => ih c, ?_⟩⟩
      · obtain ⟨c, hc, hy⟩ := List.mem_flatMap.mp hy
        exact h.acyclic top (hup.trans (.tail' (h.way_of_mem_listTo harrange hy) (hchild hc)))
      · refine ((harrange _).nodup_iff.mpr (h.nodup top)).pairwise_of_forall_ne fun c hc d hd hne => ?_
        intro x hxc y hyd hup
        exact h.disjoint_of_children (hchild hc) (hchild hd) hne (h.way_of_mem_listTo harrange hxc)
          (hup.to_reflTransGen.trans (h.way_of_mem_listTo harrange hyd))
  exact hpairwise a.size start

lemma Rooted.attached_iff (h : a.Rooted root) : a.Attached x ↔ ReflTransGen a.HasParent x root := by
  simp [Attached, h.root_eq]

lemma Rooted.lt_size (h : a.Rooted root) (hway : ReflTransGen a.HasParent x root) : x < a.size := by
  obtain rfl | ⟨p, hp, -⟩ := hway.cases_head
  · exact h.root_lt
  · exact lt_size_of_parentOf hp

lemma Rooted.hasParent_of_mem (h : a.Rooted root) {y : NodeId} {p : Payload NodeId} (hp : a.payload? y = some p)
    (hx : x ∈ p.children) : a.HasParent x y := h.firm.mem_iff.mp (childIds_eq hp ▸ hx)

lemma Rooted.mem_children (h : a.Rooted root) {y : NodeId} {p : Payload NodeId} (hp : a.payload? y = some p)
    (hx : a.HasParent x y) : x ∈ p.children := childIds_eq hp ▸ h.firm.mem_iff.mpr hx

/-- Where links to parents are cut, a node stays below the root if all links on its way up are kept. -/
lemma Rooted.way_of_kept (h : a.Rooted root) {b : Arena} {kept : NodeId → NodeId → Prop}
    (hkept : ∀ x < a.size, ∀ p, b.HasParent x p ↔ a.HasParent x p ∧ kept x p) (hx : x < a.size) :
    ReflTransGen b.HasParent x root ↔ ReflTransGen a.HasParent x root ∧
      ∀ y p, ReflTransGen a.HasParent x y → a.HasParent y p → kept y p := by
  constructor
  · intro hway
    induction hway using ReflTransGen.head_induction_on with
    | refl =>
      refine ⟨.refl, fun y p hy hp => ?_⟩
      obtain rfl | ⟨q, hq, -⟩ := hy.cases_head
      · cases h.parentOf_root.symm.trans hp
      · cases h.parentOf_root.symm.trans hq
    | @head x z hz _ ih =>
      obtain ⟨hxz, hk⟩ := (hkept x hx z).mp hz
      have hz := ih (h.firm.parent_lt hxz)
      refine ⟨.head hxz hz.1, fun y p hy hp => ?_⟩
      obtain rfl | ⟨q, hq, hy⟩ := hy.cases_head
      · exact Option.some.inj (hxz.symm.trans hp) ▸ hk
      · exact hz.2 y p (Option.some.inj (hxz.symm.trans hq) ▸ hy) hp
  · rintro ⟨hway, hall⟩
    induction hway using ReflTransGen.head_induction_on with
    | refl => exact .refl
    | @head x z hz _ ih =>
      refine .head ((hkept x hx z).mpr ⟨hz, hall x z .refl hz⟩) (ih (h.firm.parent_lt hz) fun y p hy => ?_)
      exact hall y p (.head hz hy)

/-- Where some nodes let their children go, a node stays below the root if none of them is above it. -/
lemma Rooted.way_of_cut (h : a.Rooted root) {b : Arena} {cut : List NodeId}
    (hcut : ∀ x p, b.HasParent x p ↔ a.HasParent x p ∧ p ∉ cut) (hx : x < a.size) :
    ReflTransGen b.HasParent x root ↔ ReflTransGen a.HasParent x root ∧ ∀ top ∈ cut, ¬ TransGen a.HasParent x top := by
  rw [h.way_of_kept (fun x _ => hcut x) hx]
  refine and_congr_right fun _ => ⟨fun hall top htop hx => ?_, fun hall y p hy hp hmem => ?_⟩
  · obtain ⟨y, hy, hp⟩ := TransGen.tail'_iff.mp hx
    exact hall y top hy hp htop
  · exact hall p hmem (.tail' hy hp)

/-- Of the nodes on the way up that have a property, one is the topmost. -/
lemma Rooted.exists_topmost (h : a.Rooted root) {P : NodeId → Prop} (hway : ReflTransGen a.HasParent x root)
    (hx : ∃ y, ReflTransGen a.HasParent x y ∧ P y) : ∃ top, ReflTransGen a.HasParent x top ∧
      ReflTransGen a.HasParent top root ∧ P top ∧ ∀ y, TransGen a.HasParent top y → ¬ P y := by
  induction hway using ReflTransGen.head_induction_on with
  | refl =>
    have hnone (y : NodeId) : ¬ TransGen a.HasParent root y := fun hy => by
      obtain ⟨p, hp, -⟩ := TransGen.head'_iff.mp hy
      cases h.parentOf_root.symm.trans hp
    obtain ⟨y, hy, hP⟩ := hx
    obtain rfl | htrans := reflTransGen_iff_eq_or_transGen.mp hy
    · exact ⟨y, .refl, .refl, hP, fun z hz => absurd hz (hnone z)⟩
    · exact absurd htrans (hnone y)
  | @head x z hxz hz ih =>
    by_cases habove : ∃ y, ReflTransGen a.HasParent z y ∧ P y
    · obtain ⟨top, hztop, htop⟩ := ih habove
      exact ⟨top, .head hxz hztop, htop⟩
    · have hnone (y : NodeId) (hy : TransGen a.HasParent x y) : ¬ P y := fun hP => by
        obtain ⟨q, hq, hqy⟩ := TransGen.head'_iff.mp hy
        exact habove ⟨y, Option.some.inj (hq.symm.trans hxz) ▸ hqy, hP⟩
      obtain ⟨y, hy, hP⟩ := hx
      obtain rfl | htrans := reflTransGen_iff_eq_or_transGen.mp hy
      · exact ⟨y, .refl, .head hxz hz, hP, hnone⟩
      · exact absurd hP (hnone y htrans)

section Turns

variable (h : a.Rooted root)
include h

lemma Rooted.mem_turnsOf (order : Order) : x ∈ a.turnsOf root order ↔ ReflTransGen a.HasParent x root := by
  cases order with
  | pre => exact h.firm.mem_listing .refl h.root_lt
  | post => exact List.mem_reverse.trans (h.firm.mem_listing List.reverse_perm h.root_lt)

lemma Rooted.nodup_turnsOf (order : Order) : (a.turnsOf root order).Nodup := by
  cases order with
  | pre => exact h.firm.nodup_listing .refl root
  | post => exact List.nodup_reverse.mpr (h.firm.nodup_listing List.reverse_perm root)

lemma Rooted.not_mem_done {order : Order} (hids : a.turnsOf root order = done ++ x :: rest) : x ∉ done := fun hx => by
  have hnodup := h.nodup_turnsOf order
  rw [hids, List.nodup_append'] at hnodup
  exact hnodup.2.2 hx (List.mem_cons_self ..)

variable {y : NodeId}

/-- Before a node has its turn in pre-order, all nodes above it and none below it had theirs. -/
lemma Rooted.done_pre (hids : a.turnsOf root .pre = done ++ x :: rest) :
    (TransGen a.HasParent x y → ReflTransGen a.HasParent y root → y ∈ done) ∧
      (TransGen a.HasParent y x → y ∉ done) := by
  have hpairwise : (done ++ x :: rest).Pairwise fun x y => ¬ TransGen a.HasParent x y :=
    hids ▸ h.firm.pairwise_listing .refl root
  obtain ⟨-, hrest, hdone⟩ := List.pairwise_append.mp hpairwise
  refine ⟨fun hup hy => ?_, fun hup hy => hdone y hy x (List.mem_cons_self ..) hup⟩
  have hmem := (h.mem_turnsOf .pre).mpr hy
  rw [hids, List.mem_append, List.mem_cons] at hmem
  obtain hmem | rfl | hmem := hmem
  · exact hmem
  · exact absurd hup (h.firm.acyclic y)
  · exact absurd hup ((List.pairwise_cons.mp hrest).1 y hmem)

/-- Before a node has its turn in post-order, all nodes below it and none above it had theirs. -/
lemma Rooted.done_post (hids : a.turnsOf root .post = done ++ x :: rest) :
    (TransGen a.HasParent y x → y ∈ done) ∧ (TransGen a.HasParent x y → y ∉ done) := by
  have hpairwise : (done ++ x :: rest).Pairwise fun x y => ¬ TransGen a.HasParent y x :=
    hids ▸ List.pairwise_reverse.mpr (h.firm.pairwise_listing List.reverse_perm root)
  obtain ⟨-, hrest, hdone⟩ := List.pairwise_append.mp hpairwise
  refine ⟨fun hup => ?_, fun hup hy => hdone y hy x (List.mem_cons_self ..) hup⟩
  have hx : ReflTransGen a.HasParent x root := (h.mem_turnsOf .post).mp (hids ▸ by simp)
  have hmem := (h.mem_turnsOf .post).mpr (hup.to_reflTransGen.trans hx)
  rw [hids, List.mem_append, List.mem_cons] at hmem
  obtain hmem | rfl | hmem := hmem
  · exact hmem
  · exact absurd hup (h.firm.acyclic y)
  · exact absurd hup ((List.pairwise_cons.mp hrest).1 y hmem)

end Turns

/-- The nodes with a property among those that have had their turn. -/
structure Handled (P : NodeId → Prop) (done handled : List NodeId) : Prop where
  nodup : handled.Nodup
  mem_iff : ∀ x, x ∈ handled ↔ x ∈ done ∧ P x

namespace Handled

variable {P : NodeId → Prop} {handled : List NodeId}

lemma nil : Handled P [] [] := ⟨.nil, by simp⟩

lemma skip (h : Handled P done handled) (hx : ¬ P x) : Handled P (done ++ [x]) handled := by
  refine ⟨h.nodup, fun y => (h.mem_iff y).trans ?_⟩
  rw [List.mem_append, List.mem_singleton]
  exact ⟨fun hy => ⟨.inl hy.1, hy.2⟩, fun hy => ⟨hy.1.resolve_right fun heq => hx (heq ▸ hy.2), hy.2⟩⟩

lemma add (h : Handled P done handled) (hnot : x ∉ done) (hx : P x) : Handled P (done ++ [x]) (handled ++ [x]) := by
  refine ⟨h.nodup.append (List.nodup_singleton x) ?_, fun y => ?_⟩
  · simpa using fun hmem => hnot ((h.mem_iff x).mp hmem).1
  · simp only [List.mem_append, List.mem_singleton, h.mem_iff]
    constructor
    · rintro (hy | rfl)
      · exact ⟨.inl hy.1, hy.2⟩
      · exact ⟨.inr rfl, hx⟩
    · exact fun ⟨hy, hP⟩ => hy.imp_left fun hy => ⟨hy, hP⟩

end Handled

end Arena

namespace Walker

open Arena

variable {σ ε : Type} {w : Walker σ ε}

/-- What holds before the first turn and is kept by each turn, whether the node is due or not, holds in the end. -/
lemma turns_one_by_one {P : List NodeId → σ → Prop} {start : NodeId} {startAttached : Bool} {ids : List NodeId}
    (hfirm : ∀ done s, P done s → Firm (w.arena s).parentOf (w.arena s).childIds)
    (hlt : ∀ done s, P done s → ∀ id ∈ ids, id < (w.arena s).size)
    (hpass : ∀ done id rest s, ids = done ++ id :: rest → P done s →
      ¬ w.IsDue (w.arena s) start (startAttached = true) id → P (done ++ [id]) s)
    (hturn : ∀ done id rest s kind handle, ids = done ++ id :: rest → P done s →
      w.IsDue (w.arena s) start (startAttached = true) id → (w.arena s).kind? id = some kind →
        w.handler kind = some handle → ∃ s', handle id s = .ok () s' ∧ P (done ++ [id]) s')
    {done rest : List NodeId} (visited : Nat) {s : σ} (hids : ids = done ++ rest) (hs : P done s) :
    ∃ n s', w.turns start startAttached rest visited s = (⟨n, none⟩, s') ∧ P ids s' := by
  induction rest generalizing done visited s with
  | nil =>
    rw [List.append_nil] at hids
    exact ⟨visited, s, rfl, hids ▸ hs⟩
  | cons id rest ih =>
    have hlinked := linked_iff_firm.mpr (hfirm done s hs)
    have hid : id < (w.arena s).size := hlt done s hs id (hids ▸ by simp)
    have hnext : ids = done ++ [id] ++ rest := by rw [hids, List.append_assoc, List.singleton_append]
    by_cases hdue : w.IsDue (w.arena s) start (startAttached = true) id
    · obtain ⟨kind, handle, hkind, hhandler, hturned, -⟩ := exists_due hlinked hid hdue
      obtain ⟨s₁, hrun₁, hs₁⟩ := hturn done id rest s kind handle hids hs hdue hkind hhandler
      obtain ⟨n, s', hrun, hs'⟩ := ih (visited + 1) hnext hs₁
      exact ⟨n, s', by simp [turns, hturned, hrun₁, hrun], hs'⟩
    · obtain ⟨hturned, -⟩ := due_eq_none hlinked hid hdue
      obtain ⟨n, s', hrun, hs'⟩ := ih visited hnext (hpass done id rest s hids hs hdue)
      exact ⟨n, s', by simp [turns, hturned, hrun], hs'⟩

end Walker

namespace Action

open Arena

/-- A walk from the root over one kind of node, turn by turn. -/
theorem walkKind_one_by_one {τ : Type} {P : List NodeId → Run → τ → Prop} {order : Order} {kind : Kind} {start : τ}
    {handle : NodeId → τ → Action τ} {s : Run} {root : NodeId} (hrooted : s.arena.Rooted root)
    (hkeep : ∀ done s' t, P done s' t → s'.arena.Rooted root ∧ s.arena.size ≤ s'.arena.size)
    (hpass : ∀ done id rest s' t, s.arena.turnsOf root order = done ++ id :: rest → P done s' t →
      (ReflTransGen s'.arena.HasParent id root → s'.arena.kind? id ≠ some kind) → P (done ++ [id]) s' t)
    (hturn : ∀ done id rest s' t, s.arena.turnsOf root order = done ++ id :: rest → P done s' t →
      ReflTransGen s'.arena.HasParent id root → s'.arena.kind? id = some kind →
        (handle id t).Yields s' fun t' s'' => P (done ++ [id]) s'' t')
    (hs : P [] s start) :
    (walkKind order kind start handle).Yields s fun t s' => P (s.arena.turnsOf root order) s' t := by
  have hattached : s.arena.isAttached root = .ok true := by
    classical
    rw [hrooted.firm.isAttached_eq hrooted.root_lt, decide_eq_true (show s.arena.Attached root from ?_)]
    exact ⟨root, hrooted.root_eq, .refl⟩
  have hcollect : s.arena.collect root order = .ok (s.arena.turnsOf root order) := by
    rw [hrooted.firm.collect_eq hrooted.root_lt]
    cases order <;> rfl
  have hsnapshot : Walker.snapshot s.arena root order = .ok (true, s.arena.turnsOf root order) := by
    simp [Walker.snapshot, hattached, hcollect, bind, Except.bind, pure, Except.pure]
  have hlt : ∀ id ∈ s.arena.turnsOf root order, id < s.arena.size := fun id hid => by
    obtain ⟨ids, hids, hlt⟩ := hrooted.firm.collect_ok hrooted.root_lt order
    exact hlt id (Except.ok.inj (hcollect.symm.trans hids) ▸ hid)
  obtain ⟨n, ⟨s', t⟩, hrun, hs'⟩ : ∃ n x, (walker fun k => if k = kind then some handle else none).turns root true
      (s.arena.turnsOf root order) 0 (s, start) = (⟨n, none⟩, x) ∧ P (s.arena.turnsOf root order) x.1 x.2 := by
    refine Walker.turns_one_by_one (P := fun (done : List NodeId) (x : Run × τ) => P done x.1 x.2)
      (fun done x hx => (hkeep done x.1 x.2 hx).1.firm)
      (fun done x hx id hid => Nat.lt_of_lt_of_le (hlt id hid) (hkeep done x.1 x.2 hx).2) ?_ ?_ 0
      (List.nil_append _).symm hs
    · rintro done id rest ⟨s', t⟩ hids hP hdue
      refine hpass done id rest s' t hids hP fun hway hkind => hdue ⟨⟨hway, fun _ => ?_⟩, kind, hkind, ?_⟩
      · exact ⟨root, (hkeep done s' t hP).1.root_eq, hway⟩
      · simp [walker]
    · rintro done id rest ⟨s', t⟩ k handle' hids hP ⟨⟨hway, -⟩, -⟩ hkind hhandler
      obtain ⟨handle'', hk, rfl⟩ := Option.map_eq_some_iff.mp hhandler
      obtain ⟨rfl, rfl⟩ : k = kind ∧ handle = handle'' := by simpa using hk
      obtain ⟨t', s'', hrun, hs''⟩ := hturn done id rest s' t hids hP hway hkind
      exact ⟨(s'', t'), by simp only [handing, hrun], hs''⟩
  exact walk_yields hrooted.root_eq hsnapshot ⟨n, s', t, hrun, hs'⟩

end Action

end PlainScript
