import PlainScript.Pass
import PlainScript.Proofs.Exchange
import Mathlib.Data.List.Perm.Subperm

/-! Walks that come to their end. In an arena whose links are in step, no question of a walk fails, so that
only its handlers can stop it, and what they keep holds in the end. -/
namespace PlainScript

open Relation

namespace Arena

variable {a : Arena} (h : Firm a.parentOf a.childIds)
include h

/-- A way up or down has no more nodes than there are. -/
lemma Firm.length_le {r : NodeId → NodeId → Prop}
    (hr : ∀ x y, r x y → TransGen a.HasParent x y ∨ TransGen a.HasParent y x) {way : List NodeId}
    (hway : way.Pairwise r) (hlt : ∀ x ∈ way, x < a.size) : way.length ≤ a.size := by
  have hnodup : way.Nodup := hway.imp fun {x y} hxy heq => by
    subst heq
    exact (hr x x hxy).elim (h.acyclic x) (h.acyclic x)
  have hsub : way ⊆ List.range a.size := fun x hx => List.mem_range.mpr (hlt x hx)
  simpa using (List.subperm_of_subset hnodup hsub).length_le

lemma Firm.reaches_ok (goal : NodeId) (steps : Nat) {slot : Option NodeId}
    (hslot : ∀ id ∈ slot, id < a.size) : ∃ found, a.reaches goal steps slot = .ok found ∧
      (found = true → ∃ id ∈ slot, ReflTransGen a.HasParent id goal) := by
  induction steps generalizing slot with
  | zero => cases slot <;> exact ⟨false, rfl, nofun⟩
  | succ steps ih =>
    cases slot with
    | none => exact ⟨false, rfl, nofun⟩
    | some id =>
      rw [reaches]
      split
      next heq => exact ⟨true, rfl, fun _ => ⟨id, rfl, heq ▸ .refl⟩⟩
      next hne =>
        rw [parent_eq_ok (hslot id rfl)]
        obtain ⟨found, hfound, hway⟩ := ih fun p hp => h.parent_lt hp
        refine ⟨found, hfound, fun hf => ?_⟩
        obtain ⟨p, hp, hpg⟩ := hway hf
        exact ⟨id, rfl, .head hp hpg⟩

lemma Firm.isWithin_ok (ancestor : NodeId) {id : NodeId} (hid : id < a.size) :
    ∃ found, a.isWithin id ancestor = .ok found ∧ (found = true → ReflTransGen a.HasParent id ancestor) := by
  have hslot : ∀ x ∈ some id, x < a.size := by simpa using hid
  obtain ⟨found, hfound, hway⟩ := h.reaches_ok ancestor (a.size + 1) hslot
  refine ⟨found, hfound, fun hf => ?_⟩
  obtain ⟨_, ⟨⟩, hgoal⟩ := hway hf
  exact hgoal

lemma Firm.isAttached_ok {id : NodeId} (hid : id < a.size) : ∃ found, a.isAttached id = .ok found := by
  unfold isAttached
  cases a.root with
  | none => exact ⟨false, rfl⟩
  | some root =>
    obtain ⟨found, hfound, -⟩ := h.isWithin_ok root hid
    exact ⟨found, hfound⟩

lemma Firm.firstFunction_ok (steps : Nat) {slot : Option NodeId} (hslot : ∀ id ∈ slot, id < a.size) :
    ∃ scope, a.firstFunction steps slot = .ok scope := by
  induction steps generalizing slot with
  | zero => cases slot <;> exact ⟨a.root, rfl⟩
  | succ steps ih =>
    cases slot with
    | none => exact ⟨a.root, rfl⟩
    | some id =>
      rw [firstFunction]
      split
      · exact ⟨some id, rfl⟩
      · rw [parent_eq_ok (hslot id rfl)]
        exact ih fun p hp => h.parent_lt hp

lemma Firm.enclosingFunction_ok {id : NodeId} (hid : id < a.size) : ∃ scope, a.enclosingFunction id = .ok scope := by
  rw [enclosingFunction, parent_eq_ok hid]
  exact h.firstFunction_ok _ fun p hp => h.parent_lt hp

lemma Firm.visit_ok {arrange : List NodeId → List NodeId} (harrange : ∀ cs, ∀ c ∈ arrange cs, c ∈ cs)
    (steps : Nat) {stack : List NodeId} (hstack : ∀ id ∈ stack, id < a.size) :
    ∃ ids, a.visit arrange steps stack = .ok ids ∧ ∀ id ∈ ids, id < a.size := by
  induction steps generalizing stack with
  | zero => cases stack <;> exact ⟨[], rfl, by simp⟩
  | succ steps ih =>
    cases stack with
    | nil => exact ⟨[], rfl, by simp⟩
    | cons top rest =>
      rw [List.forall_mem_cons] at hstack
      have hnext : ∀ id ∈ arrange (a.childIds top) ++ rest, id < a.size :=
        List.forall_mem_append.mpr ⟨fun _ hc => h.child_lt (harrange _ _ hc), hstack.2⟩
      obtain ⟨ids, hids, hlt⟩ := ih hnext
      refine ⟨top :: ids, ?_, List.forall_mem_cons.mpr ⟨hstack.1, hlt⟩⟩
      simp [visit, children_eq_ok hstack.1, hids]

lemma Firm.collect_ok {start : NodeId} (hstart : start < a.size) (order : Order) :
    ∃ ids, a.collect start order = .ok ids ∧ ∀ id ∈ ids, id < a.size := by
  have hstack : ∀ id ∈ [start], id < a.size := by simpa using hstart
  cases order with
  | pre => exact h.visit_ok (fun _ _ => id) _ hstack
  | post =>
    obtain ⟨ids, hids, hlt⟩ := h.visit_ok (fun _ _ => List.mem_reverse.mp) (a.pathCount a.size start) hstack
    exact ⟨ids.reverse, by simp [collect, hids, Except.map], fun id hid => hlt id (List.mem_reverse.mp hid)⟩

/-- Every question of a walk is answered, with nodes that exist. -/
lemma Firm.snapshot_ok {start : NodeId} (hstart : start < a.size) (order : Order) :
    ∃ attached ids, Walker.snapshot a start order = .ok (attached, ids) ∧ ∀ id ∈ ids, id < a.size := by
  obtain ⟨attached, hattached⟩ := h.isAttached_ok hstart
  obtain ⟨ids, hids, hlt⟩ := h.collect_ok hstart order
  exact ⟨attached, ids, by simp [Walker.snapshot, hattached, hids, bind, Except.bind, pure, Except.pure], hlt⟩

end Arena

namespace Walker

open Arena

variable {σ ε : Type} {w : Walker σ ε}

/-- A handler that is due belongs to a node below the start of the walk. -/
lemma due_ok {a : Arena} (h : Firm a.parentOf a.childIds) (start : NodeId) (startAttached : Bool)
    {id : NodeId} (hid : id < a.size) : ∃ due, w.due a start startAttached id = .ok due ∧
      ∀ handle, due = some handle → ReflTransGen a.HasParent id start ∧
        ∃ k, a.kind? id = some k ∧ w.handler k = some handle := by
  obtain ⟨within, hwithin, hway⟩ := h.isWithin_ok start hid
  obtain ⟨attached, hattached⟩ := h.isAttached_ok hid
  obtain ⟨c, hc⟩ := exists_cell hid
  have hkind : a.kind id = .ok c.kind := by simp [Arena.kind, Arena.cell, hc, Except.map]
  cases within with
  | false => exact ⟨none, by simp [due, hwithin, bind, Except.bind, pure, Except.pure], by simp⟩
  | true =>
    by_cases hatt : startAttached = true ∧ attached = false
    · refine ⟨none, ?_, by simp⟩
      simp [due, hwithin, hattached, hatt, bind, Except.bind, pure, Except.pure]
    · refine ⟨w.handler c.kind, ?_, fun handle hhandle => ⟨hway rfl, c.kind, by simp [kind?, hc], hhandle⟩⟩
      cases startAttached <;> cases attached <;>
        simp_all [due, bind, Except.bind, pure, Except.pure]

/-- What every handler keeps holds after the turns of some nodes, and none of them fails. -/
lemma turns_keeps {P : σ → Prop} {start : NodeId} {startAttached : Bool} {ids : List NodeId}
    (hfirm : ∀ s, P s → Firm (w.arena s).parentOf (w.arena s).childIds)
    (hids : ∀ s, P s → ∀ id ∈ ids, id < (w.arena s).size)
    (hhandle : ∀ s id k handle, P s → ReflTransGen (w.arena s).HasParent id start →
      (w.arena s).kind? id = some k → w.handler k = some handle → ∃ s', handle id s = .ok () s' ∧ P s')
    (visited : Nat) {s : σ} (hs : P s) :
    ∃ n s', w.turns start startAttached ids visited s = (⟨n, none⟩, s') ∧ P s' := by
  induction ids generalizing visited s with
  | nil => exact ⟨visited, s, rfl, hs⟩
  | cons id rest ih =>
    have hrest := ih fun s hs x hx => hids s hs x (by simp [hx])
    obtain ⟨due, hdue, hturn⟩ := due_ok (w := w) (hfirm s hs) start startAttached (hids s hs id (by simp))
    cases due with
    | none =>
      obtain ⟨n, s', hrun, hs'⟩ := hrest visited hs
      exact ⟨n, s', by simp [turns, hdue, hrun], hs'⟩
    | some handle =>
      obtain ⟨hway, k, hk, hhandler⟩ := hturn handle rfl
      obtain ⟨s₁, hrun₁, hs₁⟩ := hhandle s id k handle hs hway hk hhandler
      obtain ⟨n, s', hrun, hs'⟩ := hrest (visited + 1) hs₁
      exact ⟨n, s', by simp [turns, hdue, hrun₁, hrun], hs'⟩

end Walker

namespace Action

open Arena

section Yields

variable {α β : Type} {s : Run}

/-- The action succeeds. -/
def Yields (act : Action α) (s : Run) (Q : α → Run → Prop) : Prop :=
  ∃ r s', act s = .ok r s' ∧ Q r s'

lemma Yields.mono {act : Action α} {Q Q' : α → Run → Prop} (h : act.Yields s Q)
    (hQ : ∀ r s', Q r s' → Q' r s') : act.Yields s Q' := by
  obtain ⟨r, s', hrun, hs'⟩ := h
  exact ⟨r, s', hrun, hQ r s' hs'⟩

lemma Yields.and {act : Action α} {Q Q' : α → Run → Prop} (h : act.Yields s Q) (h' : act.Yields s Q') :
    act.Yields s fun r s' => Q r s' ∧ Q' r s' := by
  obtain ⟨r, s', hrun, hs'⟩ := h
  obtain ⟨r', s'', hrun', hs''⟩ := h'
  cases hrun.symm.trans hrun'
  exact ⟨r, s', hrun, hs', hs''⟩

lemma yields_bind {act : Action α} {f : α → Action β} {Q : β → Run → Prop}
    (h : act.Yields s fun r s' => (f r).Yields s' Q) : (act >>= f).Yields s Q := by
  obtain ⟨r, s₁, hact, r', s₂, hf, hs₂⟩ := h
  exact ⟨r', s₂, by simp [bind, EStateM.bind, hact, hf], hs₂⟩

lemma yields_pure (r : α) {Q : α → Run → Prop} (h : Q r s) : (pure r : Action α).Yields s Q :=
  ⟨r, s, rfl, h⟩

lemma yields_arena {Q : Arena → Run → Prop} (h : Q s.arena s) : arena.Yields s Q := ⟨_, s, rfl, h⟩

lemma yields_edit {e : Edit α} {P : α → Arena → Prop} {Q : α → Run → Prop}
    (h : e.Ensures s.arena P fun _ => False) (hQ : ∀ r b, P r b → Q r { s with arena := b }) :
    (edit e).Yields s Q := by
  unfold Edit.Ensures at h
  cases hrun : e s.arena with
  | ok r b =>
    rw [show e.run s.arena = .ok r b from hrun] at h
    exact ⟨r, _, by simp [edit, hrun], hQ r b h⟩
  | error f b =>
    rw [show e.run s.arena = .error f b from hrun] at h
    exact h.elim

lemma yields_line {id : NodeId} (hid : id < s.arena.size) : (line id).Yields s fun _ s' => s' = s := by
  obtain ⟨c, hc⟩ := exists_cell hid
  refine yields_bind ⟨c, s, by simp [ask, Arena.cell, hc], ?_⟩
  exact yields_pure _ rfl

lemma yields_modify (f : Run → Run) {Q : PUnit → Run → Prop} (h : Q ⟨⟩ (f s)) :
    (modify f : Action PUnit).Yields s Q := ⟨_, _, rfl, h⟩

end Yields

section Walk

variable {τ : Type} {order : Order} {start : τ} {handler : Kind → Option (NodeId → τ → Action τ)} {s : Run}
  {root : NodeId}

/-- A handler of nodes as one of a walker that carries the run and the value. -/
def handing (handle : NodeId → τ → Action τ) (id : NodeId) : EStateM PassFailure (Run × τ) Unit := fun (s, t) =>
  match handle id t s with
  | .ok t s => .ok () (s, t)
  | .error e s => .error e (s, t)

/-- The walker behind a walk. -/
def walker (handler : Kind → Option (NodeId → τ → Action τ)) : Walker (Run × τ) PassFailure where
  arena := (·.1.arena)
  ofArenaError := .edit
  handler kind := (handler kind).map handing

/-- A walk goes as the turns of its nodes go. -/
lemma walk_yields (hroot : s.arena.root = some root) {attached : Bool} {ids : List NodeId}
    (hsnapshot : Walker.snapshot s.arena root order = .ok (attached, ids)) {Q : τ → Run → Prop}
    (h : ∃ n s' t, (walker handler).turns root attached ids 0 (s, start) = (⟨n, none⟩, s', t) ∧ Q t s') :
    (walk order start handler).Yields s Q := by
  obtain ⟨n, s', t, hrun, hs'⟩ := h
  refine ⟨t, s', ?_, hs'⟩
  have hwalk : ((walker handler).run s.arena.root order).run (s, start) = (⟨n, none⟩, s', t) := by
    show (walker handler).run s.arena.root order (s, start) = _
    rw [hroot]
    simp only [Walker.run]
    rw [show Walker.snapshot ((walker handler).arena (s, start)) root order = _ from hsnapshot]
    exact hrun
  unfold walk
  extract_lets turn walker'
  rw [show walker'.run s.arena.root order = (walker handler).run s.arena.root order from rfl, hwalk]

/-- What the handlers of a walk keep holds after the walk, which does not fail if no handler ever does. -/
theorem walk_keeps {P : Run → τ → Prop} (hroot : s.arena.root = some root)
    (hfirm : ∀ s t, P s t → Firm s.arena.parentOf s.arena.childIds)
    (hsize : ∀ s' t, P s' t → s.arena.size ≤ s'.arena.size) (hrootSize : root < s.arena.size)
    (hhandle : ∀ s t id k handle, P s t → ReflTransGen s.arena.HasParent id root → s.arena.kind? id = some k →
      handler k = some handle → (handle id t).Yields s fun t' s' => P s' t') (hs : P s start) :
    (walk order start handler).Yields s fun t s' => P s' t := by
  obtain ⟨attached, ids, hsnapshot, hids⟩ := (hfirm s start hs).snapshot_ok hrootSize order
  have hturns : ∃ n x, (walker handler).turns root attached ids 0 (s, start) = (⟨n, none⟩, x) ∧ P x.1 x.2 := by
    refine Walker.turns_keeps (P := fun x : Run × τ => P x.1 x.2) (fun x => hfirm x.1 x.2)
      (fun (x : Run × τ) hx id hid => Nat.lt_of_lt_of_le (hids id hid) (hsize x.1 x.2 hx)) ?_ 0 hs
    rintro ⟨s, t⟩ id k turned hs hway hk hhandler
    obtain ⟨handle, hkind, rfl⟩ := Option.map_eq_some_iff.mp hhandler
    obtain ⟨t', s', hrun, hs'⟩ := hhandle s t id k handle hs hway hk hkind
    exact ⟨(s', t'), by simp only [handing, hrun], hs'⟩
  obtain ⟨n, ⟨s', t⟩, hrun, hs'⟩ := hturns
  exact walk_yields hroot hsnapshot ⟨n, s', t, hrun, hs'⟩

end Walk

end Action

/-- So many steps lead from one to another. -/
inductive InSteps {α : Type} (step : α → α → Prop) : Nat → α → α → Prop
  | zero (a : α) : InSteps step 0 a a
  | succ {n : Nat} {a b c : α} (h : InSteps step n a b) (hstep : step b c) : InSteps step (n + 1) a c

lemma InSteps.eq_of_zero {α : Type} {step : α → α → Prop} {a b : α} (h : InSteps step 0 a b) : b = a := by
  cases h
  rfl

/-- What every step keeps, all steps keep. -/
lemma InSteps.keeps {α : Type} {step : α → α → Prop} {P : α → Prop} (hP : ∀ a b, P a → step a b → P b) {n : Nat}
    {a b : α} (h : InSteps step n a b) (ha : P a) : P b := by
  induction h with
  | zero => exact ha
  | succ _ hstep ih => exact hP _ _ (ih ha) hstep

namespace Action

open Arena

/-- A turn that counts takes a step of the tree, and any other leaves the tree alone. -/
def Counts (step : Arena → Arena → Prop) (aside : Run → Run → Prop) (s : Run) (n : Nat) (s' : Run) (n' : Nat) : Prop :=
  (n' = n ∧ s'.arena = s.arena ∨ n' = n + 1 ∧ step s.arena s'.arena) ∧ aside s s'

/-- A walk takes as many steps as it counts. -/
theorem walk_counts {τ : Type} {P : Arena → Prop} {step : Arena → Arena → Prop} {aside : Run → Run → Prop}
    {order : Order} {start : τ} {handler : Kind → Option (NodeId → τ → Action τ)} (count : τ → Nat) {s : Run}
    {root : NodeId} (hP : ∀ a, P a → a.Rooted root) (hstep : ∀ a b, P a → step a b → P b ∧ a.size ≤ b.size)
    (hrefl : ∀ s, aside s s) (htrans : ∀ s s₁ s₂, aside s s₁ → aside s₁ s₂ → aside s s₂)
    (hhandle : ∀ s t id k handle, P s.arena → ReflTransGen s.arena.HasParent id root →
      s.arena.kind? id = some k → handler k = some handle →
        (handle id t).Yields s fun t' s' => Counts step aside s (count t) s' (count t'))
    (hs : P s.arena) (hstart : count start = 0) :
    (walk order start handler).Yields s fun t s' =>
      P s'.arena ∧ InSteps step (count t) s.arena s'.arena ∧ aside s s' := by
  have hrooted := hP _ hs
  refine (walk_keeps (P := fun s' t => P s'.arena ∧ s.arena.size ≤ s'.arena.size ∧
      InSteps step (count t) s.arena s'.arena ∧ aside s s') hrooted.root_eq (fun s' t h => (hP _ h.1).firm)
    (fun s' t h => h.2.1) hrooted.root_lt ?_ ⟨hs, Nat.le_refl _, hstart ▸ .zero _, hrefl s⟩).mono
    fun t s' h => ⟨h.1, h.2.2⟩
  rintro s₁ t id k handle ⟨hs₁, hsize, hsteps, haside⟩ hway hk hhandler
  refine (hhandle s₁ t id k handle hs₁ hway hk hhandler).mono fun t' s₂ h => ?_
  obtain ⟨⟨hn, harena⟩ | ⟨hn, hturn⟩, haside'⟩ := h
  · exact ⟨harena ▸ hs₁, harena ▸ hsize, harena ▸ hn ▸ hsteps, htrans _ _ _ haside haside'⟩
  · obtain ⟨hs₂, hsize'⟩ := hstep _ _ hs₁ hturn
    exact ⟨hs₂, Nat.le_trans hsize hsize', hn ▸ .succ hsteps hturn, htrans _ _ _ haside haside'⟩

/-- A walk that handles one kind of node takes as many steps as it counts. -/
theorem walkKind_counts {τ : Type} {P : Arena → Prop} {step : Arena → Arena → Prop} {aside : Run → Run → Prop}
    {order : Order} {kind : Kind} {start : τ} {handle : NodeId → τ → Action τ} (count : τ → Nat) {s : Run}
    {root : NodeId} (hP : ∀ a, P a → a.Rooted root) (hstep : ∀ a b, P a → step a b → P b ∧ a.size ≤ b.size)
    (hrefl : ∀ s, aside s s) (htrans : ∀ s s₁ s₂, aside s s₁ → aside s₁ s₂ → aside s s₂)
    (hhandle : ∀ s t id, P s.arena → ReflTransGen s.arena.HasParent id root → s.arena.kind? id = some kind →
      (handle id t).Yields s fun t' s' => Counts step aside s (count t) s' (count t'))
    (hs : P s.arena) (hstart : count start = 0) :
    (walkKind order kind start handle).Yields s fun t s' =>
      P s'.arena ∧ InSteps step (count t) s.arena s'.arena ∧ aside s s' := by
  refine walk_counts count hP hstep hrefl htrans (fun s t id k handle' hs hway hk hhandler => ?_) hs hstart
  obtain ⟨rfl, rfl⟩ : k = kind ∧ handle = handle' := by simpa using hhandler
  exact hhandle s t id hs hway hk

end Action

end PlainScript
