import PlainScript.Proofs.Growth
import PlainScript.Proofs.Subtrees

/-! What a walk visits. However the handlers change the arena, the nodes handed to them are nodes of the
subtree as it was in the beginning, in its order and none of them twice, and a node is handed over just if it
still belongs to the subtree at its turn. -/
namespace PlainScript

open Relation

/-- There is a way up from the node to the root. -/
def Arena.Attached (a : Arena) (id : NodeId) : Prop := ∃ root, a.root = some root ∧ ReflTransGen a.HasParent id root

open Classical in
lemma Arena.Firm.isAttached_eq {a : Arena} (h : Firm a.parentOf a.childIds) {id : NodeId} (hid : id < a.size) :
    a.isAttached id = .ok (decide (a.Attached id)) := by
  unfold isAttached
  cases hroot : a.root with
  | none => simp [Attached, hroot]
  | some root =>
    dsimp only
    rw [isWithin, h.reaches_eq hid (Nat.lt_succ_self _)]
    simp [Attached, hroot]

namespace Walker

variable {σ ε : Type} (w : Walker σ ε)

/-- The handler that also notes down its node. -/
def note (handle : NodeId → EStateM ε σ Unit) (id : NodeId) : EStateM ε (σ × List NodeId) Unit := fun (s, noted) =>
  match handle id s with
  | .ok () s => .ok () (s, noted ++ [id])
  | .error e s => .error e (s, noted ++ [id])

/-- The same walker, with notes of the nodes that are handed to its handlers. -/
def noting : Walker (σ × List NodeId) ε where
  arena s := w.arena s.1
  ofArenaError := w.ofArenaError
  handler kind := (w.handler kind).map note

/-- The state before the turn of the `k`th node of a walk. -/
def stateBefore (start : NodeId) (order : Order) (s : σ) (k : Nat) : σ :=
  match snapshot (w.arena s) start order with
  | .ok (startAttached, ids) => (w.turns start startAttached (ids.take k) 0 s).2
  | .error _ => s

/-- The node belongs to the subtree, is attached if that matters, and is of a kind that has a handler. -/
def IsDue (a : Arena) (start : NodeId) (mustBeAttached : Prop) (id : NodeId) : Prop :=
  (ReflTransGen a.HasParent id start ∧ (mustBeAttached → a.Attached id)) ∧
    ∃ kind, a.kind? id = some kind ∧ (w.handler kind).isSome

/-- Each call of a handler during the walk comes to its end. It changes the arena by edits, and otherwise leaves
slots and parents alone. -/
def MakesEdits (start : NodeId) (order : Order) (s : σ) : Prop :=
  ∀ ids k id kind handle, (w.arena s).collect start order = .ok ids → ids[k]? = some id →
    let now := w.stateBefore start order s k
    w.IsDue (w.arena now) start ((w.arena s).Attached start) id → (w.arena now).kind? id = some kind →
      w.handler kind = some handle →
        ∃ s', handle id now = .ok () s' ∧ ReflTransGen Edit.Change (w.arena now) (w.arena s')

variable {w}

@[simp] lemma handler_noting (kind : Kind) : w.noting.handler kind = (w.handler kind).map note := rfl

open Classical in
lemma due_eq {a : Arena} (h : a.Linked) (start : NodeId) (startAttached : Bool) {id : NodeId} (hid : id < a.size) :
    w.due a start startAttached id =
      .ok (if ReflTransGen a.HasParent id start ∧ (startAttached = true → a.Attached id) then
        (a.kind? id).bind w.handler else none) := by
  have hfirm := Arena.linked_iff_firm.mp h
  obtain ⟨c, hc⟩ := Arena.exists_cell hid
  have hkind : a.kind id = .ok c.kind := by simp [Arena.kind, Arena.cell, hc, Except.map]
  have hwithin : a.isWithin id start = .ok (decide (ReflTransGen a.HasParent id start)) :=
    hfirm.reaches_eq hid (Nat.lt_succ_self _)
  rw [due, hwithin, hfirm.isAttached_eq hid, hkind]
  by_cases hway : ReflTransGen a.HasParent id start <;> by_cases hatt : a.Attached id <;> cases startAttached <;>
    simp [hway, hatt, Arena.kind?, hc, bind, Except.bind, pure, Except.pure]

lemma exists_due {a : Arena} (h : a.Linked) {start : NodeId} {startAttached : Bool} {id : NodeId} (hid : id < a.size)
    (hdue : w.IsDue a start (startAttached = true) id) : ∃ kind handle, a.kind? id = some kind ∧
      w.handler kind = some handle ∧ w.due a start startAttached id = .ok (some handle) ∧
      w.noting.due a start startAttached id = .ok (some (note handle)) := by
  obtain ⟨hplace, kind, hkind, hhandler⟩ := hdue
  obtain ⟨handle, hhandle⟩ := Option.isSome_iff_exists.mp hhandler
  refine ⟨kind, handle, hkind, hhandle, ?_, ?_⟩
  · rw [due_eq h _ _ hid, if_pos hplace, hkind, Option.bind_some, hhandle]
  · rw [due_eq h _ _ hid, if_pos hplace, hkind, Option.bind_some, handler_noting, hhandle, Option.map_some]

lemma due_eq_none {a : Arena} (h : a.Linked) {start : NodeId} {startAttached : Bool} {id : NodeId} (hid : id < a.size)
    (hdue : ¬ w.IsDue a start (startAttached = true) id) :
    w.due a start startAttached id = .ok none ∧ w.noting.due a start startAttached id = .ok none := by
  obtain ⟨kind, hkind⟩ := Arena.exists_kind hid
  rw [due_eq h _ _ hid, due_eq h _ _ hid, hkind, Option.bind_some, Option.bind_some]
  split
  next hplace =>
    have hnone : w.handler kind = none := by
      by_contra hsome
      exact hdue ⟨hplace, kind, hkind, Option.isSome_iff_ne_none.mpr hsome⟩
    simp [hnone]
  next => exact ⟨rfl, rfl⟩

/-- One turn after the other: the nodes that are visited are those that are due at their turn. -/
lemma turns_visits {start : NodeId} {startAttached : Bool} {ids : List NodeId} (hnodup : ids.Nodup) (n : Nat) {s : σ}
    (noted : List NodeId) (hlinked : (w.arena s).Linked) (hids : ∀ id ∈ ids, id < (w.arena s).size)
    (hedits : ∀ k id kind handle, ids[k]? = some id →
      let now := (w.turns start startAttached (ids.take k) n s).2
      w.IsDue (w.arena now) start (startAttached = true) id → (w.arena now).kind? id = some kind →
        w.handler kind = some handle →
          ∃ s', handle id now = .ok () s' ∧ ReflTransGen Edit.Change (w.arena now) (w.arena s')) :
    ∃ visits s', w.turns start startAttached ids n s = (⟨n + visits.length, none⟩, s') ∧
      w.noting.turns start startAttached ids n (s, noted) = (⟨n + visits.length, none⟩, s', noted ++ visits) ∧
      visits.Sublist ids ∧ ∀ k id, ids[k]? = some id →
        (id ∈ visits ↔
          w.IsDue (w.arena (w.turns start startAttached (ids.take k) n s).2) start (startAttached = true) id) := by
  induction ids generalizing n s noted with
  | nil => exact ⟨[], s, rfl, by simp [turns], .slnil, by simp⟩
  | cons id rest ih =>
    rw [List.nodup_cons] at hnodup
    rw [List.forall_mem_cons] at hids
    by_cases hdue : w.IsDue (w.arena s) start (startAttached = true) id
    · obtain ⟨kind, handle, hkind, hhandler, hturn, hnoting⟩ := exists_due hlinked hids.1 hdue
      obtain ⟨s₁, hrun, hchange⟩ : ∃ s₁, handle id s = .ok () s₁ ∧
          ReflTransGen Edit.Change (w.arena s) (w.arena s₁) := hedits 0 id kind handle rfl hdue hkind hhandler
      have hstep (ids : List NodeId) : w.turns start startAttached (id :: ids) n s =
          w.turns start startAttached ids (n + 1) s₁ := by simp [turns, hturn, hrun]
      obtain ⟨hlinked₁, hsize⟩ := Edit.linked_of_changes hchange hlinked
      rw [hstep]
      obtain ⟨visits, s', hturns, hnotes, hsub, hvisits⟩ := ih hnodup.2 (n + 1) (noted ++ [id]) hlinked₁
        (fun x hx => Nat.lt_of_lt_of_le (hids.2 x hx) hsize)
        (fun k => by simpa only [List.getElem?_cons_succ, List.take_succ_cons, hstep] using hedits (k + 1))
      refine ⟨id :: visits, s', ?_, ?_, hsub.cons_cons id, fun k x hx => ?_⟩
      · rw [hturns, List.length_cons, Nat.add_assoc, Nat.add_comm 1]
      · rw [turns, show w.noting.due (w.noting.arena (s, noted)) start startAttached id = _ from hnoting]
        simp only [note, hrun]
        rw [hnotes, List.length_cons, Nat.add_assoc, Nat.add_comm 1, List.append_assoc, List.singleton_append]
      · cases k with
        | zero =>
          obtain rfl : id = x := by simpa using hx
          simpa [turns] using hdue
        | succ k =>
          rw [List.getElem?_cons_succ] at hx
          have hne : x ≠ id := ne_of_mem_of_not_mem (List.mem_of_getElem? hx) hnodup.1
          rw [List.take_succ_cons, hstep, ← hvisits k x hx, List.mem_cons, or_iff_right hne]
    · obtain ⟨hturn, hnoting⟩ := due_eq_none hlinked hids.1 hdue
      have hstep (ids : List NodeId) : w.turns start startAttached (id :: ids) n s =
          w.turns start startAttached ids n s := by simp [turns, hturn]
      rw [hstep]
      obtain ⟨visits, s', hturns, hnotes, hsub, hvisits⟩ := ih hnodup.2 n noted hlinked hids.2
        (fun k => by simpa only [List.getElem?_cons_succ, List.take_succ_cons, hstep] using hedits (k + 1))
      refine ⟨visits, s', hturns, ?_, hsub.cons id, fun k x hx => ?_⟩
      · rw [turns, show w.noting.due (w.noting.arena (s, noted)) start startAttached id = _ from hnoting]
        exact hnotes
      · cases k with
        | zero =>
          obtain rfl : id = x := by simpa using hx
          exact iff_of_false (fun hmem => hnodup.1 (hsub.subset hmem)) (by simpa [turns] using hdue)
        | succ k =>
          rw [List.getElem?_cons_succ] at hx
          rw [List.take_succ_cons, hstep, ← hvisits k x hx]

/-- A walk whose handlers do not fail comes to its end. The nodes that it hands to them are some of those that
were listed before the first handler ran, in the same order, and none twice; so no node that is added meanwhile
is among them. A listed node is handed over once if it is due at its turn, and not at all otherwise. -/
theorem run_visits {start : NodeId} {order : Order} {s : σ} (hlinked : (w.arena s).Linked)
    (hstart : start < (w.arena s).size) (hedits : w.MakesEdits start order s) :
    ∃ ids visits s', (w.arena s).collect start order = .ok ids ∧
      w.run (some start) order s = (⟨visits.length, none⟩, s') ∧
      w.noting.run (some start) order (s, []) = (⟨visits.length, none⟩, s', visits) ∧
      visits.Sublist ids ∧ visits.Nodup ∧ (∀ id ∈ visits, id < (w.arena s).size) ∧
      ∀ k id, ids[k]? = some id →
        let due := w.IsDue (w.arena (w.stateBefore start order s k)) start ((w.arena s).Attached start) id
        (due → visits.count id = 1) ∧ (¬ due → id ∉ visits) := by
  classical
  have hfirm := Arena.linked_iff_firm.mp hlinked
  obtain ⟨startAttached, ids, hsnapshot, hids⟩ := hfirm.snapshot_ok hstart order
  obtain ⟨hattached, hcollect⟩ : (w.arena s).isAttached start = .ok startAttached ∧
      (w.arena s).collect start order = .ok ids := by
    simp only [snapshot, hfirm.isAttached_eq hstart, hfirm.collect_eq hstart] at hsnapshot ⊢
    cases hsnapshot
    exact ⟨rfl, rfl⟩
  have hwas : startAttached = true ↔ (w.arena s).Attached start := by
    rw [hfirm.isAttached_eq hstart] at hattached
    cases hattached
    exact decide_eq_true_iff
  have hnodup : ids.Nodup := hfirm.nodup_collect hstart hcollect
  have hrun : w.run (some start) order s = w.turns start startAttached ids 0 s := by
    simp only [run, hsnapshot]
  have hnoting : w.noting.run (some start) order (s, []) = w.noting.turns start startAttached ids 0 (s, []) := by
    simp only [run, show snapshot (w.noting.arena (s, [])) start order = _ from hsnapshot]
  rw [hrun]
  have hchange := fun k id kind handle => hedits ids k id kind handle hcollect
  simp only [stateBefore, hsnapshot, ← hwas] at hchange
  obtain ⟨visits, s', hturns, hnotes, hsub, hvisits⟩ := turns_visits hnodup 0 [] hlinked hids hchange
  rw [Nat.zero_add] at hturns hnotes
  refine ⟨ids, visits, s', hcollect, hturns, hnoting.trans hnotes, hsub, hnodup.sublist hsub,
    fun id hid => hids id (hsub.subset hid), fun k id hk => ?_⟩
  have hmem := hvisits k id hk
  rw [hwas] at hmem
  simp only [stateBefore, hsnapshot]
  refine ⟨fun hdue => ?_, fun hdue hid => hdue (hmem.mp hid)⟩
  exact List.count_eq_one_of_mem (hnodup.sublist hsub) (hmem.mpr hdue)

/-- A walker that removes blocks and debugger statements. -/
def removing : Walker Arena ArenaError where
  arena a := a
  ofArenaError e := e
  handler kind := if kind = .blockStatement ∨ kind = .debuggerStatement then some Edit.remove else none

lemma removing_makesEdits {start : NodeId} {order : Order} {a : Arena} {ids : List NodeId}
    (hids : a.collect start order = .ok ids)
    (hok : ∀ k id kind, ids[k]? = some id → (removing.stateBefore start order a k).kind? id = some kind →
      (removing.handler kind).isSome → ((Edit.remove id).run' (removing.stateBefore start order a k)).isSome) :
    removing.MakesEdits start order a := by
  intro _ k id kind handle hcollect hk now _ hkind hhandler
  cases hids.symm.trans hcollect
  obtain ⟨-, rfl⟩ : (kind = .blockStatement ∨ kind = .debuggerStatement) ∧ Edit.remove = handle := by
    simpa [removing] using hhandler
  obtain ⟨b, hrun⟩ : ∃ b, Edit.remove id now = .ok () b := by
    have hdone : (EStateM.run' (fun _ => Edit.remove id now) now).isSome := hok k id kind hk hkind (by simp [hhandler])
    cases hrun : Edit.remove id now with
    | error e b =>
      rw [hrun] at hdone
      exact nomatch hdone
    | ok u b => exact ⟨b, rfl⟩
  refine ⟨b, hrun, .single (.edit ⟨.remove id, Arena.lt_size_of_kind? hkind, ?_⟩)⟩
  simp only [Edit.Call.run, Edit.after]
  rw [show (Edit.remove id).run (removing.arena now) = .ok () b from hrun]
  rfl

/-- The inner statement goes with its block, so that it is no longer due at its turn. -/
theorem run_visits_removedBlock :
    ∃ script, parse ("\x7b debugger; \x7d debugger;" : Text) {} = .ok script ∧
      let a := Arena.ofTree script.tree
      a.Linked ∧ 3 < a.size ∧ removing.MakesEdits 3 .pre a ∧ a.collect 3 .pre = .ok [3, 1, 0, 2] ∧
        (removing.noting.run (some 3) .pre (a, [])).2.2 = [1, 2] ∧
        ¬ removing.IsDue (removing.stateBefore 3 .pre a 2) 3 (a.Attached 3) 0 := by
  have hrun : (parse ("\x7b debugger; \x7d debugger;" : Text) {}).toOption.any (fun script =>
      let a := Arena.ofTree script.tree
      3 < a.size && a.collect 3 .pre = .ok [3, 1, 0, 2] &&
        (removing.noting.run (some 3) .pre (a, [])).2.2 = [1, 2] &&
        ([3, 1, 0, 2].zipIdx.all fun (id, k) =>
          let now := removing.stateBefore 3 .pre a k
          !(now.kind? id).any (fun kind => (removing.handler kind).isSome) || ((Edit.remove id).run' now).isSome)) := by
    decide +kernel
  cases hs : parse ("\x7b debugger; \x7d debugger;" : Text) {} with
  | error e => simp [hs, Except.toOption] at hrun
  | ok script =>
    simp only [hs, Except.toOption, Option.any_some, Bool.and_eq_true, decide_eq_true_eq] at hrun
    obtain ⟨⟨⟨hsize, hcollect⟩, hnoted⟩, hremovals⟩ := hrun
    have hlinked : (Arena.ofTree script.tree).Linked := Arena.linked_iff_firm.mpr (Arena.ofTree_firm _)
    have hedits : removing.MakesEdits 3 .pre (Arena.ofTree script.tree) := by
      refine removing_makesEdits hcollect fun k id kind hk hkind hhandler => ?_
      have hentry := List.all_eq_true.mp hremovals (id, k) (List.mem_zipIdx_iff_getElem?.mpr hk)
      simpa [hkind, hhandler] using hentry
    refine ⟨script, rfl, hlinked, hsize, hedits, hcollect, hnoted, fun hdue => ?_⟩
    obtain ⟨ids, visits, s', hids, -, hnotes, -, -, -, hvisits⟩ :=
      run_visits (s := Arena.ofTree script.tree) hlinked hsize hedits
    obtain rfl : [3, 1, 0, 2] = ids := Except.ok.inj (hcollect.symm.trans hids)
    obtain rfl : visits = [1, 2] := by rwa [hnotes] at hnoted
    exact absurd ((hvisits 2 0 rfl).1 hdue) (by decide)

end Walker

end PlainScript
