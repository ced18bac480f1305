import PlainScript.Grammar.Script
import PlainScript.Proofs.EditRuns
import PlainScript.Proofs.Walks

/-! Subtrees. The nodes below a node are listed by recursion over its children, in pre-order and in
post-order. In an arena whose links are in step the traversals, which keep a stack, list the same nodes
in the same order, and these are the nodes from which a way up leads to the first one. -/
namespace PlainScript.Arena

open Relation

/-- The nodes at most `depth` levels below a node, each before what is below it, with the children
taken in the order that `arrange` gives them. -/
def listTo (a : Arena) (arrange : List NodeId → List NodeId) : Nat → NodeId → List NodeId
  | 0, id => [id]
  | depth + 1, id => id :: (arrange (a.childIds id)).flatMap (a.listTo arrange depth)

/-- A node and all nodes below it. No way down has more levels than there are nodes. -/
def listing (a : Arena) (arrange : List NodeId → List NodeId) (id : NodeId) : List NodeId :=
  a.listTo arrange a.size id

/-- A subtree with each node before what is below it. -/
def preorder (a : Arena) : NodeId → List NodeId := a.listing id

/-- A subtree with each node behind what is below it. -/
def postorder (a : Arena) (start : NodeId) : List NodeId := (a.listing List.reverse start).reverse

/-- The nodes below the root in the order of a walk. -/
def turnsOf (a : Arena) (root : NodeId) : Order → List NodeId
  | .pre => a.preorder root
  | .post => a.postorder root

variable {a : Arena} {arrange : List NodeId → List NodeId}

lemma pathCount_eq (harrange : ∀ cs, (arrange cs).Perm cs) (depth : Nat) (id : NodeId) :
    a.pathCount depth id = (a.listTo arrange depth id).length := by
  induction depth generalizing id with
  | zero => rfl
  | succ depth ih =>
    have hsum (cs : List NodeId) : cs.foldr (fun c n => a.pathCount depth c + n) 0 =
        (cs.flatMap (a.listTo arrange depth)).length := by
      induction cs with
      | nil => rfl
      | cons c rest hrest => rw [List.foldr_cons, List.flatMap_cons, List.length_append, hrest, ih]
    rw [pathCount, listTo, List.length_cons, hsum, Nat.add_comm, ((harrange _).flatMap_right _).length_eq]

section Firm

variable (h : Firm a.parentOf a.childIds)
include h

/-- A way up can begin at a child of the node where it began. -/
lemma Firm.longer_way {c id : NodeId} {above : List NodeId} (hway : (id :: above).Pairwise (TransGen a.HasParent))
    (hc : c ∈ a.childIds id) : (c :: id :: above).Pairwise (TransGen a.HasParent) := by
  have hup : TransGen a.HasParent c id := .single (h.mem_iff.mp hc)
  exact List.pairwise_cons.mpr
    ⟨List.forall_mem_cons.mpr ⟨hup, fun x hx => hup.trans ((List.pairwise_cons.mp hway).1 x hx)⟩, hway⟩

/-- At the end of a way that leaves no node out, more levels list no more nodes. -/
lemma Firm.listTo_succ (harrange : ∀ cs, (arrange cs).Perm cs) {depth : Nat} {id : NodeId}
    {above : List NodeId} (hway : (id :: above).Pairwise (TransGen a.HasParent))
    (hlt : ∀ x ∈ id :: above, x < a.size) (hlong : a.size ≤ depth + above.length + 1) :
    a.listTo arrange (depth + 1) id = a.listTo arrange depth id := by
  induction depth generalizing id above with
  | zero =>
    have hnone : a.childIds id = [] := by
      refine List.eq_nil_iff_forall_not_mem.mpr fun c hc => ?_
      have hle := h.length_le (fun x y hxy => .inl hxy) (h.longer_way hway hc)
        (List.forall_mem_cons.mpr ⟨h.child_lt hc, hlt⟩)
      simp only [List.length_cons] at hle
      omega
    have hnil : arrange [] = [] := (harrange []).eq_nil
    simp [listTo, hnone, hnil]
  | succ depth ih =>
    rw [listTo, listTo]
    congr 1
    refine List.flatMap_congr fun c hc => ?_
    have hc := (harrange _).mem_iff.mp hc
    exact ih (h.longer_way hway hc) (List.forall_mem_cons.mpr ⟨h.child_lt hc, hlt⟩)
      (by simp only [List.length_cons]; omega)

/-- A listing is the node and the listings of its children. -/
theorem Firm.listing_eq (harrange : ∀ cs, (arrange cs).Perm cs) {id : NodeId} (hid : id < a.size) :
    a.listing arrange id = id :: (arrange (a.childIds id)).flatMap (a.listing arrange) := by
  have hsucc : a.listTo arrange (a.size + 1) id = a.listTo arrange a.size id :=
    h.listTo_succ harrange (List.pairwise_singleton _ id) (by simpa using hid) (by simp)
  exact hsucc.symm

/-- What is still to be visited is listed node by node in as many steps as there are nodes. -/
lemma Firm.visit_eq (harrange : ∀ cs, (arrange cs).Perm cs) (steps : Nat) {stack : List NodeId}
    (hstack : ∀ id ∈ stack, id < a.size) (hsteps : (stack.flatMap (a.listing arrange)).length = steps) :
    a.visit arrange steps stack = .ok (stack.flatMap (a.listing arrange)) := by
  induction steps generalizing stack with
  | zero =>
    cases stack with
    | nil => rfl
    | cons top rest => simp [h.listing_eq harrange (hstack top (by simp))] at hsteps
  | succ steps ih =>
    cases stack with
    | nil => simp at hsteps
    | cons top rest =>
      rw [List.forall_mem_cons] at hstack
      have hnext : (top :: rest).flatMap (a.listing arrange) =
          top :: (arrange (a.childIds top) ++ rest).flatMap (a.listing arrange) := by
        rw [List.flatMap_cons, h.listing_eq harrange hstack.1, List.cons_append, List.flatMap_append]
      have hlt : ∀ id ∈ arrange (a.childIds top) ++ rest, id < a.size :=
        List.forall_mem_append.mpr ⟨fun _ hc => h.child_lt ((harrange _).mem_iff.mp hc), hstack.2⟩
      rw [hnext, List.length_cons, Nat.add_right_cancel_iff] at hsteps
      rw [hnext, visit, children_eq_ok hstack.1]
      simp only [ih hlt hsteps]

/-- The traversals list a subtree as the recursion over its children does. -/
theorem Firm.collect_eq {start : NodeId} (hstart : start < a.size) (order : Order) :
    a.collect start order = .ok (match order with
      | .pre => a.preorder start
      | .post => a.postorder start) := by
  have hvisit (arrange : List NodeId → List NodeId) (harrange : ∀ cs, (arrange cs).Perm cs) :
      a.visit arrange (a.pathCount a.size start) [start] = .ok (a.listing arrange start) := by
    rw [h.visit_eq harrange _ (by simpa using hstart) (by simp [listing, pathCount_eq harrange])]
    simp
  cases order with
  | pre => exact hvisit id .refl
  | post => simp only [collect, hvisit _ List.reverse_perm, Except.map, postorder]

theorem Firm.preorder_eq {id : NodeId} (hid : id < a.size) :
    a.preorder id = id :: (a.childIds id).flatMap a.preorder := h.listing_eq .refl hid

theorem Firm.postorder_eq {id : NodeId} (hid : id < a.size) :
    a.postorder id = (a.childIds id).flatMap a.postorder ++ [id] := by
  rw [postorder, h.listing_eq List.reverse_perm hid, List.reverse_cons, List.reverse_flatMap,
    List.reverse_reverse]
  rfl

lemma Firm.way_of_mem_listTo (harrange : ∀ cs, (arrange cs).Perm cs) {depth : Nat} {id top : NodeId}
    (hid : id ∈ a.listTo arrange depth top) : ReflTransGen a.HasParent id top := by
  induction depth generalizing top with
  | zero => rw [List.mem_singleton.mp hid]
  | succ depth ih =>
    obtain rfl | hid := List.mem_cons.mp hid
    · exact .refl
    · obtain ⟨c, hc, hid⟩ := List.mem_flatMap.mp hid
      exact (ih hid).tail (h.mem_iff.mp ((harrange _).mem_iff.mp hc))

/-- What is listed below a node is what has a way up to it. -/
theorem Firm.mem_listing (harrange : ∀ cs, (arrange cs).Perm cs) {id start : NodeId}
    (hstart : start < a.size) : id ∈ a.listing arrange start ↔ ReflTransGen a.HasParent id start := by
  refine ⟨h.way_of_mem_listTo harrange, fun hup => ?_⟩
  induction hup with
  | refl => simp [h.listing_eq harrange hstart]
  | @tail c top hway hc ih =>
    rw [h.listing_eq harrange hstart]
    have hmem : c ∈ arrange (a.childIds top) := (harrange _).mem_iff.mpr (h.mem_iff.mpr hc)
    exact List.mem_cons_of_mem _ (List.mem_flatMap.mpr ⟨c, hmem, ih (lt_size_of_parentOf hc)⟩)

/-- Nothing is below two children of one node. -/
lemma Firm.disjoint_of_children {p c d x : NodeId} (hc : a.HasParent c p) (hd : a.HasParent d p) (hne : c ≠ d)
    (hxc : ReflTransGen a.HasParent x c) : ¬ ReflTransGen a.HasParent x d := by
  intro hxd
  have hloop {c d : NodeId} (hc : a.HasParent c p) (hd : a.HasParent d p) (hne : c ≠ d)
      (hcd : ReflTransGen a.HasParent c d) : False := by
    obtain rfl | ⟨q, hq, hqd⟩ := hcd.cases_head
    · exact hne rfl
    · obtain rfl : q = p := Option.some.inj (hq.symm.trans hc)
      exact h.acyclic q (.tail' hqd hd)
  have hunique : Relator.RightUnique a.HasParent := fun _ _ _ hy hz => Option.some.inj (hy.symm.trans hz)
  obtain hcd | hdc := ReflTransGen.total_of_right_unique hunique hxc hxd
  · exact hloop hc hd hne hcd
  · exact hloop hd hc hne.symm hdc

/-- No node is listed twice. -/
theorem Firm.nodup_listing (harrange : ∀ cs, (arrange cs).Perm cs) (start : NodeId) :
    (a.listing arrange start).Nodup := by
  have hnodup (depth : Nat) (top : NodeId) : (a.listTo arrange depth top).Nodup := by
    induction depth generalizing top with
    | zero => exact List.nodup_singleton top
    | succ depth ih =>
      have hchild {c : NodeId} (hc : c ∈ arrange (a.childIds top)) : a.HasParent c top :=
        h.mem_iff.mp ((harrange _).mem_iff.mp hc)
      refine List.nodup_cons.mpr ⟨fun hmem => ?_, List.nodup_flatMap.mpr ⟨fun c _ => ih c, ?_⟩⟩
      · obtain ⟨c, hc, hid⟩ := List.mem_flatMap.mp hmem
        exact h.acyclic top (.tail' (h.way_of_mem_listTo harrange hid) (hchild hc))
      · refine ((harrange _).nodup_iff.mpr (h.nodup top)).pairwise_of_forall_ne fun c hc d hd hne => ?_
        intro x hxc hxd
        exact h.disjoint_of_children (hchild hc) (hchild hd) hne (h.way_of_mem_listTo harrange hxc)
          (h.way_of_mem_listTo harrange hxd)
  exact hnodup a.size start

lemma Firm.nodup_collect {start : NodeId} (hstart : start < a.size) {order : Order} {ids : List NodeId}
    (hids : a.collect start order = .ok ids) : ids.Nodup := by
  rw [h.collect_eq hstart] at hids
  cases order with
  | pre =>
    cases hids
    exact h.nodup_listing .refl start
  | post =>
    cases hids
    exact List.nodup_reverse.mpr (h.nodup_listing List.reverse_perm start)

/-- A way up is followed to its end by any climb of more steps than there are nodes left. -/
lemma Firm.reaches_of_way {goal id : NodeId} (hway : ReflTransGen a.HasParent id goal) {steps : Nat}
    {below : List NodeId} (hbelow : (id :: below).Pairwise fun x y => TransGen a.HasParent y x)
    (hlt : ∀ x ∈ id :: below, x < a.size) (hsteps : a.size < steps + below.length) :
    a.reaches goal steps (some id) = .ok true := by
  induction steps generalizing id below with
  | zero =>
    have hle := h.length_le (fun x y hxy => .inr hxy) hbelow hlt
    simp only [List.length_cons] at hle
    omega
  | succ steps ih =>
    rw [reaches]
    split
    · rfl
    next hne =>
      obtain rfl | ⟨p, hp, hpg⟩ := hway.cases_head
      · exact absurd rfl hne
      rw [parent_eq_ok (hlt id (by simp)), show a.parentOf id = some p from hp]
      have hup : TransGen a.HasParent id p := .single hp
      have hnext : (p :: id :: below).Pairwise fun x y => TransGen a.HasParent y x := List.pairwise_cons.mpr
        ⟨List.forall_mem_cons.mpr ⟨hup, fun x hx => ((List.pairwise_cons.mp hbelow).1 x hx).trans hup⟩, hbelow⟩
      exact ih hpg hnext (List.forall_mem_cons.mpr ⟨h.parent_lt hp, hlt⟩) (by simp only [List.length_cons]; omega)

open Classical in
/-- A climb of more steps than there are nodes finds whether there is a way up. -/
theorem Firm.reaches_eq {goal id : NodeId} (hid : id < a.size) {steps : Nat} (hsteps : a.size < steps) :
    a.reaches goal steps (some id) = .ok (decide (ReflTransGen a.HasParent id goal)) := by
  by_cases hway : ReflTransGen a.HasParent id goal
  · rw [decide_eq_true hway]
    exact h.reaches_of_way hway (List.pairwise_singleton ..) (by simpa using hid) (by simpa using hsteps)
  · rw [decide_eq_false hway]
    have hslot : ∀ x ∈ some id, x < a.size := by simpa using hid
    obtain ⟨found, hfound, hup⟩ := h.reaches_ok goal steps hslot
    cases found with
    | false => exact hfound
    | true =>
      obtain ⟨_, ⟨⟩, hgoal⟩ := hup rfl
      exact absurd hgoal hway

end Firm

/-- Climbing and descending agree. A node is found within another one, or attached to the root, exactly when
it is listed below it, which is when there is a way up; and no climb ends early, for more steps than there are
nodes find nothing else. -/
theorem climb_iff_listed {root : NodeId} (h : a.Linked) (hroot : a.root = some root) (hrootSize : root < a.size) :
    (∀ id < a.size, ∀ ancestor < a.size, ∃ ids, a.collect ancestor .pre = .ok ids ∧
      (id ∈ ids ↔ ReflTransGen a.HasParent id ancestor) ∧
      a.isWithin id ancestor = .ok (decide (id ∈ ids)) ∧
      ∀ steps > a.size, a.reaches ancestor steps (some id) = a.isWithin id ancestor) ∧
    ∀ id < a.size, ∃ ids, a.collect root .pre = .ok ids ∧ a.isAttached id = .ok (decide (id ∈ ids)) := by
  have hfirm := linked_iff_firm.mp h
  have hcollect {ancestor : NodeId} (ha : ancestor < a.size) :
      a.collect ancestor .pre = .ok (a.preorder ancestor) := hfirm.collect_eq ha .pre
  have hmem {id ancestor : NodeId} (ha : ancestor < a.size) :
      id ∈ a.preorder ancestor ↔ ReflTransGen a.HasParent id ancestor := hfirm.mem_listing .refl ha
  have hclimb {id ancestor : NodeId} (hid : id < a.size) (ha : ancestor < a.size) {steps : Nat}
      (hsteps : a.size < steps) :
      a.reaches ancestor steps (some id) = .ok (decide (id ∈ a.preorder ancestor)) := by
    rw [hfirm.reaches_eq hid hsteps, decide_eq_decide.mpr (hmem ha)]
  have hwithin {id ancestor : NodeId} (hid : id < a.size) (ha : ancestor < a.size) :
      a.isWithin id ancestor = .ok (decide (id ∈ a.preorder ancestor)) := hclimb hid ha (Nat.lt_succ_self _)
  refine ⟨fun id hid ancestor ha => ⟨_, hcollect ha, hmem ha, hwithin hid ha, fun steps hsteps => ?_⟩,
    fun id hid => ⟨_, hcollect hrootSize, ?_⟩⟩
  · rw [hclimb hid ha hsteps, hwithin hid ha]
  · rw [isAttached, hroot]
    exact hwithin hid hrootSize

/-- The root is a call inside a statement, so that the statement is not attached but what is in the call is. -/
theorem climb_iff_listed_innerRoot :
    ∃ script, parse ("f(x);" : Text) {} = .ok script ∧
      let a : Arena := { Arena.ofTree script.tree with root := some 2 }
      a.Linked ∧ a.root = some 2 ∧ 2 < a.size ∧ a.parentOf 2 = some 3 ∧ a.collect 2 .pre = .ok [2, 0, 1] ∧
        a.isAttached 1 = .ok true ∧ a.isAttached 3 = .ok false ∧ a.isWithin 2 3 = .ok true := by
  have hrun : (parse ("f(x);" : Text) {}).toOption.any (fun script =>
      let a : Arena := { Arena.ofTree script.tree with root := some 2 }
      a.size = 5 && a.parentOf 2 = some 3 && a.collect 2 .pre = .ok [2, 0, 1] &&
        a.collect 3 .pre = .ok [3, 2, 0, 1]) := by decide +kernel
  cases hs : parse ("f(x);" : Text) {} with
  | error e => simp [hs, Except.toOption] at hrun
  | ok script =>
    simp only [hs, Except.toOption, Option.any_some, Bool.and_eq_true, decide_eq_true_eq] at hrun
    refine ⟨script, rfl, ?_⟩
    generalize ha : ({ Arena.ofTree script.tree with root := some 2 } : Arena) = a at hrun
    obtain ⟨⟨⟨hsize, hparent⟩, hcall⟩, hstatement⟩ := hrun
    have hroot : a.root = some 2 := ha ▸ rfl
    have hlinked : a.Linked := by
      obtain ⟨h₁, h₂, h₃, h₄⟩ := linked_iff_firm.mpr (Arena.ofTree_firm script.tree)
      exact ha ▸ ⟨h₁, h₂, h₃, h₄⟩
    have hlt (id : NodeId) (hid : id < 5) : id < a.size := hsize ▸ hid
    obtain ⟨hclimb, hattached⟩ := climb_iff_listed hlinked hroot (hlt 2 (by decide))
    refine ⟨hlinked, hroot, hlt 2 (by decide), hparent, hcall, ?_, ?_, ?_⟩
    · obtain ⟨ids, hids, h⟩ := hattached 1 (hlt 1 (by decide))
      cases hcall.symm.trans hids
      exact h
    · obtain ⟨ids, hids, h⟩ := hattached 3 (hlt 3 (by decide))
      cases hcall.symm.trans hids
      exact h
    · obtain ⟨ids, hids, -, h, -⟩ := hclimb 2 (hlt 2 (by decide)) 3 (hlt 3 (by decide))
      cases hstatement.symm.trans hids
      exact h

end PlainScript.Arena
