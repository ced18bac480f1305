import PlainScript.Proofs.Subtrees

/-! The traversals as recursions. What a subtree is in pre-order or in post-order is said by recursion over lists of
children. The loop of a traversal has a stack and no recursion; each round visits the node on top and puts its children
in its place, so that the forest that is still to be visited is always on the stack. For post-order the stack takes the
forest from right to left, and what was visited is turned around in the end. -/
namespace PlainScript

open Relation

/-- How the loop takes the nodes of a list, and what becomes of the list of the visited nodes after it. -/
def Order.arrange : Order → List NodeId → List NodeId
  | .pre => id
  | .post => List.reverse

lemma Order.arrange_perm (order : Order) (cs : List NodeId) : (order.arrange cs).Perm cs := by
  cases order with
  | pre => exact .refl cs
  | post => exact cs.reverse_perm

namespace Arena

/-- The nodes `ids` are those of the forest below some nodes, listed from left to right: each node in front of what is
below it, or behind it. -/
inductive Lists (a : Arena) : Order → List NodeId → List NodeId → Prop
  | nil (order : Order) : Lists a order [] []
  | pre {id : NodeId} {rest below behind : List NodeId} (hbelow : Lists a .pre (a.childIds id) below)
      (hbehind : Lists a .pre rest behind) : Lists a .pre (id :: rest) (id :: below ++ behind)
  | post {id : NodeId} {rest below behind : List NodeId} (hbelow : Lists a .post (a.childIds id) below)
      (hbehind : Lists a .post rest behind) : Lists a .post (id :: rest) (below ++ id :: behind)

/-- A round of the loop, from a stack and the nodes visited before to the next ones. -/
inductive Round (a : Arena) (order : Order) : List NodeId × List NodeId → List NodeId × List NodeId → Prop
  | visit {id : NodeId} {stack seen children : List NodeId} (h : a.children id = .ok children) :
      Round a order (id :: stack, seen) (order.arrange children ++ stack, seen ++ [id])

variable {a : Arena} {order : Order} {forest stack seen ids : List NodeId}

/-- There is only one listing of a forest. -/
lemma Lists.unique (h : a.Lists order forest ids) {other : List NodeId} (hother : a.Lists order forest other) :
    other = ids := by
  induction h generalizing other with
  | nil =>
    cases hother
    rfl
  | pre _ _ ih ihRest =>
    cases hother with
    | pre hbelow hbehind => rw [ih hbelow, ihRest hbehind]
  | post _ _ ih ihRest =>
    cases hother with
    | post hbelow hbehind => rw [ih hbelow, ihRest hbehind]

/-- The loop visits a forest that is on top of the stack, and then there is what was below it. -/
lemma Lists.rounds (h : a.Lists order forest ids) (hfirm : Firm a.parentOf a.childIds)
    (hforest : ∀ id ∈ forest, id < a.size) (stack seen : List NodeId) :
    ReflTransGen (a.Round order) (order.arrange forest ++ stack, seen) (stack, seen ++ order.arrange ids) := by
  induction h generalizing stack seen with
  | nil order => cases order <;> simpa [Order.arrange] using ReflTransGen.refl
  | @pre id rest below behind _ _ ih ihRest =>
    rw [List.forall_mem_cons] at hforest
    have hbelow := ih (fun _ => hfirm.child_lt) (rest ++ stack) (seen ++ [id])
    have hbehind := ihRest hforest.2 stack (seen ++ [id] ++ below)
    simpa [Order.arrange] using ReflTransGen.head (.visit (children_eq_ok hforest.1)) (hbelow.trans hbehind)
  | @post id rest below behind _ _ ih ihRest =>
    rw [List.forall_mem_cons] at hforest
    have hbehind := ihRest hforest.2 (id :: stack) seen
    have hvisit : a.Round .post (id :: stack, seen ++ behind.reverse)
        ((a.childIds id).reverse ++ stack, seen ++ behind.reverse ++ [id]) := .visit (children_eq_ok hforest.1)
    have hbelow := ih (fun _ => hfirm.child_lt) stack (seen ++ behind.reverse ++ [id])
    simpa [Order.arrange] using hbehind.trans (.head hvisit hbelow)

/-- Where the loop comes to its end, as many steps as it has rounds are enough, and further ones change nothing. -/
lemma visit_of_rounds {s t : List NodeId × List NodeId} (h : ReflTransGen (a.Round order) s t) (hend : t.1 = []) :
    ∃ ids, t.2 = s.2 ++ ids ∧ ∀ steps, ids.length ≤ steps → a.visit order.arrange steps s.1 = .ok ids := by
  induction h using ReflTransGen.head_induction_on with
  | refl =>
    refine ⟨[], (List.append_nil _).symm, fun steps _ => ?_⟩
    rw [hend]
    cases steps <;> rfl
  | head hround _ ih =>
    obtain ⟨hchildren⟩ := hround
    obtain ⟨ids, heq, hvisit⟩ := ih
    refine ⟨_ :: ids, by rw [heq, List.append_assoc, List.singleton_append], fun steps hsteps => ?_⟩
    cases steps with
    | zero => cases hsteps
    | succ steps =>
      rw [visit, hchildren]
      simp only [hvisit steps (Nat.le_of_succ_le_succ hsteps)]

section Firm

variable (h : Firm a.parentOf a.childIds)
include h

/-- A subtree is its first node and what is below it, from left to right. -/
lemma Firm.length_turnsOf (order : Order) {id : NodeId} (hid : id < a.size) :
    (a.turnsOf id order).length = ((a.childIds id).flatMap (a.turnsOf · order)).length + 1 := by
  cases order with
  | pre => simp only [turnsOf, h.preorder_eq hid, List.length_cons]
  | post => simp only [turnsOf, h.postorder_eq hid, List.length_append, List.length_singleton]

/-- The recursion comes to its end. -/
lemma Firm.lists (order : Order) {forest : List NodeId} (hforest : ∀ id ∈ forest, id < a.size) :
    a.Lists order forest (forest.flatMap (a.turnsOf · order)) := by
  -- By induction on how many nodes there are, which are fewer below a node and fewer behind it.
  induction hn : (forest.flatMap (a.turnsOf · order)).length using Nat.strongRecOn generalizing forest with
  | ind n ih =>
    subst hn
    cases forest with
    | nil => exact .nil order
    | cons id rest =>
      rw [List.forall_mem_cons] at hforest
      have hlength := h.length_turnsOf order hforest.1
      rw [List.flatMap_cons, List.length_append] at ih
      have hbelow : a.Lists order (a.childIds id) ((a.childIds id).flatMap (a.turnsOf · order)) :=
        ih _ (by omega) (fun _ => h.child_lt) rfl
      have hbehind : a.Lists order rest (rest.flatMap (a.turnsOf · order)) := ih _ (by omega) hforest.2 rfl
      rw [List.flatMap_cons]
      cases order with
      | pre =>
        rw [show a.turnsOf id .pre = _ from h.preorder_eq hforest.1]
        exact .pre hbelow hbehind
      | post =>
        rw [show a.turnsOf id .post = _ from h.postorder_eq hforest.1, List.append_assoc, List.singleton_append]
        exact .post hbelow hbehind

end Firm

/-- The traversals are recursions. What is collected from a node on is the one listing of the forest of that node; the
loop, which has only a stack, comes to its end with it, and no step more would change it. Each node of the subtree is
in it once, and no other node. -/
theorem collect_lists (h : a.Linked) {start : NodeId} (hstart : start < a.size) (order : Order) :
    ∃ ids, a.collect start order = .ok ids ∧ (∀ other, a.Lists order [start] other ↔ other = ids) ∧
      ReflTransGen (a.Round order) ([start], []) ([], order.arrange ids) ∧
      (∀ steps, ids.length ≤ steps → a.visit order.arrange steps [start] = .ok (order.arrange ids)) ∧
      ids.Nodup ∧ ∀ id, id ∈ ids ↔ ReflTransGen a.HasParent id start := by
  have hfirm := linked_iff_firm.mp h
  have hforest : ∀ id ∈ [start], id < a.size := by simpa using hstart
  have hlists : a.Lists order [start] (a.turnsOf start order) := by simpa using hfirm.lists order hforest
  have hcollect : a.collect start order = .ok (a.turnsOf start order) := by
    rw [hfirm.collect_eq hstart]
    cases order <;> rfl
  have hrounds : ReflTransGen (a.Round order) ([start], []) ([], order.arrange (a.turnsOf start order)) := by
    have hrun := hlists.rounds hfirm hforest [] []
    cases order <;> simpa [Order.arrange] using hrun
  refine ⟨_, hcollect, fun other => ⟨hlists.unique, fun heq => heq ▸ hlists⟩, hrounds, fun steps hsteps => ?_,
    hfirm.nodup_collect hstart hcollect, fun id => ?_⟩
  · obtain ⟨ids, heq, hvisit⟩ := visit_of_rounds hrounds rfl
    obtain rfl : order.arrange (a.turnsOf start order) = ids := heq
    exact hvisit steps (by rwa [(order.arrange_perm _).length_eq])
  · cases order with
    | pre => exact hfirm.mem_listing .refl hstart
    | post => exact List.mem_reverse.trans (hfirm.mem_listing List.reverse_perm hstart)

/-- An assignment with a sum, in both orders. -/
theorem collect_lists_assignment :
    ∃ script, parse ("x = a + b;" : Text) {} = .ok script ∧
      let a := Arena.ofTree script.tree
      a.Linked ∧ 4 < a.size ∧ a.childIds 4 = [0, 3] ∧ a.childIds 3 = [1, 2] ∧
        a.collect 4 .pre = .ok [4, 0, 3, 1, 2] ∧ a.Lists .pre [4] [4, 0, 3, 1, 2] ∧
        a.collect 4 .post = .ok [0, 1, 2, 3, 4] ∧ a.Lists .post [4] [0, 1, 2, 3, 4] := by
  have hrun : (parse ("x = a + b;" : Text) {}).toOption.any (fun script =>
      let a := Arena.ofTree script.tree
      a.size = 7 && a.childIds 4 = [0, 3] && a.childIds 3 = [1, 2] && a.collect 4 .pre = .ok [4, 0, 3, 1, 2] &&
        a.collect 4 .post = .ok [0, 1, 2, 3, 4]) := by decide +kernel
  cases hs : parse ("x = a + b;" : Text) {} with
  | error e => simp [hs, Except.toOption] at hrun
  | ok script =>
    simp only [hs, Except.toOption, Option.any_some, Bool.and_eq_true, decide_eq_true_eq] at hrun
    obtain ⟨⟨⟨⟨hsize, hassignment⟩, hsum⟩, hpre⟩, hpost⟩ := hrun
    have hlinked := linked_iff_firm.mpr (ofTree_firm script.tree)
    have hstart : 4 < (ofTree script.tree).size := by rw [hsize]; decide
    obtain ⟨ids, hids, hlists, -⟩ := collect_lists hlinked hstart .pre
    obtain ⟨ids', hids', hlists', -⟩ := collect_lists hlinked hstart .post
    cases hpre.symm.trans hids
    cases hpost.symm.trans hids'
    exact ⟨script, rfl, hlinked, hstart, hassignment, hsum, hpre, (hlists _).mpr rfl, hpost, (hlists' _).mpr rfl⟩

end Arena

end PlainScript
