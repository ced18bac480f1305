import PlainScript.Proofs.Scoping
import PlainScript.Proofs.Turns
import Mathlib.Data.Bool.Count

/-! No constant branch is left behind. An `if` has its turn before what is below it, so that where its branch goes to,
it is still to come, and what has had its turn is not made constant again. -/
namespace PlainScript

open Relation

namespace Arena

variable {a b c : Arena} {root target x : NodeId} {v : Bool}

/-- These `if`s give way to the branches that they take, one after the other. -/
inductive Folds (root : NodeId) : List (NodeId × Bool) → Arena → Arena → Prop
  | none (a : Arena) : Folds root [] a a
  | next {folded : List (NodeId × Bool)} {a b c : Arena} {target : NodeId} {v : Bool} (h : Folds root folded a b)
    (htest : b.Tests target v) (hstep : BranchesAt root target b c) : Folds root (folded ++ [(target, v)]) a c

namespace BranchesAt

variable (h : BranchesAt root target a b)
include h

lemma standing (hstanding : a.Standing root) : b.Standing root := Branches.standing ⟨target, h⟩ hstanding

lemma size_le : a.size ≤ b.size := Branches.size_le ⟨target, h⟩

lemma attached_before (hlt : x < a.size) (hway : ReflTransGen b.HasParent x root) :
    ReflTransGen a.HasParent x root := Branches.attached_before ⟨target, h⟩ hlt hway

lemma target_not_attached : ¬ ReflTransGen b.HasParent target root := by
  obtain ⟨p, payload, place, moved, new, hexchange, -⟩ := h
  exact hexchange.not_attached .refl

/-- An `if` on a literal that is left was one before. -/
lemma tests_before (hlt : x < a.size) (hway : ReflTransGen b.HasParent x root) (htests : b.Tests x v) :
    ∃ w, a.Tests x w := by
  obtain ⟨p, payload, place, moved, new, hexchange, ⟨hrole, -⟩, hcomes⟩ := h
  have hgoes : ¬ a.Goes target moved x := fun hgoes =>
    hexchange.not_attached (hcomes.stays_of_goes hexchange.rooted.firm hgoes) hway
  obtain ⟨kept, htakes⟩ := exists_takes_iff.mpr ⟨v, htests⟩
  obtain ⟨kept', htook, -⟩ := hexchange.takes_before hcomes hrole hlt hgoes htakes
  exact exists_takes_iff.mp ⟨kept', htook⟩

lemma kind?_of_lt (hlt : x < a.size) (hway : ReflTransGen b.HasParent x root) : b.kind? x = a.kind? x := by
  obtain ⟨p, payload, place, moved, new, hexchange, -⟩ := h
  exact hexchange.kind?_of_lt hlt fun hstays => hexchange.not_attached hstays hway

/-- A node that is new is no `if`. -/
lemma kind?_of_size_le (hle : a.size ≤ x) : b.kind? x ≠ some .ifStatement := fun hk => by
  obtain ⟨p, payload, place, moved, new, hexchange, -⟩ := h
  have hlt := lt_size_of_kind? hk
  obtain ⟨-, hsize⟩ | ⟨-, hsize, hfresh⟩ := hexchange.replaced.filling
  · exact absurd hlt (Nat.not_lt.mpr (hsize ▸ hle))
  · obtain rfl : x = a.size := Nat.le_antisymm (Nat.lt_succ_iff.mp (Nat.lt_of_lt_of_eq hlt hsize)) hle
    rw [kind?_eq] at hk
    obtain hblock | ⟨-, hempty⟩ := hfresh
    · rw [hblock] at hk
      cases hk
    · rw [hempty] at hk
      cases hk

end BranchesAt

end Arena

namespace Pass.Branch

open Arena PlainScript.Action

lemma counter_injective : Function.Injective counter := fun v w h => by
  revert v w
  decide

/-- The branches that tests of one value have taken. -/
def taken (v : Bool) (s : Run) : Int := (s.counters.get? (counter v)).getD 0

/-- What has been done once these nodes have had their turn. -/
structure Progress (s : Run) (root : NodeId) (done : List NodeId) (n : Nat) (s' : Run) : Prop where
  quiet : Quiet s s'
  standing : s'.arena.Standing root
  size_le : s.arena.size ≤ s'.arena.size
  attached_before : ∀ x < s.arena.size, ReflTransGen s'.arena.HasParent x root →
    ReflTransGen s.arena.HasParent x root
  fresh : ∀ x, s.arena.size ≤ x → ReflTransGen s'.arena.HasParent x root → s'.arena.kind? x ≠ some .ifStatement
  settled : ∀ x ∈ done, ReflTransGen s'.arena.HasParent x root → ∀ v, ¬ s'.arena.Tests x v
  folds : ∃ folded : List (NodeId × Bool), folded.length = n ∧ (folded.map Prod.fst).Nodup ∧
    (∀ x ∈ folded.map Prod.fst, x ∈ done) ∧ Folds root folded s.arena s'.arena ∧
    ∀ v, taken v s' = taken v s + (folded.map Prod.snd).count v

variable {s s' s'' : Run} {root id : NodeId} {done rest : List NodeId} {n : Nat} {v : Bool}

lemma kind?_of_tests {a : Arena} {x : NodeId} (h : a.Tests x v) : a.kind? x = some .ifStatement := by
  obtain ⟨test, consequent, alternate, hp, -⟩ := h
  rw [kind?_eq, hp]
  rfl

lemma progress_start (h : s.arena.Standing root) : Progress s root [] 0 s where
  quiet := .refl s
  standing := h
  size_le := Nat.le_refl _
  attached_before _ _ hway := hway
  fresh x hle hway := absurd (h.toRooted.lt_size hway) (Nat.not_lt.mpr hle)
  settled := by simp
  folds := ⟨[], rfl, .nil, by simp, .none _, by simp⟩

namespace Progress

/-- A turn that leaves the tree alone. -/
lemma skip (h : Progress s root done n s')
    (hid : ReflTransGen s'.arena.HasParent id root → ∀ v, ¬ s'.arena.Tests id v) :
    Progress s root (done ++ [id]) n s' where
  __ := h
  settled := by
    simpa only [List.mem_append, List.mem_singleton, or_imp, forall_and, forall_eq] using ⟨h.settled, hid⟩
  folds := by
    obtain ⟨folded, hlength, hnodup, hdone, hfolds, htaken⟩ := h.folds
    exact ⟨folded, hlength, hnodup, fun x hx => List.mem_append_left _ (hdone x hx), hfolds, htaken⟩

/-- A turn that folds an `if`. -/
lemma fold (h : Progress s root done n s') (hid : id ∉ done) (htests : s'.arena.Tests id v)
    (hbranches : BranchesAt root id s'.arena s''.arena) (hquiet : Quiet s' s'')
    (hcounters : s''.counters = s'.counters.update (counter v) 0 (· + 1)) :
    Progress s root (done ++ [id]) (n + 1) s'' where
  quiet := h.quiet.trans hquiet
  standing := hbranches.standing h.standing
  size_le := Nat.le_trans h.size_le hbranches.size_le
  attached_before x hx hway :=
    h.attached_before x hx (hbranches.attached_before (Nat.lt_of_lt_of_le hx h.size_le) hway)
  fresh x hle hway := by
    by_cases hlt : x < s'.arena.size
    · rw [hbranches.kind?_of_lt hlt hway]
      exact h.fresh x hle (hbranches.attached_before hlt hway)
    · exact hbranches.kind?_of_size_le (Nat.not_lt.mp hlt)
  settled x hx hway w hw := by
    by_cases hlt : x < s'.arena.size
    · obtain hx | hx := List.mem_append.mp hx
      · obtain ⟨w', hw'⟩ := hbranches.tests_before hlt hway hw
        exact h.settled x hx (hbranches.attached_before hlt hway) w' hw'
      · exact hbranches.target_not_attached (List.mem_singleton.mp hx ▸ hway)
    · exact hbranches.kind?_of_size_le (Nat.not_lt.mp hlt) (kind?_of_tests hw)
  folds := by
    obtain ⟨folded, hlength, hnodup, hdone, hfolds, htaken⟩ := h.folds
    refine ⟨folded ++ [(id, v)], by simp [hlength], ?_, ?_, hfolds.next htests hbranches, fun w => ?_⟩
    · rw [List.map_append]
      refine hnodup.append (List.nodup_singleton id) fun x hx hx' => ?_
      obtain rfl := List.mem_singleton.mp hx'
      exact hid (hdone _ hx)
    · simp only [List.map_append, List.mem_append]
      exact fun x hx => hx.imp (hdone x) (by simp)
    · have hupdate : taken w s'' = taken w s' + if v = w then 1 else 0 := by
        rw [taken, taken, hcounters, Table.update, Table.get?_insert]
        by_cases heq : v = w
        · rw [if_pos (congrArg counter heq), if_pos heq, heq, Option.getD_some]
        · rw [if_neg (counter_injective.ne heq), if_neg heq, add_zero]
      rw [hupdate, htaken w, List.map_append, List.count_append]
      simp [List.count_singleton, add_assoc]

variable (hrooted : s.arena.Rooted root) (hids : s.arena.turnsOf root .pre = done ++ id :: rest)
include hrooted hids

lemma turn (h : Progress s root done n s') (hway : ReflTransGen s'.arena.HasParent id root)
    (hk : s'.arena.kind? id = some .ifStatement) :
    (takeBranch id n).Yields s' fun n' s'' => Progress s root (done ++ [id]) n' s'' := by
  refine (takeBranch_turn h.standing hk hway n).mono fun n' s'' hturn => ?_
  obtain ⟨hnone, rfl, rfl⟩ | ⟨v, htests, rfl, hbranches, hquiet, hcounters⟩ := hturn
  · exact h.skip fun _ => hnone
  · exact h.fold (hrooted.not_mem_done hids) htests hbranches hquiet hcounters

end Progress

/-- Where no `if` on a literal is left, the pass does nothing. -/
lemma transform_of_none (hstanding : s.arena.Standing root)
    (hnone : ∀ x, ReflTransGen s.arena.HasParent x root → ∀ v, ¬ s.arena.Tests x v) :
    transform s = .ok .notApplicable s := by
  obtain ⟨n, s', hwalk, rfl, rfl⟩ : (walkKind .pre .ifStatement 0 takeBranch).Yields s fun n s' => s' = s ∧ n = 0 := by
    refine walk_keeps (P := fun s' n => s' = s ∧ n = 0) hstanding.root_eq (fun _ _ h => h.1 ▸ hstanding.firm)
      (fun _ _ h => Nat.le_of_eq (h.1 ▸ rfl)) hstanding.root_lt ?_ ⟨rfl, rfl⟩
    rintro _ _ id k handle ⟨rfl, rfl⟩ hway hk hhandle
    obtain ⟨rfl, rfl⟩ : k = .ifStatement ∧ takeBranch = handle := by simpa using hhandle
    refine (takeBranch_turn hstanding hk hway 0).mono fun n' s'' hturn => ?_
    obtain ⟨-, hn, hs⟩ | ⟨v, htests, -⟩ := hturn
    · exact ⟨hs, hn⟩
    · exact absurd htests (hnone id hway v)
  unfold transform
  simp [bind, EStateM.bind, hwalk, conclude, pure, EStateM.pure]

/-- The pass leaves no `if` on a literal behind in whatever script stands. -/
lemma completes_of_standing (hstanding : s.arena.Standing root) :
    transform.Yields s fun _ s' =>
      (∀ x, s'.arena.Attached x → ∀ v, ¬ s'.arena.Tests x v) ∧
      (∀ again : Run, again.arena = s'.arena → transform again = .ok .notApplicable again) ∧
      ∃ root folded, s.arena.root = some root ∧ (folded.map Prod.fst).Nodup ∧ Folds root folded s.arena s'.arena ∧
        Ledger name s folded.length s' ∧
        (∀ v, taken v s' = taken v s + (folded.map Prod.snd).count v) ∧
        (folded.length : Int) = (taken true s' - taken true s) + (taken false s' - taken false s) := by
  have hrooted := hstanding.toRooted
  refine yields_bind ((walkKind_one_by_one (P := fun done s' n => Progress s root done n s') hrooted
    (fun done s' n h => ⟨h.standing.toRooted, h.size_le⟩) (fun done id rest s' n _ h hnot => h.skip fun hway v hv =>
      hnot hway (kind?_of_tests hv)) (fun done id rest s' n hids h hway hk => h.turn hrooted hids hway hk)
    (progress_start hstanding)).mono fun n s₁ h => ?_)
  obtain ⟨folded, rfl, hnodup, -, hfolds, htaken⟩ := h.folds
  have hnone : ∀ x, ReflTransGen s₁.arena.HasParent x root → ∀ v, ¬ s₁.arena.Tests x v := fun x hway v hv => by
    by_cases hlt : x < s.arena.size
    · have hdone := (hrooted.mem_turnsOf .pre).mpr (h.attached_before x hlt hway)
      exact h.settled x hdone hway v hv
    · exact h.fresh x (Nat.not_lt.mp hlt) hway (kind?_of_tests hv)
  refine ((conclude_ledger (n := folded.length) rfl ..).and (conclude_counters ..)).mono fun _ s' hend => ?_
  obtain ⟨⟨harena, hledger⟩, hcounters⟩ := hend
  have htaken' (v : Bool) : taken v s' = taken v s + (folded.map Prod.snd).count v := by
    rw [← htaken v, taken, taken, hcounters _ (counter_plain v).1]
  refine ⟨fun x hx => ?_, fun again hagain => ?_, root, folded, hstanding.root_eq, hnodup, harena ▸ hfolds,
    h.quiet.ledger hledger, htaken', ?_⟩
  · rw [harena] at hx ⊢
    exact hnone x (h.standing.toRooted.attached_iff.mp hx)
  · rw [harena] at hagain
    exact transform_of_none (hagain ▸ h.standing) (hagain ▸ hnone)
  · have hlength := List.count_true_add_count_false (folded.map Prod.snd)
    rw [List.length_map] at hlength
    rw [htaken' true, htaken' false]
    omega

/-- The pass leaves no `if` behind whose test is `true` or `false`, so that it has nothing to do when it is run again.
It records the number of `if`s that it has folded, each of which is counted by the value of its test. -/
theorem transform_completes {source : Text} {options : ParseOptions} {script : Script}
    (hparse : parse source options = .ok script) {s : Run} (hs : s.arena = ofTree script.tree) :
    transform.Yields s fun _ s' =>
      (∀ x, s'.arena.Attached x → ∀ v, ¬ s'.arena.Tests x v) ∧
      (∀ again : Run, again.arena = s'.arena → transform again = .ok .notApplicable again) ∧
      ∃ root folded, s.arena.root = some root ∧ (folded.map Prod.fst).Nodup ∧ Folds root folded s.arena s'.arena ∧
        Ledger name s folded.length s' ∧
        (∀ v, taken v s' = taken v s + (folded.map Prod.snd).count v) ∧
        (folded.length : Int) = (taken true s' - taken true s) + (taken false s' - taken false s) := by
  obtain ⟨root, hstanding⟩ := ofTree_standing (parse_is_program hparse)
  exact completes_of_standing (hs ▸ hstanding)

/-- The statements of a branch are folded after they have come to the place of their `if`. -/
theorem transform_completes_elseIf : ∃ script outcome s',
    parse "if (true) { if (false) a(); else if (true) b(); } else c();" {} = .ok script ∧
    transform { arena := ofTree script.tree } = .ok outcome s' ∧
    (∀ x, s'.arena.Attached x → ∀ v, ¬ s'.arena.Tests x v) ∧ transform s' = .ok .notApplicable s' := by
  obtain ⟨script, hparse, -⟩ :
      ∃ script, parse "if (true) { if (false) a(); else if (true) b(); } else c();" {} = .ok script ∧ True :=
    exists_of_parse (by decide +kernel)
  obtain ⟨outcome, s', hrun, hnone, hagain, -⟩ := transform_completes (s := { arena := ofTree script.tree }) hparse rfl
  exact ⟨script, outcome, s', hparse, hrun, hnone, hagain s' rfl⟩

end Pass.Branch

end PlainScript
