import PlainScript.Proofs.DeadBranches
import PlainScript.Proofs.Recovery
import PlainScript.Proofs.PlantedReading

/-! The removal of branches that are never taken keeps what a script means. Each step leaves a tree whose
statements improve on those before, so that the whole walk does, whatever it folds and in whichever order. -/
namespace PlainScript

open Relation Statement

namespace Arena

/-- A later tree. Its statements improve on those before, and its other nodes are the same. -/
structure Refined (root : NodeId) (a b : Arena) : Prop where
  size_le : a.size ≤ b.size
  follows : ∀ n, Follows Improves (a.readUpTo n root) (b.readUpTo n root)
  lasting_eq : ∀ x q, a.payload? x = some q → q.kind.isLasting = true → b.payload? x = some q

variable {a b c : Arena} {root target p : NodeId} {payload : Payload NodeId} {place : Payload.Place}
  {moved new : List NodeId}

lemma Refined.refl (a : Arena) : Refined root a a :=
  ⟨Nat.le_refl _, fun _ => .refl Improves.refl _, fun _ _ hq _ => hq⟩

lemma Refined.trans (h : Refined root a b) (h' : Refined root b c) : Refined root a c where
  size_le := h.size_le.trans h'.size_le
  follows n := (h.follows n).trans (fun _ _ _ => .trans) (h'.follows n)
  lasting_eq x q hq hkind := h'.lasting_eq x q (h.lasting_eq x q hq hkind) hkind

/-- What comes for the `if` stands for it. -/
lemma Comes.stands (hcomes : Comes a target place b moved new) (h : a.Exchange root target p payload place moved new b)
    (n : Nat) (hfollows : ∀ x, ¬ a.StaysWith moved target x → Follows Improves (a.readUpTo n x) (b.readUpTo n x)) :
    StandsFor (a.readUpTo n) (b.readUpTo n) target place new := by
  cases hcomes with
  | nothing htakes hnew => exact htakes.stands_removed hnew
  | branch htakes => exact htakes.stands (hfollows _ (h.moved_not_stays (by simp)))
  | statements htakes hbody hi =>
    exact htakes.stands_spliced hbody hi fun x hx => hfollows x (h.moved_not_stays hx)

/-- Nodes are moved out of statements only. -/
lemma Comes.opened (hcomes : Comes a target place b moved new) (hfirm : Firm a.parentOf a.childIds) :
    ∀ r ∈ moved, ∀ y q, a.parentOf r = some y → a.payload? y = some q → q.kind.isLasting = false := by
  cases hcomes with
  | nothing => simp
  | @branch k htakes =>
    intro r hr y q hy hq
    obtain rfl := List.mem_singleton.mp hr
    obtain rfl := Option.some.inj ((htakes.parentOf_eq hfirm rfl).symm.trans hy)
    obtain ⟨test, consequent, alternate, v, hif, -⟩ := htakes
    obtain rfl := Option.some.inj (hif.symm.trans hq)
    rfl
  | @statements k body htakes hbody hi =>
    intro r hr y q hy hq
    have hk : a.parentOf r = some k := by
      refine hfirm.mem_iff.mp (childIds_eq hbody ▸ ?_)
      simpa [Payload.children, Slot.children] using hr
    obtain rfl := Option.some.inj (hk.symm.trans hy)
    obtain rfl := Option.some.inj (hbody.symm.trans hq)
    rfl

lemma Branches.refined (h : Branches root a b) : Refined root a b := by
  obtain ⟨target, p, payload, place, moved, new, hexchange, hplace, hcomes⟩ := h
  refine ⟨hexchange.replaced.size_le, fun n => ?_, fun x q hq hlasting => ?_⟩
  · exact hexchange.follows (hcomes.stands hexchange) n root hexchange.root_not_stays
  · exact hexchange.lasting_kept hplace (hcomes.opened hexchange.rooted.firm) hq hlasting

lemma branches_refined {n : Nat} (h : InSteps (Branches root) n a b) : Refined root a b := by
  induction h with
  | zero => exact .refl _
  | succ _ hstep ih => exact ih.trans hstep.refined

/-- A node is kept as a whole if neither it nor anything below it holds statements. -/
lemma Refined.whole_eq (h : Refined root a b) {x y : NodeId} (hx : x < a.size)
    (hlasting : ∀ y k, ReflTransGen a.HasParent y x → a.kind? y = some k → k.isLasting = true)
    (hy : ReflTransGen a.HasParent y x) : b.payload? y = a.payload? y := by
  have hlt : y < a.size := by
    rcases hy.cases_head with rfl | ⟨parent, hparent, -⟩
    · exact hx
    · exact lt_size_of_parentOf hparent
  obtain ⟨k, hk⟩ := exists_kind hlt
  obtain ⟨q, hq, rfl⟩ := exists_payload hk
  rw [hq]
  exact h.lasting_eq y q hq (hlasting y _ hy hk)

/-- What a tree is read as improves. -/
lemma Refined.statement?_improves (h : Refined root a b) (ha : a.root = some root) (hb : b.root = some root)
    {s : Statement} (hs : a.statement? = some s) : ∃ t, b.statement? = some t ∧ s.Improves t := by
  rw [statement?, ha, Option.bind_some] at hs
  obtain ⟨r, hr, hrs⟩ := Option.bind_eq_some_iff.mp hs
  obtain ⟨r', hr', hrel⟩ := h.follows _ r hr
  cases hrel with
  | @statement s' t himproves =>
    obtain rfl := Option.some.inj hrs
    refine ⟨t, ?_, himproves⟩
    rw [statement?, hb, Option.bind_some, readUpTo_mono h.size_le hr']
    rfl
  | _ => cases hrs

end Arena

/-! ### The pass -/

namespace Pass.Branch

open Arena

/-- If every labeled `continue` leads to a loop, then the pass leaves a script that means what it meant: under
every evaluator it has the same runs, with the same evaluations, states and ends. Its expressions, with the members and
declarations in them, are the nodes that they were, so an expression in which no function has a body is kept as a whole. -/
theorem transform_keeps_meaning {source : Text} {options : ParseOptions} {script : Script}
    (hparse : parse source options = .ok script) (hstructured : script.tree.isStructured = true) :
    ∃ s, (ofTree script.tree).statement? = some s ∧ (s.jumpsMeet targetsLoop [] = true →
      ∀ run : Run, run.arena = ofTree script.tree → ∃ outcome run' t, transform run = .ok outcome run' ∧
        run'.arena.statement? = some t ∧
        (∀ (σ V : Type) (E : Evaluator σ V), t.meaning E [] = s.meaning E []) ∧
        (∀ x q, (ofTree script.tree).payload? x = some q → q.kind.isLasting = true →
          run'.arena.payload? x = some q) ∧
        ∀ x < (ofTree script.tree).size, (∀ y k, ReflTransGen (ofTree script.tree).HasParent y x →
            (ofTree script.tree).kind? y = some k → k.isLasting = true) →
          ∀ y, ReflTransGen (ofTree script.tree).HasParent y x →
            run'.arena.payload? y = (ofTree script.tree).payload? y) := by
  have hprogram := parse_is_program hparse
  obtain ⟨s, hs⟩ := ofTree_readable hprogram hstructured
  refine ⟨s, hs, fun hjumps run hrun => ?_⟩
  obtain ⟨root, hstanding⟩ := ofTree_standing hprogram
  rw [← hrun] at hs hstanding ⊢
  obtain ⟨outcome, run', htransform, n, hsteps, -⟩ := transform_counts hstanding
  have hrefined := branches_refined hsteps
  have hroot := (hsteps.keeps (P := (Standing · root)) (fun _ _ h hstep => hstep.standing h) hstanding).root_eq
  obtain ⟨t, ht, himproves⟩ := hrefined.statement?_improves hstanding.root_eq hroot hs
  exact ⟨outcome, run', t, htransform, ht, fun σ V E => himproves.meaning_nil hjumps, hrefined.lasting_eq,
    fun x hx hlasting y hy => hrefined.whole_eq hx hlasting hy⟩

/-- A branch that is taken may jump to the loop around it. -/
theorem transform_keeps_meaning_continue : ∃ script s outcome run' t,
    parse "a: while (y()) { if (true) { f(); continue a; } else g(); }" {} = .ok script ∧
    script.tree.isStructured = true ∧ (ofTree script.tree).statement? = some s ∧ s.jumpsMeet targetsLoop [] = true ∧
    transform { arena := ofTree script.tree } = .ok outcome run' ∧ run'.arena.statement? = some t ∧
    ∀ (σ V : Type) (E : Evaluator σ V), t.meaning E [] = s.meaning E [] := by
  have hread : (parse "a: while (y()) { if (true) { f(); continue a; } else g(); }" {}).toOption.any (fun script =>
      script.tree.isStructured && (ofTree script.tree).statement?.any (jumpsMeet targetsLoop [])) := by decide +kernel
  cases hparse : parse "a: while (y()) { if (true) { f(); continue a; } else g(); }" {} with
  | error e => simp [hparse, Except.toOption] at hread
  | ok script =>
    simp only [hparse, Except.toOption, Option.any_some, Bool.and_eq_true] at hread
    obtain ⟨hstructured, hjumps⟩ := hread
    obtain ⟨s, hs, hkeeps⟩ := transform_keeps_meaning hparse hstructured
    rw [hs, Option.any_some] at hjumps
    obtain ⟨outcome, run', t, htransform, ht, hmeaning, -⟩ := hkeeps hjumps { arena := ofTree script.tree } rfl
    exact ⟨script, s, outcome, run', t, rfl, hstructured, hs, hjumps, htransform, ht, hmeaning⟩

/-! ### A label for two statements -/

namespace SharedLabel

/-- The label of the outer loop is also that of the `if` around the inner one. -/
def source : Text := "a: while (y()) { a: if (true) while (x()) { continue a; } }"

/-- The inner loop, where calls of `x` are the node 4. -/
def inner : Statement := .loop (.literal true) (.node 4) (.literal true) (.block [.continuing "a"])

/-- The script around a body of the outer loop, where calls of `y` are the node 1. -/
def around (body : Statement) : Statement :=
  .block [.labeled "a" (.loop (.literal true) (.node 1) (.literal true) (.block [.labeled "a" body]))]

/-- A call of `x` is always true, and one of `y` is true as long as `x` has not been called. -/
def evaluator : Evaluator Bool Bool where
  evaluates id s s' r := if id = 1 then r = .ok (!s) ∧ s' = s else r = .ok true ∧ s' = true
  ofBool := id
  truth := id
  same := (· == ·)
  truth_ofBool _ := rfl

lemma before_ends : (around (.branch (.literal true) inner .empty)).meaning evaluator [] false
    [(1, false), (4, false), (1, true)] true .normal := by
  have hjump : inner.meaning evaluator [] false [(4, false)] true (.continuing "a") :=
    .passed (.value (.literal ..) (.enter (.value (v := true) (by simp [evaluator])) rfl
      (.leave (.abrupt (.mk _) nofun) rfl))) nofun
  have hbody : (Statement.block [.labeled "a" (.branch (.literal true) inner .empty)]).meaning evaluator [] false
      [(4, false)] true (.continuing "a") :=
    .abrupt (.passed (.value (.literal ..) hjump) nofun) nofun
  have hlast : Evaluates evaluator (.node 1) true [(1, true)] true (.ok false) := .value (by simp [evaluator])
  have hrounds : Rounds evaluator ["a"] (.node 1) (.literal true)
      ((Statement.block [.labeled "a" (.branch (.literal true) inner .empty)]).meaning evaluator []) .test false
      [(1, false), (4, false), (1, true)] true .normal :=
    .enter (.value (v := true) (by simp [evaluator])) rfl
      (.next hbody rfl (.updated (.literal ..) (.exit hlast rfl)))
  have hlabeled : (Statement.labeled "a" (.loop (.literal true) (.node 1) (.literal true)
      (.block [.labeled "a" (.branch (.literal true) inner .empty)]))).meaning evaluator [] false
      [(1, false), (4, false), (1, true)] true .normal :=
    .passed (.passed (.value (.literal ..) hrounds) nofun) nofun
  exact .normal hlabeled (.mk _)

/-- No run from the state comes to an end. -/
def Stops (m : Behavior Bool Bool) (s : Bool) : Prop := ∀ tr s' c, m s tr s' c → c = .stopped

lemma stops_catches {m : Behavior Bool Bool} {s : Bool} (h : Stops m s) (label : Text) : Stops (Catches label m) s := by
  rintro _ _ _ (hm | ⟨hm, -⟩)
  · cases h _ _ _ hm
  · exact h _ _ _ hm

lemma stops_sequence {m : Behavior Bool Bool} {s : Bool} (h : Stops m s) : Stops (sequence [m]) s := by
  rintro _ _ _ (⟨hm, -⟩ | ⟨hm, -⟩)
  · cases h _ _ _ hm
  · exact h _ _ _ hm

lemma stops_with {b : Bool} {next : Bool → Behavior Bool Bool} {s : Bool} (h : Stops (next b) s) :
    Stops (With evaluator (.literal b) next) s := by
  rintro _ _ _ (⟨⟨⟩, hnext⟩ | ⟨⟨⟩⟩)
  exact h _ _ _ hnext

/-- Under the label the inner loop goes on for ever. -/
lemma inner_stops (s : Bool) : Stops (inner.meaning evaluator ["a"]) s := by
  have hrounds {stage : RoundStage} {s s' : Bool} {tr : List (NodeId × Bool)} {c : Completion Bool}
      (h : Rounds evaluator ["a"] (.node 4) (.literal true) ((Statement.block [.continuing "a"]).meaning evaluator [])
        stage s tr s' c) : c = .stopped := by
    induction h with
    | exit he hv =>
      cases he with
      | value he => simp_all [evaluator]
    | testAbrupt he =>
      cases he with
      | thrown he => simp [evaluator] at he
      | stopped => rfl
    | leave hbody hc =>
      cases hbody with
      | normal hjump => cases hjump
      | abrupt hjump =>
        cases hjump
        cases hc
    | updateAbrupt he => cases he
    | enter _ _ _ ih | next _ _ _ ih | updated _ _ ih => exact ih
  exact stops_catches (stops_with fun _ _ _ => hrounds) []

lemma after_stops : Stops ((around inner).meaning evaluator []) false := by
  have hbody (s : Bool) : Stops ((Statement.block [.labeled "a" inner]).meaning evaluator []) s :=
    stops_sequence (stops_catches (inner_stops s) "a")
  refine stops_sequence (stops_catches (stops_catches (stops_with fun tr s' c h => ?_) []) "a")
  cases h with
  | exit he hv =>
    cases he with
    | value he => simp_all [evaluator]
  | enter he hv h =>
    cases h with
    | next hrun hc =>
      rw [hbody _ _ _ _ hrun] at hc
      cases hc
    | leave hrun => exact hbody _ _ _ _ hrun
  | testAbrupt he =>
    cases he with
    | thrown he => simp [evaluator] at he
    | stopped => rfl

/-- A `continue` that names two statements around it goes to the inner one, which takes the label over from the
`if` that it stood in. -/
theorem transform_changes_meaning : ∃ script s run' t, parse source {} = .ok script ∧
    script.tree.isStructured = true ∧ (ofTree script.tree).statement? = some s ∧ s.jumpsMeet namesLoop [] = true ∧
    transform { arena := ofTree script.tree } = .ok .success run' ∧ run'.arena.statement? = some t ∧
    t.meaning evaluator [] ≠ s.meaning evaluator [] := by
  have hrun : (parse source {}).toOption.any (fun script => script.tree.isStructured &&
      (ofTree script.tree).statement? = some (around (.branch (.literal true) inner .empty)) &&
      (match transform { arena := ofTree script.tree } with
        | .ok outcome run' => outcome = .success && run'.arena.statement? = some (around inner)
        | .error .. => false)) := by decide +kernel
  cases hparse : parse source {} with
  | error e => simp [hparse, Except.toOption] at hrun
  | ok script =>
    simp only [hparse, Except.toOption, Option.any_some, Bool.and_eq_true, decide_eq_true_eq] at hrun
    obtain ⟨⟨hstructured, hbefore⟩, hafter⟩ := hrun
    cases htransform : transform { arena := ofTree script.tree } with
    | error e run' => simp [htransform] at hafter
    | ok outcome run' =>
      simp only [htransform, Bool.and_eq_true, decide_eq_true_eq] at hafter
      obtain ⟨rfl, hafter⟩ := hafter
      refine ⟨script, _, run', _, rfl, hstructured, hbefore, by decide, htransform, hafter, fun heq => ?_⟩
      cases after_stops _ _ _ (heq ▸ before_ends)

end SharedLabel

end Pass.Branch

end PlainScript
