import PlainScript.Proofs.Ordering
import PlainScript.Proofs.PipelineRuns

/-! Passes that fail. A run of the pipeline is a sequence of calls of its passes, each of which finds what the passes
share as the one before left it. A call that fails leaves a warning, and neither the calls behind it nor what
becomes of the other passes depend on that. -/
namespace PlainScript

/-- What a pass does in a phase, with the outcome that it answers if there is one. -/
def Pass.work (pass : Pass) : Phase → Action (Option Outcome)
  | .ready _ => pure none
  | .analyze => (fun _ => none) <$> pass.analyze
  | .transform => some <$> pass.transform

/-- What the passes share. Counters and messages are those of the pass at work. -/
def Run.shared (r : Run) : Run := { r with counters := {}, log := #[] }

/-- A call of a pass, with the run as it was found and as it was left. -/
structure Call where
  phase : Phase
  name : Text
  found : Run
  answer : Except PassFailure (Option Outcome)
  left : Run

namespace Call

def asked (c : Call) : Phase × Text := (c.phase, c.name)

/-- The call is one of the pass, which worked from what was found to what was left. -/
def IsOf (c : Call) (pass : Pass) : Prop :=
  pass.work c.phase c.found = match c.answer with
    | .ok outcome? => .ok outcome? c.left
    | .error e => .error e c.left

/-- The warnings that are due for the call: one if it failed. -/
def report (c : Call) : List Text :=
  match c.answer with
  | .ok _ => []
  | .error e => [c.name ++ (if c.phase = .analyze then ": analysis failed: " else ": ") ++ e.message]

/-- The run as it is handed on. -/
def handedOn (c : Call) : Run := { c.left with warnings := c.left.warnings ++ c.report }

lemma handedOn_of_ok {c : Call} {outcome? : Option Outcome} (h : c.answer = .ok outcome?) : c.handedOn = c.left := by
  simp [handedOn, report, h]

/-- What the call comes to. -/
def outcome (c : Call) : Outcome :=
  match c.answer with
  | .ok outcome? => outcome?.getD .skipped
  | .error _ => .error

end Call

/-- Each call finds what the passes share as the one before has handed it on. -/
inductive Connects : Run → List Call → Run → Prop
  | nil {start stop : Run} (h : stop.shared = start.shared) : Connects start [] stop
  | cons {start stop : Run} {c : Call} {rest : List Call} (head : c.found.shared = start.shared)
      (tail : Connects c.handedOn rest stop) : Connects start (c :: rest) stop

namespace Connects

variable {calls more : List Call} {start mid stop : Run}

lemma of_shared (h : Connects mid calls stop) (hstart : mid.shared = start.shared) : Connects start calls stop := by
  cases h with
  | nil h => exact .nil (h.trans hstart)
  | cons head tail => exact .cons (head.trans hstart) tail

lemma append (h : Connects start calls mid) (hmore : Connects mid more stop) : Connects start (calls ++ more) stop := by
  induction h with
  | nil h => exact hmore.of_shared h
  | cons head _ ih => exact .cons head (ih hmore)

end Connects

namespace Pipeline

/-! ### Pipelines and their order -/

/-- The pipelines that come about by registering passes and working with them. -/
inductive Managed : Pipeline → Prop
  | empty : Managed {}
  | register {p : Pipeline} (h : Managed p) (pass : Pass) : Managed (p.register pass)
  | enable {p : Pipeline} (h : Managed p) (name : Text) (on : Bool) : Managed (p.enable name on)
  | makeReady {p : Pipeline} (h : Managed p) (on : Bool) : Managed (p.makeReady on).2
  | ordered {p : Pipeline} (h : Managed p) : Managed p.ordered
  | run {p : Pipeline} (h : Managed p) (start : Run) : Managed (p.run start).1
  | resetStatistics {p : Pipeline} (h : Managed p) : Managed p.resetStatistics

/-- An order that is known names every stage once. -/
structure IsArranged (p : Pipeline) : Prop where
  sorted : p.stages.Sorted
  named : ∀ names, p.order? = some names → names.Nodup ∧ ∀ name, name ∈ names ↔ (p.stages.get? name).isSome

namespace IsArranged

variable {p p' : Pipeline}

/-- Stages that replace others under their names leave a known order in place. -/
lemma congr (h : p.IsArranged) (hsorted : p'.stages.Sorted) (horder : p'.order? = p.order?)
    (hstages : ∀ name, (p'.stages.get? name).isSome = (p.stages.get? name).isSome) : p'.IsArranged := by
  refine ⟨hsorted, fun names hnames => ?_⟩
  obtain ⟨hnodup, hmem⟩ := h.named names (horder ▸ hnames)
  exact ⟨hnodup, fun name => by rw [hmem, hstages]⟩

lemma unordered (hsorted : p.stages.Sorted) (horder : p.order? = none) : p.IsArranged :=
  ⟨hsorted, by simp [horder]⟩

lemma replace (h : p.IsArranged) {name : Text} {stage stage' : Stage} (hget : p.stages.get? name = some stage)
    (hstages : p'.stages = p.stages.insert name stage') (horder : p'.order? = p.order?) : p'.IsArranged := by
  refine h.congr (hstages ▸ h.sorted.insert name stage') horder fun name' => ?_
  rw [hstages, Table.get?_insert]
  split_ifs with heq
  · simp [← heq, hget]
  · rfl

end IsArranged

lemma computeOrder_order? (p : Pipeline) : p.computeOrder.order? = some p.schedule.order := by
  refine (foldl_keeps (·.order?) ?_ _ _).trans ?_
  · intros
    rfl
  · rfl

lemma ordered_keeps {β : Type} (g : Pipeline → β) (hg : ∀ p order log, g { p with order? := order, log := log } = g p)
    (p : Pipeline) : g p.ordered = g p := by
  unfold ordered
  split
  · rfl
  · exact computeOrder_keeps g hg p

namespace IsArranged

variable {p : Pipeline}

lemma computeOrder (hsorted : p.stages.Sorted) : p.computeOrder.IsArranged := by
  have hstages := computeOrder_stages p
  refine ⟨by rwa [hstages], fun names hnames => ?_⟩
  obtain rfl : p.schedule.order = names := Option.some.inj ((computeOrder_order? p).symm.trans hnames)
  have hkeys : p.jobs.map (·.name) = p.stages.keys := by simp [jobs, Table.keys]
  have hperm : p.schedule.order.Perm p.stages.keys := hkeys ▸ Schedule.ofJobs_perm (hkeys ▸ hsorted)
  refine ⟨hperm.nodup_iff.mpr hsorted.nodup, fun name => ?_⟩
  rw [hperm.mem_iff, hstages, hsorted.mem_keys_iff]

lemma ordered (h : p.IsArranged) : p.ordered.IsArranged := by
  unfold Pipeline.ordered
  split
  · exact h
  · exact .computeOrder h.sorted

/-- Once ordered, a pipeline has each of its passes in its order once. -/
lemma ordered_order (h : p.IsArranged) :
    p.ordered.order.Nodup ∧ ∀ name, name ∈ p.ordered.order ↔ (p.stages.get? name).isSome := by
  obtain ⟨names, hnames⟩ : ∃ names, p.ordered.order? = some names := by
    unfold Pipeline.ordered
    split
    next hsome => exact Option.isSome_iff_exists.mp hsome
    next => exact ⟨_, computeOrder_order? p⟩
  have hnamed := h.ordered.named names hnames
  rw [ordered_keeps (·.stages) (fun _ _ _ => rfl)] at hnamed
  rwa [Pipeline.order, hnames]

end IsArranged

/-! ### The calls of a phase -/

/-- The call is made: the stage works on what the passes share, with the counters that it has. -/
structure Makes (note : Table Outcome → Text → Outcome → Table Outcome) (c : Call) (stage : Stage)
    (x y : Pipeline × Run) : Prop where
  isOf : c.IsOf stage.pass
  found_shared : c.found.shared = x.2.shared
  found_counters : c.found.counters = stage.counters
  left_shared : y.2.shared = c.handedOn.shared
  history_eq : y.1.history = x.1.history.push c.asked
  stages_eq : y.1.stages = x.1.stages.insert c.name { stage with counters := c.left.counters }
  order?_eq : y.1.order? = x.1.order?
  results_eq : y.1.results = note x.1.results c.name c.outcome

/-- No call is made. -/
structure Skips (note : Table Outcome → Text → Outcome → Table Outcome) (name : Text) (x y : Pipeline × Run) :
    Prop where
  run_eq : y.2 = x.2
  history_eq : y.1.history = x.1.history
  stages_eq : y.1.stages = x.1.stages
  order?_eq : y.1.order? = x.1.order?
  results_eq : y.1.results = note x.1.results name .skipped

/-- What becomes of a pass that was called for, or was skipped. -/
def verdict (calls : List Call) (name : Text) : Outcome := (calls.find? (·.name = name)).elim .skipped Call.outcome

/-- The pass of the call has worked with its own counters, and keeps them. -/
def Serves (p p' : Pipeline) (c : Call) : Prop :=
  ∃ stage, p.stages.get? c.name = some stage ∧ c.IsOf stage.pass ∧ c.found.counters = stage.counters ∧
    p'.stages.get? c.name = some { stage with counters := c.left.counters }

/-- The passes with the names have had their calls in a phase, those that are switched off none. -/
structure Phased (phase : Phase) (note : Table Outcome → Text → Outcome → Table Outcome) (names : List Text)
    (calls : List Call) (x y : Pipeline × Run) : Prop where
  asked : calls.map Call.asked = (names.filter x.1.isEnabled).map (phase, ·)
  connects : Connects x.2 calls y.2
  history_eq : y.1.history = x.1.history ++ (calls.map Call.asked).toArray
  serves : ∀ c ∈ calls, Serves x.1 y.1 c
  other : ∀ name, name ∉ calls.map Call.name → y.1.stages.get? name = x.1.stages.get? name
  sorted : x.1.stages.Sorted → y.1.stages.Sorted
  order?_eq : y.1.order? = x.1.order?
  results_eq : y.1.results = names.foldl (fun results name => note results name (verdict calls name)) x.1.results

section Phase

variable {phase : Phase} {note : Table Outcome → Text → Outcome → Table Outcome} {x y z : Pipeline × Run} {name : Text}
  {names : List Text} {calls : List Call} {c : Call} {stage : Stage}

namespace Phased

variable (h : Phased phase note names calls x y)
include h

lemma mem_names (hc : c ∈ calls) : c.name ∈ names.filter x.1.isEnabled := by
  have hmem : c.asked ∈ (names.filter x.1.isEnabled).map (phase, ·) := h.asked ▸ List.mem_map_of_mem hc
  obtain ⟨name, hname, heq⟩ := List.mem_map.mp hmem
  obtain rfl : name = c.name := congrArg Prod.snd heq
  exact hname

lemma not_called (hname : name ∉ names) : name ∉ calls.map Call.name := by
  intro hcalled
  obtain ⟨c, hc, rfl⟩ := List.mem_map.mp hcalled
  exact hname (List.mem_of_mem_filter (h.mem_names hc))

end Phased

lemma verdict_of_not_called (h : name ∉ calls.map Call.name) : verdict calls name = .skipped := by
  have hnone : calls.find? (·.name = name) = none :=
    List.find?_eq_none.mpr fun c hc heq => h (List.mem_map.mpr ⟨c, hc, by simpa using heq⟩)
  rw [verdict, hnone, Option.elim_none]

lemma filter_isEnabled_congr (h : ∀ name ∈ names, y.1.stages.get? name = x.1.stages.get? name) :
    names.filter y.1.isEnabled = names.filter x.1.isEnabled :=
  List.filter_congr fun name hname => by rw [isEnabled, isEnabled, h name hname]

/-- A call goes before the calls that follow it. -/
lemma Phased.call (h : Phased phase note names calls y z) (hmakes : Makes note c stage x y) (hphase : c.phase = phase)
    (hget : x.1.stages.get? c.name = some stage) (hon : stage.isEnabled = true) (hname : c.name ∉ names) :
    Phased phase note (c.name :: names) (c :: calls) x z := by
  have hnew (name : Text) (hne : name ≠ c.name) : y.1.stages.get? name = x.1.stages.get? name := by
    rw [hmakes.stages_eq, Table.get?_insert, if_neg hne.symm]
  have hnames (name : Text) (hmem : name ∈ names) : name ≠ c.name := ne_of_mem_of_not_mem hmem hname
  have hcalls (c' : Call) (hc' : c' ∈ calls) : c'.name ≠ c.name :=
    hnames _ (List.mem_of_mem_filter (h.mem_names hc'))
  have hself : z.1.stages.get? c.name = some { stage with counters := c.left.counters } := by
    rw [h.other _ (h.not_called hname), hmakes.stages_eq, Table.get?_insert, if_pos rfl]
  constructor
  case asked =>
    have hdue : x.1.isEnabled c.name = true := by simp [isEnabled, hget, hon]
    rw [List.filter_cons_of_pos hdue, List.map_cons, List.map_cons, h.asked,
      filter_isEnabled_congr fun name hmem => hnew name (hnames name hmem), Call.asked, hphase]
  case connects => exact .cons hmakes.found_shared (h.connects.of_shared hmakes.left_shared)
  case history_eq => simp [h.history_eq, hmakes.history_eq]
  case serves =>
    refine List.forall_mem_cons.mpr ⟨⟨stage, hget, hmakes.isOf, hmakes.found_counters, hself⟩, fun c' hc' => ?_⟩
    obtain ⟨stage', hget', hserves⟩ := h.serves c' hc'
    exact ⟨stage', hnew _ (hcalls c' hc') ▸ hget', hserves⟩
  case other =>
    intro name hother
    rw [List.map_cons, List.mem_cons, not_or] at hother
    rw [h.other name hother.2, hnew name hother.1]
  case sorted => exact fun hsorted => h.sorted (hmakes.stages_eq ▸ hsorted.insert ..)
  case order?_eq => exact h.order?_eq.trans hmakes.order?_eq
  case results_eq =>
    have hfirst : verdict (c :: calls) c.name = c.outcome := by simp [verdict]
    rw [h.results_eq, List.foldl_cons, hfirst, ← hmakes.results_eq]
    refine List.foldl_ext _ _ _ fun results name hmem => ?_
    simp [verdict, (hnames name hmem).symm]

/-- A pass that is skipped goes before the passes that follow it. -/
lemma Phased.skip (h : Phased phase note names calls y z) (hskips : Skips note name x y)
    (hoff : x.1.isEnabled name = false) (hname : name ∉ names) : Phased phase note (name :: names) calls x z := by
  have hstages (name : Text) : y.1.stages.get? name = x.1.stages.get? name := by rw [hskips.stages_eq]
  constructor
  case asked =>
    rw [h.asked, List.filter_cons_of_neg (by simp [hoff]), filter_isEnabled_congr fun name _ => hstages name]
  case connects => exact h.connects.of_shared (by rw [hskips.run_eq])
  case history_eq => rw [h.history_eq, hskips.history_eq]
  case serves => exact fun c hc => by simpa only [Serves, hstages] using h.serves c hc
  case other => exact fun name hother => (h.other name hother).trans (hstages name)
  case sorted => exact fun hsorted => h.sorted (hskips.stages_eq ▸ hsorted)
  case order?_eq => exact h.order?_eq.trans hskips.order?_eq
  case results_eq =>
    rw [h.results_eq, List.foldl_cons, verdict_of_not_called (h.not_called hname), ← hskips.results_eq]

/-- A phase in which each pass is called or skipped. -/
theorem exists_phased {next : Pipeline × Run → Text → Pipeline × Run}
    (hcall : ∀ x name stage, x.1.stages.get? name = some stage → stage.isEnabled = true →
      ∃ c, c.asked = (phase, name) ∧ Makes note c stage x (next x name))
    (hskip : ∀ x name stage, x.1.stages.get? name = some stage → stage.isEnabled = false →
      Skips note name x (next x name))
    (hnodup : names.Nodup) (hstages : ∀ name ∈ names, (x.1.stages.get? name).isSome) :
    ∃ calls, Phased phase note names calls x (names.foldl next x) := by
  induction names generalizing x with
  | nil => exact ⟨[], rfl, .nil rfl, by simp, by simp, fun _ _ => rfl, id, rfl, rfl⟩
  | cons name rest ih =>
    rw [List.nodup_cons] at hnodup
    rw [List.forall_mem_cons] at hstages
    obtain ⟨stage, hget⟩ := Option.isSome_iff_exists.mp hstages.1
    cases hon : stage.isEnabled with
    | true =>
      obtain ⟨c, hasked, hmakes⟩ := hcall x name stage hget hon
      obtain ⟨hphase, rfl⟩ := Prod.mk.inj hasked
      obtain ⟨calls, hrest⟩ := ih hnodup.2 (x := next x c.name) fun name hname => by
        rw [hmakes.stages_eq, Table.get?_insert, if_neg (ne_of_mem_of_not_mem hname hnodup.1).symm]
        exact hstages.2 name hname
      exact ⟨c :: calls, hrest.call hmakes hphase hget hon hnodup.1⟩
    | false =>
      have hskips := hskip x name stage hget hon
      obtain ⟨calls, hrest⟩ := ih hnodup.2 (x := next x name) (by rw [hskips.stages_eq]; exact hstages.2)
      exact ⟨calls, hrest.skip hskips (by simp [isEnabled, hget, hon]) hnodup.1⟩

end Phase

/-! ### Both phases -/

lemma map_eq {α β : Type} (f : α → β) (work : Action α) (run : Run) : (f <$> work) run = match work run with
    | .ok a left => .ok (f a) left
    | .error e left => .error e left := by
  cases h : work run <;> simp [Functor.map, EStateM.map, h]

section Steps

variable {p : Pipeline} {run : Run} {name : Text} {stage : Stage} (hget : p.stages.get? name = some stage)
include hget

lemma analyzeNext_makes (hon : stage.isEnabled = true) : ∃ c : Call, c.asked = (.analyze, name) ∧
    Makes (fun results _ _ => results) c stage (p, run) (analyzeNext (p, run) name) := by
  rw [analyzeNext, hget]
  dsimp only
  rw [if_pos hon, analyzeStage, act]
  cases hwork : stage.pass.analyze { run with counters := stage.counters, log := #[] } with
  | ok u left =>
    refine ⟨⟨.analyze, name, { run with counters := stage.counters, log := #[] }, .ok none, left⟩, rfl, ?_⟩
    refine ⟨by rw [Call.IsOf, Pass.work, map_eq, hwork], rfl, rfl, ?_, rfl, rfl, rfl, rfl⟩
    rw [Call.handedOn_of_ok rfl]
    rfl
  | error e left =>
    refine ⟨⟨.analyze, name, { run with counters := stage.counters, log := #[] }, .error e, left⟩, rfl, ?_⟩
    exact ⟨by rw [Call.IsOf, Pass.work, map_eq, hwork], rfl, rfl, rfl, rfl, rfl, rfl, rfl⟩

lemma transformNext_makes (hon : stage.isEnabled = true) : ∃ c : Call, c.asked = (.transform, name) ∧
    Makes Table.insert c stage (p, run) (transformNext (p, run) name) := by
  rw [transformNext, hget]
  dsimp only
  rw [if_pos hon, transformStage, act]
  cases hwork : stage.pass.transform { run with counters := stage.counters, log := #[] } with
  | ok outcome left =>
    refine ⟨⟨.transform, name, { run with counters := stage.counters, log := #[] }, .ok outcome, left⟩, rfl, ?_⟩
    refine ⟨by rw [Call.IsOf, Pass.work, map_eq, hwork], rfl, rfl, ?_, rfl, rfl, rfl, rfl⟩
    rw [Call.handedOn_of_ok rfl]
    rfl
  | error e left =>
    refine ⟨⟨.transform, name, { run with counters := stage.counters, log := #[] }, .error e, left⟩, rfl, ?_⟩
    exact ⟨by rw [Call.IsOf, Pass.work, map_eq, hwork], rfl, rfl, rfl, rfl, rfl, rfl, rfl⟩

lemma analyzeNext_skips (hoff : stage.isEnabled = false) :
    Skips (fun results _ _ => results) name (p, run) (analyzeNext (p, run) name) := by
  rw [analyzeNext, hget]
  dsimp only
  rw [if_neg (by simp [hoff])]
  exact ⟨rfl, rfl, rfl, rfl, rfl⟩

lemma transformNext_skips (hoff : stage.isEnabled = false) :
    Skips Table.insert name (p, run) (transformNext (p, run) name) := by
  rw [transformNext, hget]
  dsimp only
  rw [if_neg (by simp [hoff])]
  exact ⟨rfl, rfl, rfl, rfl, rfl⟩

end Steps

namespace Phased

variable {phase : Phase} {note : Table Outcome → Text → Outcome → Table Outcome} {x y : Pipeline × Run}
  {names : List Text} {calls : List Call} (h : Phased phase note names calls x y)
include h

/-- A stage has other counters at most. -/
lemma stage_eq (name : Text) :
    y.1.stages.get? name = x.1.stages.get? name ∨ ∃ stage counters, x.1.stages.get? name = some stage ∧
      y.1.stages.get? name = some { stage with counters := counters } := by
  by_cases hname : name ∈ calls.map Call.name
  · obtain ⟨c, hc, rfl⟩ := List.mem_map.mp hname
    obtain ⟨stage, hget, -, -, hafter⟩ := h.serves c hc
    exact .inr ⟨stage, _, hget, hafter⟩
  · exact .inl (h.other name hname)

lemma isSome_eq (name : Text) : (y.1.stages.get? name).isSome = (x.1.stages.get? name).isSome := by
  obtain heq | ⟨stage, counters, hbefore, hafter⟩ := h.stage_eq name
  · rw [heq]
  · rw [hbefore, hafter, Option.isSome_some, Option.isSome_some]

lemma isEnabled_eq : y.1.isEnabled = x.1.isEnabled := by
  funext name
  obtain heq | ⟨stage, counters, hbefore, hafter⟩ := h.stage_eq name
  · rw [isEnabled, isEnabled, heq]
  · rw [isEnabled, isEnabled, hbefore, hafter, Option.any_some, Option.any_some]

lemma isArranged (harranged : x.1.IsArranged) : y.1.IsArranged :=
  harranged.congr (h.sorted harranged.sorted) h.order?_eq h.isSome_eq

end Phased

/-- A run is a phase of looking and a phase of changing. -/
lemma IsArranged.exists_phases {p : Pipeline} (h : p.IsArranged) (start : Run) : ∃ looks turns mid,
    Phased .analyze (fun results _ _ => results) p.ordered.order looks ({ p.ordered with results := {} }, start) mid ∧
      Phased .transform Table.insert p.ordered.order turns mid (p.run start) := by
  obtain ⟨hnodup, hnames⟩ := h.ordered_order
  have hstages : p.ordered.stages = p.stages := ordered_keeps (·.stages) (fun _ _ _ => rfl) p
  have hsome (name : Text) (hname : name ∈ p.ordered.order) : (p.ordered.stages.get? name).isSome := by
    rw [hstages]
    exact (hnames name).mp hname
  obtain ⟨looks, hlooks⟩ := exists_phased (x := ({ p.ordered with results := {} }, start))
    (fun _ _ _ => analyzeNext_makes) (fun _ _ _ => analyzeNext_skips) hnodup hsome
  obtain ⟨turns, hturns⟩ := exists_phased (fun _ _ _ => transformNext_makes) (fun _ _ _ => transformNext_skips) hnodup
    fun name hname => hlooks.isSome_eq name ▸ hsome name hname
  exact ⟨looks, turns, _, hlooks, hturns⟩

lemma Managed.isArranged {p : Pipeline} (h : p.Managed) : p.IsArranged := by
  induction h with
  | empty => exact .unordered Table.sorted_empty rfl
  | register _ pass ih => exact .unordered (by rw [register_stages]; exact ih.sorted.insert ..) rfl
  | @enable p _ name on ih =>
    unfold Pipeline.enable
    split
    · exact ih
    next stage hget => exact ih.replace hget rfl rfl
  | @makeReady p _ on ih =>
    refine .computeOrder (List.foldlRecOn (motive := fun p : Pipeline => p.stages.Sorted) _ _ ih.sorted ?_)
    intro q hq e _
    rw [readyStage_stages]
    exact hq.insert ..
  | ordered _ ih => exact ih.ordered
  | run _ start ih =>
    obtain ⟨looks, turns, mid, hlooks, hturns⟩ := ih.exists_phases start
    exact hturns.isArranged (hlooks.isArranged (ih.ordered.congr ih.ordered.sorted rfl fun _ => rfl))
  | @resetStatistics p _ ih =>
    have hkeys : p.resetStatistics.stages.keys = p.stages.keys := by
      simp [Pipeline.resetStatistics, Table.map, Table.keys]
    have hsorted : p.resetStatistics.stages.Sorted := by
      rw [Table.Sorted, hkeys]
      exact ih.sorted
    refine ih.congr hsorted rfl fun name => ?_
    rw [Bool.eq_iff_iff, ← hsorted.mem_keys_iff, ← ih.sorted.mem_keys_iff, hkeys]

/-! ### What becomes of the passes -/

lemma verdict_of_mem {calls : List Call} (hnodup : (calls.map Call.name).Nodup) {c : Call} (hc : c ∈ calls) :
    verdict calls c.name = c.outcome := by
  induction calls with
  | nil => cases hc
  | cons c' rest ih =>
    rw [List.map_cons, List.nodup_cons] at hnodup
    obtain rfl | hc := List.mem_cons.mp hc
    · simp [verdict]
    · have hne : c'.name ≠ c.name := fun heq => hnodup.1 (heq ▸ List.mem_map_of_mem hc)
      simpa [verdict, hne] using ih hnodup.2 hc

/-- The results of a run are written down name by name. -/
lemma get?_foldl_insert {names : List Text} (hnodup : names.Nodup) (f : Text → Outcome) (name : Text) :
    (names.foldl (fun results name => results.insert name (f name)) ({} : Table Outcome)).get? name =
      if name ∈ names then some (f name) else none := by
  have hfold : names.foldl (fun results name => results.insert name (f name)) ({} : Table Outcome) =
      ({} : Table Outcome).insertAll (names.map fun name => (name, f name)) := by
    rw [Table.insertAll, List.foldl_map]
  have hkeys : (names.map fun name => (name, f name)).map (·.1) = names := by simp [Function.comp_def]
  rw [hfold]
  split
  next hmem =>
    have hentries : ((names.map fun name => (name, f name)).map (·.1)).Nodup := by rwa [hkeys]
    exact Table.get?_insertAll hentries (List.mem_map.mpr ⟨name, hmem, rfl⟩) {}
  next hmem => exact Table.get?_insertAll_of_notMem (by rwa [hkeys]) {}

/-- What the table of results counts is what the names count. -/
lemma succeeded_eq {p : Pipeline} (hsorted : p.results.Sorted) {names : List Text} (hnodup : names.Nodup)
    (hmem : ∀ name, name ∈ names ↔ (p.results.get? name).isSome) :
    p.succeeded = names.countP fun name => p.outcome name = .success := by
  have hkeys : p.results.keys.Perm names :=
    (List.perm_ext_iff_of_nodup hsorted.nodup hnodup).mpr fun name => by rw [hsorted.mem_keys_iff, hmem]
  rw [← hkeys.countP_eq, Table.keys, List.countP_map, succeeded]
  refine List.countP_congr fun e he => ?_
  have hget : p.results.get? e.1 = some e.2 := hsorted.get?_of_mem he
  simp [outcome, hget]

/-- The two calls are those of one pass. It works with its own counters from the first call to the second, and they
are kept for it afterwards. -/
def Employs (p p' : Pipeline) (look turn : Call) : Prop :=
  ∃ stage, p.stages.get? look.name = some stage ∧ look.name = turn.name ∧ look.IsOf stage.pass ∧ turn.IsOf stage.pass ∧
    look.found.counters = stage.counters ∧ turn.found.counters = look.left.counters ∧
    p'.stages.get? look.name = some { stage with counters := turn.left.counters }

lemma employs_of_serves {x y z : Pipeline} {look turn : Call} (hlook : Serves x y look) (hturn : Serves y z turn)
    (hname : look.name = turn.name) : Employs x z look turn := by
  obtain ⟨stage, hget, hlookOf, hlookCounters, hmid⟩ := hlook
  obtain ⟨stage', hget', hturnOf, hturnCounters, hafter⟩ := hturn
  obtain rfl : stage' = { stage with counters := look.left.counters } :=
    Option.some.inj (hget'.symm.trans (hname ▸ hmid))
  exact ⟨stage, hget, hname, hlookOf, hturnOf, hlookCounters, hturnCounters, hname ▸ hafter⟩

lemma names_of_asked {phase : Phase} {calls : List Call} {names : List Text}
    (h : calls.map Call.asked = names.map (phase, ·)) : calls.map Call.name = names := by
  have hnames := congrArg (List.map Prod.snd) h
  simpa [Function.comp_def, Call.asked] using hnames

/-- A run calls each pass that is switched on twice, first to look and then to change, in the order of the passes and
with all looks before the first change, and no other pass. Whatever the passes do and whichever of them fail, each call
finds what the passes share as the one before has left it, behind the warning for that one if it failed. What becomes of
a pass is what its second call came to, and a failure comes to an error. -/
theorem run_isolates {p : Pipeline} (h : p.Managed) (start : Run) :
    let order := p.ordered.order
    let due := order.filter p.isEnabled
    (order.Nodup ∧ ∀ name, name ∈ order ↔ (p.stages.get? name).isSome) ∧
    ∃ looks turns : List Call,
      (looks ++ turns).map Call.asked = due.map (Phase.analyze, ·) ++ due.map (Phase.transform, ·) ∧
      (p.run start).1.history = p.history ++ ((looks ++ turns).map Call.asked).toArray ∧
      Connects start (looks ++ turns) (p.run start).2 ∧
      List.Forall₂ (Employs p (p.run start).1) looks turns ∧
      (∀ turn ∈ turns, (p.run start).1.outcome turn.name = turn.outcome) ∧
      (∀ name, p.isEnabled name = false → (p.run start).1.outcome name = .skipped ∧
        (p.run start).1.stages.get? name = p.stages.get? name) ∧
      (p.run start).1.succeeded = order.countP fun name => (p.run start).1.outcome name = .success := by
  have harranged := h.isArranged
  obtain ⟨hnodup, hnames⟩ := harranged.ordered_order
  obtain ⟨looks, turns, mid, hlooks, hturns⟩ := harranged.exists_phases start
  have hstages : p.ordered.stages = p.stages := ordered_keeps (·.stages) (fun _ _ _ => rfl) p
  have henabled : ({ p.ordered with results := {} } : Pipeline).isEnabled = p.isEnabled := by
    funext name
    rw [isEnabled, isEnabled, hstages]
  have hlookAsked := hlooks.asked
  have hturnAsked := hturns.asked
  rw [hlooks.isEnabled_eq] at hturnAsked
  rw [henabled] at hlookAsked hturnAsked
  have hlookNames := names_of_asked hlookAsked
  have hturnNames := names_of_asked hturnAsked
  have hmid : mid.1.results = {} := hlooks.results_eq.trans (List.foldl_fixed' (fun _ => rfl) _)
  have hresults := hturns.results_eq
  rw [hmid] at hresults
  have hget (name : Text) : (p.run start).1.results.get? name =
      if name ∈ p.ordered.order then some (verdict turns name) else none := by
    rw [hresults, get?_foldl_insert hnodup]
  have houtcome (name : Text) : (p.run start).1.outcome name = verdict turns name := by
    rw [outcome, hget]
    split
    · rfl
    next hother => exact (verdict_of_not_called (hturns.not_called hother)).symm
  have hcalled : (turns.map Call.name).Nodup := hturnNames ▸ hnodup.filter _
  refine ⟨⟨hnodup, hnames⟩, looks, turns, ?_, ?_, hlooks.connects.append hturns.connects, ?_, fun turn hturn => ?_,
    fun name hoff => ?_, ?_⟩
  · rw [List.map_append, hlookAsked, hturnAsked]
  · have hhistory : p.ordered.history = p.history := ordered_keeps (·.history) (fun _ _ _ => rfl) p
    rw [hturns.history_eq, hlooks.history_eq, hhistory]
    simp
  · have hpairs : List.Forall₂ (fun look turn => look.name = turn.name) looks turns := by
      have hnames : List.Forall₂ Eq (looks.map Call.name) (turns.map Call.name) := by
        rw [List.forall₂_eq_eq_eq, hlookNames, hturnNames]
      exact List.forall₂_map_right_iff.mp (List.forall₂_map_left_iff.mp hnames)
    refine List.forall₂_iff_zip.mpr ⟨hpairs.length_eq, fun {look turn} hmem => ?_⟩
    obtain ⟨hlook, hturn⟩ := List.of_mem_zip hmem
    refine employs_of_serves ?_ (hturns.serves turn hturn) ((List.forall₂_iff_zip.mp hpairs).2 hmem)
    simpa only [Serves, hstages] using hlooks.serves look hlook
  · rw [houtcome, verdict_of_mem hcalled hturn]
  · have hname : name ∉ p.ordered.order.filter p.isEnabled := by simp [hoff]
    refine ⟨by rw [houtcome, verdict_of_not_called (hturnNames ▸ hname)], ?_⟩
    rw [hturns.other name (hturnNames ▸ hname), hlooks.other name (hlookNames ▸ hname), hstages]
  · refine succeeded_eq ?_ hnodup fun name => ?_
    · rw [hresults]
      exact List.foldlRecOn (motive := Table.Sorted) _ _ Table.sorted_empty fun _ ht _ _ => ht.insert ..
    · rw [hget]
      split <;> simp_all

/-- A pass that fails when it looks at the tree, and one that fails half way through its changes, before one that is
switched off. -/
def troubled : Pipeline :=
  let hasty : Pass :=
    { name := "hasty", description := "", analyze := throw (.reported "too early"), transform := return .success }
  let torn : Pass :=
    { name := "torn", description := "", priority := 500
      transform := do Action.warn "half done"; throw (.reported "torn apart") }
  let idle : Pass := { name := "idle", description := "", dependencies := ["torn"], transform := return .success }
  ((({} : Pipeline).register hasty).register torn |>.register idle).enable "idle" false

/-- Both failures leave their warnings where they happen, and the pass that failed first still does its work. -/
theorem run_isolates_troubled :
    let start : Run := { arena := {} }
    troubled.Managed ∧
      (troubled.run start).2.warnings =
        ([("hasty: analysis failed: too early" : Text), "half done", "torn: torn apart"] : List Text) ∧
      (troubled.run start).1.outcome "torn" = .error ∧ (troubled.run start).1.outcome "idle" = .skipped ∧
      (troubled.run start).1.succeeded = 1 ∧
      ∃ looks turns : List Call, Connects start (looks ++ turns) (troubled.run start).2 ∧
        (looks ++ turns).map Call.asked = ([(.analyze, "torn"), (.analyze, "hasty"), (.transform, "torn"),
          (.transform, "hasty")] : List (Phase × Text)) := by
  intro start
  have hmanaged : troubled.Managed := by
    unfold troubled
    exact .enable (.register (.register (.register .empty _) _) _) _ _
  obtain ⟨-, looks, turns, hasked, -, hconnects, -, -, hskipped, hsucceeded⟩ := run_isolates hmanaged start
  have hdue : troubled.ordered.order.filter troubled.isEnabled = ([("torn" : Text), "hasty"] : List Text) := by
    decide +kernel
  have hcount : (troubled.ordered.order.countP fun name => (troubled.run start).1.outcome name = .success) = 1 := by
    decide +kernel
  have hidle : troubled.isEnabled "idle" = false := by decide +kernel
  refine ⟨hmanaged, by decide +kernel, by decide +kernel, (hskipped _ hidle).1, hsucceeded.trans hcount, looks, turns,
    hconnects, ?_⟩
  rw [hasked, hdue]
  rfl

end Pipeline

end PlainScript
