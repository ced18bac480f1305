import PlainScript.Proofs.Reports
import Mathlib.Data.List.Induction

/-! A run as the work of its passes, one after the other. Each pass works under its name with its switch, which the
others leave alone, and so what is proved of the passes one by one tells what a run does. -/
namespace PlainScript

open Relation Arena PlainScript.Action
open Function (update update_apply update_eq_self_iff)

namespace Pipeline

/-! ### Who works under a name -/

/-- The pass that works under a name, and whether it is switched on. -/
def staffed (p : Pipeline) (name : Text) : Option (Pass × Bool) :=
  (p.stages.get? name).map fun stage => (stage.pass, stage.isEnabled)

section Staff

variable {p p' : Pipeline} {name : Text} {stage : Stage}

lemma staffed_insert (stage : Stage) (h : p'.stages = p.stages.insert name stage) :
    p'.staffed = update p.staffed name (some (stage.pass, stage.isEnabled)) := by
  funext other
  simp only [staffed, h, Table.get?_insert, update_apply]
  by_cases heq : name = other <;> simp [heq, eq_comm]

/-- A stage may be put back with other counters. -/
lemma staffed_recounted (hget : p.stages.get? name = some stage) {counters : Table Int}
    (h : p'.stages = p.stages.insert name { stage with counters }) : p'.staffed = p.staffed := by
  rw [staffed_insert _ h, update_eq_self_iff, staffed, hget]
  rfl

lemma staffed_register (p : Pipeline) (pass : Pass) :
    (p.register pass).staffed = update p.staffed pass.name (some (pass, true)) :=
  staffed_insert _ (register_stages p pass)

lemma staffed_enable (p : Pipeline) (name : Text) (on : Bool) :
    (p.enable name on).staffed = update p.staffed name ((p.staffed name).map fun s => (s.1, on)) := by
  unfold enable
  split
  next hnone =>
    symm
    rw [update_eq_self_iff, staffed, hnone]
    rfl
  next stage hget =>
    rw [show p.staffed name = some (stage.pass, stage.isEnabled) by rw [staffed, hget]; rfl]
    exact staffed_insert { stage with isEnabled := on } rfl

lemma staffed_makeReady (hsorted : p.stages.Sorted) : (p.makeReady true).2.staffed = p.staffed := by
  have hfold := List.foldlRecOn (motive := fun q : Pipeline => q.staffed = p.staffed) p.stages.entries
    (fun q e => q.readyStage true e.1 e.2) rfl fun q hq e he => by
      rw [staffed_insert _ (readyStage_stages true q e.1 e.2), hq, update_eq_self_iff, staffed,
        hsorted.get?_of_mem he]
      rfl
  rw [← hfold]
  funext name
  rw [staffed, makeReady, computeOrder_stages]
  rfl

end Staff

/-- Passes with names of their own work under these names. -/
lemma staffed_registered {passes : List Pass} (hnodup : (passes.map (·.name)).Nodup) {pass : Pass} (h : pass ∈ passes)
    (p : Pipeline) : (passes.foldl register p).staffed pass.name = some (pass, true) := by
  induction passes using List.reverseRecOn with
  | nil => cases h
  | append_singleton passes last ih =>
    rw [List.map_append, List.nodup_append] at hnodup
    rw [List.foldl_append, List.foldl_cons, List.foldl_nil, staffed_register, update_apply]
    obtain h | h := List.mem_append.mp h
    · rw [if_neg (hnodup.2.2 _ (List.mem_map_of_mem h) _ (by simp))]
      exact ih hnodup.1 h
    · rw [List.mem_singleton.mp h, if_pos rfl]

/-- Each switch is that of one pass. -/
lemma staffed_switched {switches : List (Text × Bool)} (hnodup : (switches.map Prod.fst).Nodup) (p : Pipeline)
    (name : Text) : (switches.foldl (fun p e => p.enable e.1 e.2) p).staffed name =
      (p.staffed name).map fun s => (s.1, (switches.lookup name).getD s.2) := by
  induction switches generalizing p with
  | nil => simp
  | cons e rest ih =>
    obtain ⟨hnew, hrest⟩ := List.nodup_cons.mp hnodup
    rw [List.foldl_cons, ih hrest, staffed_enable, update_apply, List.lookup_cons]
    split_ifs with hname
    · subst hname
      have hnone : rest.lookup e.1 = none := by
        rw [List.lookup_eq_none_iff]
        intro e' he'
        simpa using fun heq => hnew (List.mem_map.mpr ⟨e', he', heq.symm⟩)
      simp [hnone, Function.comp_def]
    · simp [beq_false_of_ne hname]

/-- The passes in the order of their turns, each with its switch. -/
def crew (options : PassOptions) : List (Pass × Bool) :=
  [(Pass.debuggers, true), (Pass.decoders, options.decryptStrings), (Pass.escapes, options.unescapeStrings),
    (Pass.dispatchLoops, options.restoreControlFlow), (Pass.constantBranches, options.removeDeadCode),
    (Pass.arithmetic, options.simplifyExpressions)]

lemma order_eq_crew (options : PassOptions) : (pipeline options).order = (crew options).map (·.1.name) :=
  order_eq options

lemma mem_all_of_crew {options : PassOptions} {e : Pass × Bool} (h : e ∈ crew options) : e.1 ∈ Pass.all := by
  simp only [crew, List.mem_cons, List.not_mem_nil, or_false] at h
  simp only [Pass.all, List.mem_cons, List.not_mem_nil, or_false]
  obtain rfl | rfl | rfl | rfl | rfl | rfl := h <;> tauto

lemma staffed_pipeline {options : PassOptions} {e : Pass × Bool} (h : e ∈ crew options) :
    (pipeline options).staffed e.1.name = some e := by
  have hregistered : (Pass.all.foldl register {}).IsFresh :=
    isFresh_empty.foldl fun p hp pass hpass => hp.register (Pass.isFaithful_of_mem_all hpass)
  refine (congrFun (staffed_makeReady (hregistered.foldl fun p hp e _ => hp.enable e.1 e.2).sound.sorted) e.1.name).trans ?_
  rw [staffed_switched (by simp only [List.map_cons, List.map_nil]; decide),
    staffed_registered (by decide) (mem_all_of_crew h), Option.map_some]
  simp only [crew, List.mem_cons, List.not_mem_nil, or_false] at h
  obtain rfl | rfl | rfl | rfl | rfl | rfl := h <;> rfl

end Pipeline

/-! ### Turns -/

/-- A pass that is switched on works, and one that is switched off does nothing. -/
inductive Turn (r : Run) : Run → Pass × Bool → Prop
  | off (pass : Pass) : Turn r r (pass, false)
  | on {pass : Pass} {counters : Table Int} {outcome : Outcome} {s : Run}
    (h : pass.transform { r with counters, log := #[] } = .ok outcome s) :
    Turn r { s with counters := {}, log := #[] } (pass, true)

/-- The passes have their turns one after the other. -/
inductive TakeTurns : List (Pass × Bool) → Run → Run → Prop
  | nil (r : Run) : TakeTurns [] r r
  | cons {e : Pass × Bool} {es : List (Pass × Bool)} {r r₁ r' : Run} (h : Turn r r₁ e) (hrest : TakeTurns es r₁ r') :
    TakeTurns (e :: es) r r'

lemma Pass.IsFaithful.standing {pass : Pass} (hpass : pass.IsFaithful) {s : Run} {root : NodeId}
    (hs : s.arena.Standing root) : pass.transform.Yields s fun _ s' => s'.arena.Standing root :=
  (hpass.transform hs).mono fun _ _ ⟨_, hsteps, _⟩ =>
    hsteps.keeps (P := (Standing · root)) (fun _ _ h hstep => hstep.standing h) hs

namespace Turn

variable {r r' : Run} {root : NodeId} {pass : Pass} {e : Pass × Bool}

/-- What a pass yields from every run over the same tree with the same records, its turn yields. -/
lemma yields (h : Turn r r' (pass, true)) {Q : Arena → List Record → Prop}
    (hQ : ∀ s : Run, s.arena = r.arena → s.records = r.records →
      pass.transform.Yields s fun _ s' => Q s'.arena s'.records) : Q r'.arena r'.records := by
  cases h with
  | on h =>
    obtain ⟨outcome, s, hrun, hs⟩ := hQ { r with counters := _, log := #[] } rfl rfl
    cases h.symm.trans hrun
    exact hs

lemma keeps (h : Turn r r' e) {Q : Arena → List Record → Prop}
    (hQ : e.2 = true → ∀ s : Run, s.arena = r.arena → s.records = r.records →
      e.1.transform.Yields s fun _ s' => Q s'.arena s'.records) (hr : Q r.arena r.records) :
    Q r'.arena r'.records := by
  cases h with
  | off pass => exact hr
  | on h => exact yields (.on h) (hQ rfl)

section Faithful

variable (h : Turn r r' e) (hpass : e.1.IsFaithful) (hs : r.arena.Standing root)
include h hpass hs

lemma steps : ∃ n, InSteps (Rewrites root) n r.arena r'.arena := by
  cases h with
  | off pass => exact ⟨0, .zero _⟩
  | on h =>
    refine yields (.on h) (Q := fun a _ => ∃ n, InSteps (Rewrites root) n r.arena a) fun s harena _ => ?_
    rw [← harena] at hs ⊢
    exact (hpass.transform hs).mono fun _ _ ⟨n, hsteps, _⟩ => ⟨n, hsteps⟩

lemma standing : r'.arena.Standing root := by
  obtain ⟨n, hsteps⟩ := h.steps hpass hs
  exact hsteps.keeps (P := (Standing · root)) (fun _ _ h hstep => hstep.standing h) hs

/-- What a pass changes, it records. -/
lemma recorded : (r'.arena = r.arena ∧ r'.records = r.records) ∨
    ∃ entry : Record, entry.pass = e.1.name ∧ r'.records = r.records ++ [entry] := by
  cases h with
  | off pass => exact .inl ⟨rfl, rfl⟩
  | @on pass _ _ _ h =>
    refine yields (.on h) (Q := fun a entries => (a = r.arena ∧ entries = r.records) ∨
      ∃ entry : Record, entry.pass = pass.name ∧ entries = r.records ++ [entry]) fun s harena hrecords => ?_
    rw [← harena] at hs ⊢
    rw [← hrecords]
    refine (hpass.transform hs).mono fun _ s' ⟨n, hsteps, hledger⟩ => ?_
    obtain ⟨rfl, hnone, -⟩ | ⟨-, ⟨entry, hname, -, hentry⟩, -⟩ := hledger.entry
    · exact .inl ⟨hsteps.eq_of_zero, hnone⟩
    · exact .inr ⟨entry, hname, hentry⟩

end Faithful

end Turn

namespace TakeTurns

variable {es : List (Pass × Bool)} {r r' : Run} {root : NodeId}

/-- A pass has its turn when those before it have had theirs. -/
lemma split (before after : List (Pass × Bool)) {e : Pass × Bool} (h : TakeTurns (before ++ e :: after) r r') :
    ∃ r₁ r₂, TakeTurns before r r₁ ∧ Turn r₁ r₂ e ∧ TakeTurns after r₂ r' := by
  induction before generalizing r with
  | nil =>
    cases h with
    | @cons _ _ _ r₂ _ hturn hrest => exact ⟨r, r₂, .nil r, hturn, hrest⟩
  | cons first before ih =>
    cases h with
    | cons hturn hrest =>
      obtain ⟨r₁, r₂, hbefore, hown, hafter⟩ := ih hrest
      exact ⟨r₁, r₂, .cons hturn hbefore, hown, hafter⟩

lemma steps (h : TakeTurns es r r') (hes : ∀ e ∈ es, e.1.IsFaithful) (hs : r.arena.Standing root) :
    ∃ n, InSteps (Rewrites root) n r.arena r'.arena := by
  induction h with
  | nil r => exact ⟨0, .zero _⟩
  | cons hturn _ ih =>
    have hpass := hes _ List.mem_cons_self
    obtain ⟨n, hsteps⟩ := hturn.steps hpass hs
    obtain ⟨m, hrest⟩ := ih (fun e he => hes e (List.mem_cons_of_mem _ he)) (hturn.standing hpass hs)
    exact ⟨n + m, hsteps.trans hrest⟩

lemma standing (h : TakeTurns es r r') (hes : ∀ e ∈ es, e.1.IsFaithful) (hs : r.arena.Standing root) :
    r'.arena.Standing root := by
  obtain ⟨n, hsteps⟩ := h.steps hes hs
  exact hsteps.keeps (P := (Standing · root)) (fun _ _ h hstep => hstep.standing h) hs

lemma records_prefix (h : TakeTurns es r r') (hes : ∀ e ∈ es, e.1.IsFaithful) (hs : r.arena.Standing root) :
    r.records <+: r'.records := by
  induction h with
  | nil r => exact List.prefix_rfl
  | cons hturn _ ih =>
    have hpass := hes _ List.mem_cons_self
    have hrest := ih (fun e he => hes e (List.mem_cons_of_mem _ he)) (hturn.standing hpass hs)
    obtain ⟨-, heq⟩ | ⟨entry, -, heq⟩ := hturn.recorded hpass hs
    · exact heq ▸ hrest
    · exact (heq ▸ List.prefix_append _ _).trans hrest

/-- What every pass keeps that is switched on and has recorded something, the turns keep. -/
theorem keeps {P : Arena → List Record → Prop} (h : TakeTurns es r r') (hes : ∀ e ∈ es, e.1.IsFaithful)
    (hs : r.arena.Standing root) (hkeeps : ∀ e ∈ es, e.2 = true → (∃ entry ∈ r'.records, entry.pass = e.1.name) →
      ∀ s : Run, s.arena.Standing root → P s.arena s.records → e.1.transform.Yields s fun _ s' => P s'.arena s'.records)
    (hP : P r.arena r.records) : P r'.arena r'.records := by
  induction h with
  | nil r => exact hP
  | @cons e es r r₁ r' hturn hrest ih =>
    have hpass := hes _ List.mem_cons_self
    have hes' (e : Pass × Bool) (he : e ∈ es) := hes e (List.mem_cons_of_mem _ he)
    have hs₁ := hturn.standing hpass hs
    apply ih hes' hs₁
    · exact fun e he => hkeeps e (List.mem_cons_of_mem _ he)
    obtain ⟨harena, hrecords⟩ | ⟨entry, hname, hrecords⟩ := hturn.recorded hpass hs
    · rwa [harena, hrecords]
    have hentry : entry ∈ r'.records := (hrest.records_prefix hes' hs₁).subset (by simp [hrecords])
    apply hturn.keeps _ hP
    intro hon s harena hrecords
    apply hkeeps e List.mem_cons_self hon ⟨entry, hentry, hname⟩ s (harena ▸ hs)
    rwa [harena, hrecords]

end TakeTurns

/-! ### The run of a pipeline -/

namespace Pipeline

section Names

variable {x : Pipeline × Run} {root : NodeId}

lemma staffed_act {α : Type} {p : Pipeline} {name : Text} {stage : Stage} (hget : p.stages.get? name = some stage)
    (work : Action α) (run : Run) : (p.act name stage work run).2.1.staffed = p.staffed := by
  unfold act
  dsimp only
  split <;> exact staffed_recounted hget rfl

lemma staffed_analyzeNext (x : Pipeline × Run) (name : Text) : (analyzeNext x name).1.staffed = x.1.staffed := by
  obtain ⟨p, run⟩ := x
  rw [analyzeNext]
  cases hget : p.stages.get? name with
  | none => rfl
  | some stage =>
    dsimp only
    split
    · have hact := staffed_act (p := p.asked .analyze name) hget stage.pass.analyze run
      rw [analyzeStage]
      split
      next heq => exact (congrArg (·.2.1.staffed) heq).symm.trans hact
      next heq => exact (congrArg (·.2.1.staffed) heq).symm.trans hact
    · rfl

/-- At its turn a pass works if it is switched on, and the passes work under their names as before. -/
lemma transformNext_turn {name : Text} {e : Pass × Bool} (hstaffed : x.1.staffed name = some e)
    (hpass : e.1.IsFaithful) (hs : x.2.arena.Standing root) :
    Turn x.2 (transformNext x name).2 e ∧ (transformNext x name).1.staffed = x.1.staffed := by
  obtain ⟨p, run⟩ := x
  obtain ⟨stage, hget, rfl⟩ := Option.map_eq_some_iff.mp hstaffed
  rw [transformNext, hget]
  dsimp only
  cases hon : stage.isEnabled with
  | false => exact ⟨.off _, rfl⟩
  | true =>
    have hyields : stage.pass.transform.Yields { run with counters := stage.counters, log := #[] } fun outcome r =>
        stage.pass.transform { run with counters := stage.counters, log := #[] } = .ok outcome r := by
      obtain ⟨outcome, r, hrun, -⟩ := hpass.transform (s := { run with counters := stage.counters, log := #[] }) hs
      exact ⟨outcome, r, hrun, hrun⟩
    obtain ⟨outcome, r, hrun, hact⟩ := act_yields
      (({ p with timers := p.timers.add (name ++ ".time_ms") } : Pipeline).asked .transform name) name hyields
    rw [if_pos rfl, transformStage, hact]
    exact ⟨.on hrun, staffed_recounted hget rfl⟩

end Names

lemma staffed_analyze (names : List Text) (x : Pipeline × Run) :
    (names.foldl analyzeNext x).1.staffed = x.1.staffed := by
  induction names generalizing x with
  | nil => rfl
  | cons name rest ih => exact (ih (analyzeNext x name)).trans (staffed_analyzeNext x name)

lemma transform_takesTurns {es : List (Pass × Bool)} {x : Pipeline × Run} {root : NodeId}
    (hstaffed : ∀ e ∈ es, x.1.staffed e.1.name = some e) (hes : ∀ e ∈ es, e.1.IsFaithful)
    (hs : x.2.arena.Standing root) : TakeTurns es x.2 ((es.map (·.1.name)).foldl transformNext x).2 := by
  induction es generalizing x with
  | nil => exact .nil x.2
  | cons e es ih =>
    have hpass := hes e List.mem_cons_self
    obtain ⟨hturn, hkept⟩ := transformNext_turn (hstaffed e List.mem_cons_self) hpass hs
    apply TakeTurns.cons hturn
    apply ih
    · intro e' he'
      rw [hkept]
      exact hstaffed e' (List.mem_cons_of_mem _ he')
    · exact fun e' he' => hes e' (List.mem_cons_of_mem _ he')
    · exact hturn.standing hpass hs

lemma isFaithful_of_mem_crew {options : PassOptions} {e : Pass × Bool} (h : e ∈ crew options) : e.1.IsFaithful :=
  Pass.isFaithful_of_mem_all (mem_all_of_crew h)

/-- A fresh pipeline looks at the tree first, and then its passes have their turns. -/
lemma IsFresh.run_takesTurns {p : Pipeline} (hfresh : p.IsFresh) {es : List (Pass × Bool)} (hne : es ≠ [])
    (horder : p.order = es.map (·.1.name)) (hstaffed : ∀ e ∈ es, p.staffed e.1.name = some e)
    (hes : ∀ e ∈ es, e.1.IsFaithful) {r : Run} {root : NodeId} (hs : r.arena.Standing root) :
    ∃ looked : Run, looked.arena = r.arena ∧ looked.records = r.records ∧ TakeTurns es looked (p.run r).2 := by
  have hstart : IsFresh { p with results := {} } := hfresh.of_stages rfl
  have hidles := analyze_idles (x := ({ p with results := {} }, r)) hstart.sound hs p.order
  refine ⟨_, hidles.arena_eq, hidles.records_eq, ?_⟩
  have hturns := transform_takesTurns (x := p.order.foldl analyzeNext ({ p with results := {} }, r)) (fun e he => by
    rw [staffed_analyze]
    exact hstaffed e he) hes (hidles.arena_eq ▸ hs)
  rw [run_eq (by simpa [horder] using hne), afterTurns]
  rwa [← horder] at hturns

/-- A run of all passes. -/
theorem run_takesTurns (options : PassOptions) {r : Run} {root : NodeId} (hs : r.arena.Standing root) :
    ∃ looked : Run, looked.arena = r.arena ∧ looked.records = r.records ∧
      TakeTurns (crew options) looked ((pipeline options).run r).2 :=
  (isFresh_pipeline options).run_takesTurns (List.cons_ne_nil _ _) (order_eq_crew options)
    (fun _ he => staffed_pipeline he) (fun _ => isFaithful_of_mem_crew) hs

end Pipeline

end PlainScript
