import PlainScript.Deobfuscate
import PlainScript.Proofs.Rewrites

/-! Runs of the pipeline. Looking at the tree leaves it alone, and then the passes take their turns: each leaves a
record with the number of its changes, which it also counts under `applied`, or leaves everything alone. -/
namespace PlainScript

open Arena PlainScript.Action Relation

theorem Pass.isFaithful_of_mem_all {pass : Pass} (h : pass ∈ Pass.all) : pass.IsFaithful := by
  simp only [Pass.all, List.mem_cons, List.not_mem_nil, or_false] at h
  obtain rfl | rfl | rfl | rfl | rfl | rfl := h
  · exact isFaithful_debuggers
  · exact isFaithful_decoders
  · exact isFaithful_escapes
  · exact isFaithful_dispatchLoops
  · exact isFaithful_constantBranches
  · exact isFaithful_arithmetic

/-- A stage that stands under the name of its pass, which does what it writes down. -/
structure Stage.IsSound (name : Text) (stage : Stage) : Prop where
  name_eq : stage.pass.name = name
  isFaithful : stage.pass.IsFaithful
  plain : stage.counters.IsPlain

/-- The changes that a stage has counted. -/
def Stage.applied (stage : Stage) : Option Int := stage.counters.get? "applied"

/-- All stages are sound. -/
structure Table.StagesSound (stages : Table Stage) : Prop where
  sorted : stages.Sorted
  stage : ∀ name stage, stages.get? name = some stage → stage.IsSound name

lemma Table.StagesSound.insert {stages : Table Stage} (h : stages.StagesSound) {name : Text} {stage : Stage}
    (hstage : stage.IsSound name) : (stages.insert name stage).StagesSound where
  sorted := h.sorted.insert name stage
  stage name' stage' hget := by
    rw [get?_insert] at hget
    split_ifs at hget with heq
    · exact heq ▸ Option.some.inj hget ▸ hstage
    · exact h.stage name' stage' hget

namespace Pipeline

/-- The changes that a pass has counted. -/
def applied (p : Pipeline) (name : Text) : Option Int := (p.stages.get? name).bind Stage.applied

/-- The sum of the changes that the passes have counted. -/
def totalApplied (p : Pipeline) : Int := p.stages.sum fun _ stage => stage.applied.getD 0

abbrev IsSound (p : Pipeline) : Prop := p.stages.StagesSound

section Act

variable {α : Type} {stage : Stage} {work : Action α} {run : Run}

/-- What the pipeline keeps of the work of a pass. -/
lemma act_yields (p : Pipeline) (name : Text) {Q : α → Run → Prop}
    (h : work.Yields { run with counters := stage.counters, log := #[] } Q) :
    ∃ a r, Q a r ∧ p.act name stage work run =
      (.ok a, { p with
        stages := p.stages.insert name { stage with counters := r.counters }
        log := p.log ++ r.log }, { r with counters := {}, log := #[] }) := by
  obtain ⟨a, r, hrun, hQ⟩ := h
  exact ⟨a, r, hQ, by simp [act, hrun]⟩

end Act

section Insert

variable {p p' : Pipeline} {name : Text} {stage stage' : Stage}

lemma applied_insert (h : p'.stages = p.stages.insert name stage) :
    p'.applied = Function.update p.applied name stage.applied := by
  funext name'
  simp only [applied, h, Table.get?_insert, Function.update_apply]
  by_cases heq : name = name' <;> simp [heq, eq_comm]

lemma totalApplied_insert (hsound : p.IsSound) (hget : p.stages.get? name = some stage)
    (h : p'.stages = p.stages.insert name stage') :
    p'.totalApplied = p.totalApplied - stage.applied.getD 0 + stage'.applied.getD 0 := by
  rw [totalApplied, h, hsound.sorted.sum_insert, hget]
  rfl

end Insert

/-- Nothing that counts has changed. -/
structure Idles (x y : Pipeline × Run) : Prop where
  sound : y.1.IsSound
  applied_eq : y.1.applied = x.1.applied
  totalApplied_eq : y.1.totalApplied = x.1.totalApplied
  order?_eq : y.1.order? = x.1.order?
  arena_eq : y.2.arena = x.2.arena
  records_eq : y.2.records = x.2.records
  printing_eq : y.2.printing = x.2.printing

/-- The pass has changed the tree and left a record. -/
structure Changes (root : NodeId) (name : Text) (n : Nat) (x y : Pipeline × Run) : Prop where
  sound : y.1.IsSound
  applied_eq : y.1.applied = Function.update x.1.applied name (some (n : Int))
  totalApplied_eq : y.1.totalApplied = x.1.totalApplied + n
  order?_eq : y.1.order? = x.1.order?
  steps : InSteps (Rewrites root) n x.2.arena y.2.arena
  positive : 0 < n
  records_eq : ∃ r : Record, r.pass = name ∧ r.count = n ∧ y.2.records = x.2.records ++ [r]
  printing_eq : y.2.printing = x.2.printing

lemma Idles.refl {x : Pipeline × Run} (h : x.1.IsSound) : Idles x x := ⟨h, rfl, rfl, rfl, rfl, rfl, rfl⟩

lemma Idles.trans {x y z : Pipeline × Run} (h : Idles x y) (h' : Idles y z) : Idles x z where
  sound := h'.sound
  applied_eq := h'.applied_eq.trans h.applied_eq
  totalApplied_eq := h'.totalApplied_eq.trans h.totalApplied_eq
  order?_eq := h'.order?_eq.trans h.order?_eq
  arena_eq := h'.arena_eq.trans h.arena_eq
  records_eq := h'.records_eq.trans h.records_eq
  printing_eq := h'.printing_eq.trans h.printing_eq

variable {x y : Pipeline × Run} {root : NodeId}

section Turn

variable {p p' : Pipeline} {run r : Run} {name : Text} {stage : Stage} {n : Nat} (hsound : p.IsSound)
  (hget : p.stages.get? name = some stage)
  (hstages : p'.stages = p.stages.insert name { stage with counters := r.counters })
  (hledger : Ledger name { run with counters := stage.counters, log := #[] } n r)
include hsound hget hstages hledger

lemma stagesSound_of_ledger : p'.IsSound := by
  have hstage := hsound.stage name stage hget
  rw [IsSound, hstages]
  exact hsound.insert ⟨hstage.name_eq, hstage.isFaithful, hledger.plain hstage.plain⟩

variable (horder : p'.order? = p.order?) (hsteps : InSteps (Rewrites root) n run.arena r.arena)
include horder hsteps

/-- A pass that has taken no steps leaves what counts alone. -/
lemma idles_of_ledger (hn : n = 0) : Idles (p, run) (p', { r with counters := {}, log := #[] }) := by
  subst hn
  obtain ⟨-, hrecords, happlied⟩ | ⟨hpos, -⟩ := hledger.entry
  · refine ⟨stagesSound_of_ledger hsound hget hstages hledger, ?_, ?_, horder, hsteps.eq_of_zero,
      hrecords, hledger.printing_eq⟩
    · rw [applied_insert hstages, Function.update_eq_self_iff]
      exact happlied.trans (by simp [applied, hget, Stage.applied])
    · rw [totalApplied_insert hsound hget hstages]
      simp [Stage.applied, happlied]
  · exact absurd hpos (Nat.lt_irrefl 0)

lemma changes_of_ledger (hn : 0 < n) (hfresh : p.applied name = none) :
    Changes root name n (p, run) (p', { r with counters := {}, log := #[] }) := by
  obtain ⟨hzero, -⟩ | ⟨-, hrecord, happlied⟩ := hledger.entry
  · exact absurd hn (hzero ▸ Nat.lt_irrefl 0)
  · have hnone : stage.counters.get? "applied" = none := by simpa [applied, hget, Stage.applied] using hfresh
    have hn' : r.counters.get? "applied" = some (n : Int) := by simpa [hnone] using happlied
    refine ⟨stagesSound_of_ledger hsound hget hstages hledger, ?_, ?_, horder, hsteps, hn, hrecord,
      hledger.printing_eq⟩
    · rw [applied_insert hstages]
      simp [Stage.applied, hn']
    · rw [totalApplied_insert hsound hget hstages]
      simp [Stage.applied, hn', hnone]

end Turn

lemma analyzeNext_idles (hsound : x.1.IsSound) (hstanding : x.2.arena.Standing root) (name : Text) :
    Idles x (analyzeNext x name) := by
  obtain ⟨p, run⟩ := x
  rw [analyzeNext]
  cases hget : p.stages.get? name with
  | none => exact .refl hsound
  | some stage =>
    dsimp only
    split
    · obtain ⟨a, r, ⟨-, harena, hquiet⟩, hact⟩ := act_yields (p.asked .analyze name) name
        ((hsound.stage name stage hget).isFaithful.analyze
          (s := { run with counters := stage.counters, log := #[] }) hstanding)
      rw [analyzeStage, hact]
      have hsteps : InSteps (Rewrites root) 0 run.arena r.arena := harena ▸ .zero _
      exact idles_of_ledger hsound hget rfl (hquiet.ledger_zero name) rfl hsteps rfl
    · exact .refl hsound

lemma transformNext_turns (hsound : x.1.IsSound) (hstanding : x.2.arena.Standing root) {name : Text}
    (hfresh : x.1.applied name = none) :
    Idles x (transformNext x name) ∨ ∃ n, Changes root name n x (transformNext x name) := by
  obtain ⟨p, run⟩ := x
  rw [transformNext]
  cases hget : p.stages.get? name with
  | none => exact .inl (.refl hsound)
  | some stage =>
    dsimp only
    split
    · obtain ⟨a, r, ⟨n, hsteps, hledger⟩, hact⟩ := act_yields
        (({ p with timers := p.timers.add (name ++ ".time_ms") } : Pipeline).asked .transform name) name
        ((hsound.stage name stage hget).isFaithful.transform
          (s := { run with counters := stage.counters, log := #[] }) hstanding)
      rw [(hsound.stage name stage hget).name_eq] at hledger
      rw [transformStage, hact]
      obtain rfl | hn := Nat.eq_zero_or_pos n
      · exact .inl (idles_of_ledger hsound hget rfl hledger rfl hsteps rfl)
      · exact .inr ⟨n, changes_of_ledger hsound hget rfl hledger rfl hsteps hn hfresh⟩
    · exact .inl ⟨hsound, rfl, rfl, rfl, rfl, rfl, rfl⟩

lemma analyze_idles (hsound : x.1.IsSound) (hstanding : x.2.arena.Standing root) (names : List Text) :
    Idles x (names.foldl analyzeNext x) := by
  induction names generalizing x with
  | nil => exact .refl hsound
  | cons name rest ih =>
    have hnext := analyzeNext_idles hsound hstanding name
    exact hnext.trans (ih hnext.sound (hnext.arena_eq ▸ hstanding))

/-- The passes with the names have had their turns, in that order. -/
structure Ran (root : NodeId) (names : List Text) (x y : Pipeline × Run) : Prop where
  sound : y.1.IsSound
  standing : y.2.arena.Standing root
  steps : ∃ n, InSteps (Rewrites root) n x.2.arena y.2.arena
  arena_eq : y.2.records = [] → y.2.arena = x.2.arena
  applied_eq : ∀ name, y.1.applied name = (y.2.records.find? (·.pass = name)).map (·.count)
  totalApplied_eq : y.1.totalApplied = (y.2.records.map (·.count)).sum
  passes : (y.2.records.map (·.pass)).Sublist names
  positive : ∀ r ∈ y.2.records, 1 ≤ r.count
  printing_eq : y.2.printing = x.2.printing

lemma Ran.fresh {names : List Text} (h : Ran root names x y) {name : Text} (hname : name ∉ names) :
    y.1.applied name = none := by
  rw [h.applied_eq, Option.map_eq_none_iff, List.find?_eq_none]
  intro r hr heq
  exact hname (h.passes.subset (List.mem_map.mpr ⟨r, hr, by simpa using heq⟩))

lemma Ran.next {names : List Text} (h : Ran root names x y) {name : Text} (hname : name ∉ names) :
    Ran root (names ++ [name]) x (transformNext y name) := by
  obtain hidles | ⟨n, hchanges⟩ := transformNext_turns h.sound h.standing (h.fresh hname)
  · obtain ⟨m, hsteps⟩ := h.steps
    exact {
      sound := hidles.sound
      standing := hidles.arena_eq ▸ h.standing
      steps := ⟨m, hidles.arena_eq ▸ hsteps⟩
      arena_eq hnone := hidles.arena_eq.trans (h.arena_eq (hidles.records_eq ▸ hnone))
      applied_eq name' := by rw [hidles.applied_eq, hidles.records_eq, h.applied_eq]
      totalApplied_eq := by rw [hidles.totalApplied_eq, hidles.records_eq, h.totalApplied_eq]
      passes := by
        rw [hidles.records_eq]
        exact h.passes.trans (List.sublist_append_left ..)
      positive := hidles.records_eq ▸ h.positive
      printing_eq := hidles.printing_eq.trans h.printing_eq }
  · obtain ⟨m, hsteps⟩ := h.steps
    obtain ⟨r, rfl, hcount, hrecords⟩ := hchanges.records_eq
    have hold : y.2.records.find? (·.pass = r.pass) = none := by
      rw [List.find?_eq_none]
      intro r' hr' heq
      exact hname (h.passes.subset (List.mem_map.mpr ⟨r', hr', by simpa using heq⟩))
    exact {
      sound := hchanges.sound
      standing := hchanges.steps.keeps (P := (Standing · root)) (fun _ _ h hstep => hstep.standing h) h.standing
      steps := ⟨m + n, hsteps.trans hchanges.steps⟩
      arena_eq hnone := by simp [hrecords] at hnone
      applied_eq name' := by
        rw [hchanges.applied_eq, hrecords, List.find?_append]
        by_cases heq : name' = r.pass
        · subst heq
          simp [hold, hcount]
        · simp [heq, h.applied_eq, Ne.symm heq]
      totalApplied_eq := by simp [hchanges.totalApplied_eq, hrecords, h.totalApplied_eq, hcount]
      passes := by
        rw [hrecords, List.map_append]
        exact h.passes.append (List.Sublist.refl _)
      positive r' hr' := by
        rw [hrecords, List.mem_append, List.mem_singleton] at hr'
        obtain hr' | rfl := hr'
        · exact h.positive r' hr'
        · have := hchanges.positive
          omega
      printing_eq := hchanges.printing_eq.trans h.printing_eq }

lemma transform_ran {before names : List Text} (h : Ran root before x y) (hnodup : (before ++ names).Nodup) :
    Ran root (before ++ names) x (names.foldl transformNext y) := by
  induction names generalizing before y with
  | nil => simpa using h
  | cons name rest ih =>
    have hname : name ∉ before := fun hm => by
      simp [List.nodup_append] at hnodup
      exact hnodup.2.2 name hm |>.1 rfl
    have hnext := ih (h.next hname) (by simpa using hnodup)
    simpa using hnext

/-! ### The pipeline of all passes -/

/-- Nothing has been counted. -/
structure IsFresh (p : Pipeline) : Prop where
  sound : p.IsSound
  counters_eq : ∀ name stage, p.stages.get? name = some stage → stage.counters = {}

lemma IsFresh.of_stages {p p' : Pipeline} (h : p.IsFresh) (hstages : p'.stages = p.stages) : p'.IsFresh :=
  ⟨by rw [IsSound, hstages]; exact h.sound, by rw [hstages]; exact h.counters_eq⟩

lemma IsFresh.insert {p p' : Pipeline} (h : p.IsFresh) (name : Text) (stage : Stage) (hstage : stage.IsSound name)
    (hcounters : stage.counters = {}) (hstages : p'.stages = p.stages.insert name stage) : p'.IsFresh := by
  refine ⟨by rw [IsSound, hstages]; exact h.sound.insert hstage, fun name' stage' hget => ?_⟩
  rw [hstages, Table.get?_insert] at hget
  split_ifs at hget
  · exact Option.some.inj hget ▸ hcounters
  · exact h.counters_eq name' stage' hget

lemma IsFresh.applied_eq {p : Pipeline} (h : p.IsFresh) (name : Text) : p.applied name = none := by
  cases hget : p.stages.get? name with
  | none => simp [applied, hget]
  | some stage => simp [applied, hget, Stage.applied, h.counters_eq name stage hget]

lemma IsFresh.totalApplied_eq {p : Pipeline} (h : p.IsFresh) : p.totalApplied = 0 := by
  have hzero : ∀ e ∈ p.stages.entries, e.2.applied.getD 0 = 0 := by
    rintro ⟨name, stage⟩ hmem
    simp [Stage.applied, h.counters_eq name stage (h.sound.sorted.get?_of_mem hmem)]
  rw [totalApplied, Table.sum, List.map_congr_left (g := fun _ => 0) hzero]
  simp

lemma isFresh_empty : ({} : Pipeline).IsFresh := ⟨⟨Table.sorted_empty, nofun⟩, nofun⟩

lemma IsFresh.foldl {α : Type} {f : Pipeline → α → Pipeline} {as : List α} {p : Pipeline} (h : p.IsFresh)
    (hf : ∀ q : Pipeline, q.IsFresh → ∀ a ∈ as, (f q a).IsFresh) : (as.foldl f p).IsFresh :=
  List.foldlRecOn as f h hf

lemma register_stages (p : Pipeline) (pass : Pass) :
    (p.register pass).stages = p.stages.insert pass.name { pass } := by
  unfold Pipeline.register
  simp only [say]
  split <;> rfl

lemma IsFresh.register {p : Pipeline} (h : p.IsFresh) {pass : Pass} (hpass : pass.IsFaithful) :
    (p.register pass).IsFresh :=
  h.insert pass.name { pass } ⟨rfl, hpass, Table.sorted_empty, nofun⟩ rfl (register_stages p pass)

lemma IsFresh.enable {p : Pipeline} (h : p.IsFresh) (name : Text) (on : Bool) : (p.enable name on).IsFresh := by
  unfold Pipeline.enable
  split
  · exact h
  next stage hget =>
    have hstage := h.sound.stage name stage hget
    exact h.insert name { stage with isEnabled := on }
      ⟨hstage.name_eq, hstage.isFaithful, hstage.plain⟩ (h.counters_eq name stage hget) rfl

/-- What each step of a fold keeps, the whole fold keeps. -/
lemma foldl_keeps {α β : Type} (g : Pipeline → β) {f : Pipeline → α → Pipeline} (hf : ∀ p a, g (f p a) = g p)
    (as : List α) (p : Pipeline) : g (as.foldl f p) = g p := by
  induction as generalizing p with
  | nil => rfl
  | cons a rest ih => exact (ih (f p a)).trans (hf p a)

/-- Ordering the passes changes the order only, and says so. -/
lemma computeOrder_keeps {β : Type} (g : Pipeline → β)
    (hg : ∀ p order log, g { p with order? := order, log := log } = g p) (p : Pipeline) : g p.computeOrder = g p := by
  have hsay (p : Pipeline) (level : Log.Level) (message : Text) : g (p.say level message) = g p := hg p p.order? _
  have horder (p : Pipeline) (order : Option (List Text)) : g { p with order? := order } = g p := hg p order p.log
  refine (foldl_keeps g (fun p _ => hsay p _ _) _ _).trans ((hsay _ _ _).trans ((horder _ _).trans ?_))
  split
  · exact (hsay _ _ _).trans (foldl_keeps g (fun p _ => hsay p _ _) _ _)
  · exact foldl_keeps g (fun p _ => hsay p _ _) _ _

lemma computeOrder_stages (p : Pipeline) : p.computeOrder.stages = p.stages :=
  computeOrder_keeps (·.stages) (fun _ _ _ => rfl) p

lemma readyStage_stages (on : Bool) (p : Pipeline) (name : Text) (stage : Stage) : (p.readyStage on name stage).stages =
    p.stages.insert name { stage with isEnabled := on && stage.isEnabled } := by
  unfold readyStage
  dsimp only [asked, say]
  split <;> rfl

lemma IsFresh.readyStage {p : Pipeline} (h : p.IsFresh) (on : Bool) {name : Text} {stage : Stage}
    (hstage : stage.IsSound name) (hcounters : stage.counters = {}) : (p.readyStage on name stage).IsFresh :=
  h.insert name { stage with isEnabled := on && stage.isEnabled }
    ⟨hstage.name_eq, hstage.isFaithful, hstage.plain⟩ hcounters (readyStage_stages on p name stage)

lemma IsFresh.makeReady {p : Pipeline} (h : p.IsFresh) (on : Bool) : (p.makeReady on).2.IsFresh := by
  refine IsFresh.of_stages (h.foldl fun q hq e he => ?_) (computeOrder_stages _)
  have hget := h.sound.sorted.get?_of_mem he
  exact hq.readyStage on (h.sound.stage _ _ hget) (h.counters_eq _ _ hget)

/-- The passes in the order of their turns. -/
theorem order_eq (options : PassOptions) : (pipeline options).order =
    (["self-defense-removal", "string-decryption", "string-unescape", "control-flow-restoration",
      "dead-code-elimination", "expression-simplification"] : List Text) := by
  obtain ⟨a, b, c, d, e⟩ := options
  cases a <;> cases b <;> cases c <;> cases d <;> cases e <;> decide +kernel

theorem isFresh_pipeline (options : PassOptions) : (pipeline options).IsFresh := by
  refine IsFresh.makeReady (IsFresh.foldl ?_ fun p hp e _ => hp.enable e.1 e.2) true
  exact isFresh_empty.foldl fun p hp pass hpass => hp.register (Pass.isFaithful_of_mem_all hpass)

end Pipeline

end PlainScript
