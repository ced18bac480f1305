import PlainScript.Proofs.Counters
import PlainScript.Proofs.Recovery

/-! What a run reports. The records, the counters and the confidence tell of the same changes, and what is not
reported has not happened. -/
namespace PlainScript

open Arena

/-! ### Confidence -/

lemma totalWeight_eq_zero_iff {records : List Record} (h : ∀ r ∈ records, 1 ≤ r.count) :
    totalWeight records = 0 ↔ records = [] := by
  cases records with
  | nil => simp [totalWeight]
  | cons r rest =>
    have hcount := h r List.mem_cons_self
    have hweight : r.weight ≠ 0 := fun hzero => by
      have := r.weight_eq_zero_iff.mp hzero
      omega
    simp [totalWeight, hweight]

/-- Only where nothing is reported there is no confidence. -/
theorem confidence_eq_zero_iff {records : List Record} (h : ∀ r ∈ records, 1 ≤ r.count) :
    confidence records = 0.0 ↔ records = [] := by
  have hfloat : ∀ n : Fin 6, Float.ofNat n / Float.ofNat fullWeight = 0.0 ↔ n = 0 := by decide +kernel
  have hlt : min (totalWeight records) fullWeight < 6 := Nat.lt_succ_of_le (Nat.min_le_right _ _)
  rw [confidence, hfloat ⟨_, hlt⟩, ← totalWeight_eq_zero_iff h, Fin.ext_iff]
  simp [fullWeight]

/-! ### Turns -/

/-- Where the passes begin with a script. -/
def Script.start (script : Script) (config : Config) : Run where
  arena := .ofTree script.tree
  printing := config.printing
  placeholder := config.placeholder

namespace Pipeline

/-- How the passes stand after they have looked at the tree and those with the names have had their turns. -/
def afterTurns (p : Pipeline) (run : Run) (names : List Text) : Pipeline × Run :=
  names.foldl transformNext (p.order.foldl analyzeNext ({ p with results := {} }, run))

lemma run_eq {p : Pipeline} (horder : p.order ≠ []) (run : Run) : p.run run = p.afterTurns run p.order := by
  have hordered : p.ordered = p := by
    rw [ordered, if_pos]
    cases horder? : p.order? with
    | some names => rfl
    | none => simp [order, horder?] at horder
  rw [Pipeline.run, hordered]
  rfl

/-- The turn of a pass leaves the tree and the records alone, or it adds a record of the pass. -/
def IsRecorded (name : Text) (x y : Pipeline × Run) : Prop :=
  y.2.arena = x.2.arena ∧ y.2.records = x.2.records ∨
    ∃ r : Record, r.pass = name ∧ 1 ≤ r.count ∧ y.2.records = x.2.records ++ [r]

/-- The turns of a fresh pipeline. -/
theorem IsFresh.afterTurns_ran {p : Pipeline} (hfresh : p.IsFresh) (run : Run) {root : NodeId}
    (hstanding : run.arena.Standing root) (hrecords : run.records = []) {names : List Text} (hnodup : names.Nodup) :
    Ran root names ({ p with results := {} }, run) (p.afterTurns run names) := by
  have hstart : IsFresh { p with results := {} } := hfresh.of_stages rfl
  have hidles := analyze_idles (x := ({ p with results := {} }, run)) hstart.sound hstanding p.order
  have hnone : (p.order.foldl analyzeNext ({ p with results := {} }, run)).2.records = [] :=
    hidles.records_eq.trans hrecords
  have hbegin : Ran root [] ({ p with results := {} }, run)
      (p.order.foldl analyzeNext ({ p with results := {} }, run)) := {
    sound := hidles.sound
    standing := hidles.arena_eq ▸ hstanding
    steps := ⟨0, hidles.arena_eq ▸ .zero _⟩
    arena_eq := fun _ => hidles.arena_eq
    applied_eq := fun name => by rw [hidles.applied_eq, hnone]; exact hstart.applied_eq name
    totalApplied_eq := by rw [hidles.totalApplied_eq, hnone]; exact hstart.totalApplied_eq
    passes := by simp [hnone]
    positive := by simp [hnone]
    printing_eq := hidles.printing_eq }
  exact transform_ran hbegin hnodup

lemma afterTurns_append (p : Pipeline) (run : Run) (before : List Text) (name : Text) :
    p.afterTurns run (before ++ [name]) = transformNext (p.afterTurns run before) name := by
  simp [afterTurns]

/-- A turn is recorded. -/
lemma IsFresh.turn_isRecorded {p : Pipeline} (hfresh : p.IsFresh) (run : Run) {root : NodeId}
    (hstanding : run.arena.Standing root) (hrecords : run.records = []) {before : List Text} {name : Text}
    (hnodup : (before ++ [name]).Nodup) :
    IsRecorded name (p.afterTurns run before) (p.afterTurns run (before ++ [name])) := by
  have hran := hfresh.afterTurns_ran run hstanding hrecords (hnodup.sublist (List.sublist_append_left before [name]))
  have hname : name ∉ before := fun hmem => (List.nodup_append.mp hnodup).2.2 name hmem name (by simp) rfl
  rw [afterTurns_append]
  obtain hidles | ⟨n, hchanges⟩ := transformNext_turns hran.sound hran.standing (hran.fresh hname)
  · exact .inl ⟨hidles.arena_eq, hidles.records_eq⟩
  · obtain ⟨r, hpass, hcount, heq⟩ := hchanges.records_eq
    have hpositive := hchanges.positive
    exact .inr ⟨r, hpass, by omega, heq⟩

end Pipeline

/-! ### The report -/

namespace Deobfuscation

variable {d : Deobfuscation} {printed : Except PrintError Text}

lemma finish_records (d : Deobfuscation) (printed : Except PrintError Text) : (d.finish printed).records = d.records := by
  cases printed <;> rfl

lemma finish_ints (d : Deobfuscation) (printed : Except PrintError Text) :
    (d.finish printed).statistics.ints = d.statistics.ints := by
  cases printed <;> rfl

lemma reportRecovered_statistics (d : Deobfuscation) (diagnostics : List ParseError) :
    (d.reportRecovered diagnostics).statistics =
      d.statistics.setInt "parser.recovered_errors" diagnostics.length :=
  congrArg (Statistics.setInt · "parser.recovered_errors" diagnostics.length)
    (List.foldlRecOn (motive := fun d' : Deobfuscation => d'.statistics = d.statistics) diagnostics _ rfl
      fun _ h _ _ => h)

end Deobfuscation

open Pipeline

section Report

variable {source : Text} {options : PassOptions} {config : Config} {script : Script}

/-- What a script that was read is reported with. -/
lemma deobfuscate_eq (h : parse source config.parsing = .ok script) {p : Pipeline} {run : Run}
    (hrun : (pipeline options).run (script.start config) = (p, run)) :
    deobfuscate source options config =
      ((({ code := source } : Deobfuscation).reportRecovered script.diagnostics).takeOver p run).finish
        (run.arena.print run.arena.root config.printing) := by
  have hstart : (pipeline options).run ⟨.ofTree script.tree, config.printing, config.placeholder, {}, [], [], {}, #[]⟩ =
      (p, run) := hrun
  simp only [deobfuscate, h, hstart]

/-- The statistics carry the counters of the passes. -/
lemma deobfuscate_statistics (h : parse source config.parsing = .ok script) {p : Pipeline} {run : Run}
    (hrun : (pipeline options).run (script.start config) = (p, run)) (hsound : p.IsSound) :
    (∀ name, (deobfuscate source options config).statistics.ints.get? (name ++ ".applied") = p.applied name) ∧
      (deobfuscate source options config).statistics.totalApplied = p.totalApplied := by
  have hints : (deobfuscate source options config).statistics.ints =
      ((({} : Statistics).setInt "parser.recovered_errors" script.diagnostics.length).merge p.statistics []).ints := by
    rw [deobfuscate_eq h hrun, Deobfuscation.finish_ints, Deobfuscation.takeOver,
      Deobfuscation.reportRecovered_statistics]
  have hchanges : Statistics.totalApplied
      (({} : Statistics).setInt "parser.recovered_errors" script.diagnostics.length) = 0 := rfl
  constructor
  · intro name
    have hother : ("parser.recovered_errors" : Text) ≠ name ++ ".applied" := fun heq => by
      have hlast : (name ++ ".applied").endsWith ".applied" = true :=
        List.isSuffixOf_iff_suffix.mpr (List.suffix_append ..)
      rw [← heq] at hlast
      exact absurd hlast (by decide)
    rw [hints, Statistics.get?_merge p.statistics_sorted, Pipeline.IsSound.get?_statistics hsound,
      Statistics.setInt, Table.get?_insert, if_neg hother, Table.get?_empty]
    cases p.applied name <;> rfl
  · rw [Statistics.totalApplied_eq_sum, hints, ← Statistics.totalApplied_eq_sum,
      Statistics.totalApplied_merge (Table.sorted_empty.insert ..), hchanges, Int.zero_add,
      Pipeline.IsSound.totalApplied_statistics hsound]

/-- A success is that of printing. -/
lemma deobfuscate_success (h : parse source config.parsing = .ok script) {p : Pipeline} {run : Run}
    (hrun : (pipeline options).run (script.start config) = (p, run))
    (hsuccess : (deobfuscate source options config).success = true) :
    run.arena.print run.arena.root config.printing = .ok (deobfuscate source options config).code ∧
      (deobfuscate source options config).confidence = confidence run.records := by
  have hstart (d : Deobfuscation) (diagnostics : List ParseError) :
      (d.reportRecovered diagnostics).success = d.success :=
    List.foldlRecOn (motive := fun d' : Deobfuscation => d'.success = d.success) diagnostics _ rfl fun _ h _ _ => h
  rw [deobfuscate_eq h hrun] at hsuccess ⊢
  cases hprinted : run.arena.print run.arena.root config.printing with
  | ok code => exact ⟨rfl, rfl⟩
  | error e =>
    rw [hprinted] at hsuccess
    cases (hstart { code := source } script.diagnostics).symm.trans hsuccess

/-- What is reported of the turns of the passes is what has happened in them. -/
structure Deobfuscation.Reports (d : Deobfuscation) (p : Pipeline) (start : Run) : Prop where
  look : (p.afterTurns start []).2.arena = start.arena ∧ (p.afterTurns start []).2.records = []
  turn : ∀ before name after, p.order = before ++ name :: after →
    Pipeline.IsRecorded name (p.afterTurns start before) (p.afterTurns start (before ++ [name]))
  records_eq : d.records = (p.afterTurns start p.order).2.records
  passes : (d.records.map (·.pass)).Sublist p.order
  nodup : (d.records.map (·.pass)).Nodup
  positive : ∀ r ∈ d.records, 1 ≤ r.count
  applied_eq : ∀ name,
    d.statistics.ints.get? (name ++ ".applied") = (d.records.find? (·.pass = name)).map (·.count)
  totalApplied_eq : d.statistics.totalApplied = (d.records.map (·.count)).sum
  code_eq : d.success = true → d.records = [] → start.arena.print start.arena.root start.printing = .ok d.code
  confidence_eq : d.success = true → (d.confidence = 0.0 ↔ d.records = [])

theorem deobfuscate_reports (h : parse source config.parsing = .ok script) :
    (deobfuscate source options config).Reports (pipeline options) (script.start config) := by
  obtain ⟨root, hstanding⟩ := ofTree_standing (parse_is_program h)
  have hfresh := isFresh_pipeline options
  have horder : (pipeline options).order.Nodup := by rw [order_eq]; decide
  have hrun := run_eq (p := pipeline options) (by rw [order_eq]; exact List.cons_ne_nil _ _) (script.start config)
  have hran := hfresh.afterTurns_ran (script.start config) hstanding rfl horder
  have hlook := hfresh.afterTurns_ran (script.start config) hstanding rfl List.nodup_nil
  have hnone : ((pipeline options).afterTurns (script.start config) []).2.records = [] := by
    simpa using List.sublist_nil.mp hlook.passes
  -- From here on the end of the run stands for itself, so that nothing evaluates it.
  generalize hend : (pipeline options).afterTurns (script.start config) (pipeline options).order = last at hrun hran
  obtain ⟨q, run⟩ := last
  obtain ⟨happlied, htotal⟩ := deobfuscate_statistics h hrun hran.sound
  have hrecords : (deobfuscate source options config).records = run.records := by
    rw [deobfuscate_eq h hrun, Deobfuscation.finish_records]
    rfl
  exact {
    look := ⟨hlook.arena_eq hnone, hnone⟩
    turn := fun before name after hnames => by
      refine hfresh.turn_isRecorded (script.start config) hstanding rfl (List.Nodup.sublist ?_ horder)
      rw [hnames]
      simp
    records_eq := by rw [hrecords, hend]
    passes := hrecords ▸ hran.passes
    nodup := hrecords ▸ horder.sublist hran.passes
    positive := hrecords ▸ hran.positive
    applied_eq := fun name => by rw [happlied, hran.applied_eq, hrecords]
    totalApplied_eq := by rw [htotal, hran.totalApplied_eq, hrecords]
    code_eq := fun hsuccess hempty => by
      have harena : run.arena = (script.start config).arena := hran.arena_eq (hrecords ▸ hempty)
      rw [← harena]
      exact (deobfuscate_success h hrun hsuccess).1
    confidence_eq := fun hsuccess => by
      rw [(deobfuscate_success h hrun hsuccess).2, hrecords]
      exact confidence_eq_zero_iff hran.positive }

theorem deobfuscate_reports_debugger : ∃ script, parse "debugger; f();" ({} : Config).parsing = .ok script ∧
    (deobfuscate "debugger; f();" {} {}).Reports (pipeline {}) (script.start {}) := by
  have hparse : (parse "debugger; f();" ({} : Config).parsing).isOk = true := by decide +kernel
  cases h : parse "debugger; f();" ({} : Config).parsing with
  | error e => cases (congrArg Except.isOk h).symm.trans hparse
  | ok script => exact ⟨script, rfl, deobfuscate_reports h⟩

end Report

end PlainScript
