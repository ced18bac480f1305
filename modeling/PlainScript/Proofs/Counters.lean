import PlainScript.Proofs.PipelineRuns

/-! The counters of the passes in the statistics. The name of a counter has no dot, so that its name in the
statistics tells the pass and the counter apart, and `applied` is the only one that ends as the changes do. -/
namespace PlainScript

/-- The name of a counter in the statistics. -/
def Text.dotted (name counter : Text) : Text := name ++ "." ++ counter

namespace Text

variable {name name' counter counter' : Text}

lemma append_cons_inj {xs ys xs' ys' : Text} {b : UInt8} (h : xs ++ b :: ys = xs' ++ b :: ys')
    (hys : b ∉ ys) (hys' : b ∉ ys') : xs = xs' ∧ ys = ys' := by
  obtain ⟨zs, rfl, hzs⟩ | ⟨zs, rfl, hzs⟩ := List.append_eq_append_iff.mp h
  · cases zs with
    | nil => simpa using hzs
    | cons z zs =>
      obtain ⟨rfl, rfl⟩ := List.cons.inj hzs
      simp at hys
  · cases zs with
    | nil => simpa [eq_comm] using hzs
    | cons z zs =>
      obtain ⟨rfl, rfl⟩ := List.cons.inj hzs
      simp at hys'

lemma dotted_eq (name counter : Text) : dotted name counter = name ++ '.'.toUInt8 :: counter := by
  rw [dotted, List.append_assoc]
  rfl

lemma dotted_inj (h : dotted name counter = dotted name' counter') (hc : '.'.toUInt8 ∉ counter)
    (hc' : '.'.toUInt8 ∉ counter') : name = name' ∧ counter = counter' := by
  rw [dotted_eq, dotted_eq] at h
  exact append_cons_inj h hc hc'

lemma dotted_applied (name : Text) : dotted name "applied" = name ++ ".applied" := by
  rw [dotted_eq]
  rfl

lemma endsWith_dotted (name : Text) {counter : Text} (hc : '.'.toUInt8 ∉ counter) :
    (dotted name counter).endsWith ".applied" = true ↔ counter = "applied" := by
  rw [endsWith, List.isSuffixOf_iff_suffix]
  constructor
  · rintro ⟨lead, hlead⟩
    rw [dotted_eq] at hlead
    have hlast : lead ++ '.'.toUInt8 :: ("applied" : Text) = name ++ '.'.toUInt8 :: counter := hlead
    exact (append_cons_inj hlast (by decide) hc).2.symm
  · rintro rfl
    exact ⟨name, (dotted_applied name).symm⟩

end Text

namespace Statistics

/-- What a counter tells of the changes. -/
def changes (key : Text) (n : Int) : Int := if key.endsWith ".applied" then n else 0

lemma changes_add (key : Text) (m n : Int) : changes key (m + n) = changes key m + changes key n := by
  unfold changes
  split <;> simp

lemma totalApplied_eq_sum (s : Statistics) : s.totalApplied = s.ints.sum changes := by
  rw [totalApplied, Table.sum]
  induction s.ints.entries with
  | nil => rfl
  | cons e rest ih => simp only [List.foldr_cons, ih, List.map_cons, List.sum_cons, changes]; split <;> simp

section Merge

variable {t : Table Int} {entries : List (Text × Int)}

lemma get?_addAll (hnodup : (entries.map (·.1)).Nodup) (key : Text) :
    (entries.foldl (fun t (key, n) => t.update key 0 (· + n)) t).get? key =
      Option.merge (· + ·) (t.get? key) (Table.findEntry key entries) := by
  induction entries generalizing t with
  | nil => cases h : t.get? key <;> simp [Table.findEntry, h]
  | cons e rest ih =>
    obtain ⟨k, n⟩ := e
    rw [List.map_cons, List.nodup_cons] at hnodup
    rw [List.foldl_cons, ih hnodup.2, Table.findEntry]
    simp only [Table.update, Table.get?_insert]
    split_ifs with heq
    · subst heq
      have hnone : Table.findEntry k rest = none := Table.get?_eq_none (t := ⟨rest⟩) hnodup.1
      cases h : t.get? k <;> simp [hnone]
    · rfl

lemma sum_addAll (hsorted : t.Sorted) :
    (entries.foldl (fun t (key, n) => t.update key 0 (· + n)) t).sum changes =
      t.sum changes + (entries.map fun (key, n) => changes key n).sum := by
  induction entries generalizing t with
  | nil => simp
  | cons e rest ih =>
    obtain ⟨key, n⟩ := e
    have hinsert : (t.insert key ((t.get? key).getD 0 + n)).sum changes = t.sum changes + changes key n := by
      have hzero : changes key 0 = 0 := by simp [changes]
      rw [hsorted.sum_insert, changes_add]
      cases t.get? key <;> simp only [Option.elim_none, Option.elim_some, Option.getD_none, Option.getD_some] <;> omega
    refine (ih (hsorted.insert ..)).trans ?_
    rw [hinsert, List.map_cons, List.sum_cons, Int.add_assoc]

end Merge

variable {s other : Statistics}

lemma merge_ints (s other : Statistics) : (s.merge other []).ints =
    other.ints.entries.foldl (fun t (key, n) => t.update key 0 (· + n)) s.ints := by
  have hstrings (s : Statistics) (entries : List (Text × Text)) :
      (entries.foldl (fun s e => s.setString e.1 e.2) s).ints = s.ints :=
    List.foldlRecOn (motive := fun s' : Statistics => s'.ints = s.ints) entries _ rfl fun _ h _ _ => h
  have hdoubles (s : Statistics) (entries : List (Text × Float)) :
      (entries.foldl (fun s e => s.add e.1 e.2) s).ints = s.ints :=
    List.foldlRecOn (motive := fun s' : Statistics => s'.ints = s.ints) entries _ rfl fun _ h _ _ => h
  exact (hstrings _ _).trans ((hdoubles _ _).trans (List.foldl_hom ints fun _ _ => rfl).symm)

lemma get?_merge (hother : other.ints.Sorted) (key : Text) :
    (s.merge other []).ints.get? key = Option.merge (· + ·) (s.ints.get? key) (other.ints.get? key) := by
  rw [merge_ints]
  exact get?_addAll hother.nodup key

lemma totalApplied_merge (hs : s.ints.Sorted) (other : Statistics) :
    (s.merge other []).totalApplied = s.totalApplied + other.totalApplied := by
  rw [totalApplied_eq_sum, merge_ints, sum_addAll hs, totalApplied_eq_sum, totalApplied_eq_sum]
  rfl

end Statistics

namespace Pipeline

variable {p : Pipeline}

/-- The counters of all passes under their names in the statistics. -/
def counted (p : Pipeline) : List (Text × Int) :=
  p.stages.entries.flatMap fun (name, stage) =>
    stage.counters.entries.map fun (counter, n) => (Text.dotted name counter, n)

lemma statistics_ints (p : Pipeline) :
    p.statistics.ints = (({} : Table Int).insert "passes_registered" p.stages.size).insertAll p.counted := by
  have htimers (s : Statistics) (names : List Text) :
      (names.foldl (fun s name => s.startTimer name) s).ints = s.ints :=
    List.foldlRecOn (motive := fun s' : Statistics => s'.ints = s.ints) names _ rfl fun _ h _ _ => h
  have hcounters (name : Text) (s : Statistics) (entries : List (Text × Int)) :
      (entries.foldl (fun s (counter, n) => s.setInt (name ++ "." ++ counter) n) s).ints =
        s.ints.insertAll (entries.map fun (counter, n) => (Text.dotted name counter, n)) := by
    rw [Table.insertAll, List.foldl_map]
    exact (List.foldl_hom Statistics.ints fun _ _ => rfl).symm
  refine (htimers _ _).trans ?_
  rw [counted, Table.insertAll, List.foldl_flatMap]
  exact (List.foldl_hom Statistics.ints fun s e => (hcounters e.1 s e.2.counters.entries).symm).symm

lemma statistics_sorted (p : Pipeline) : p.statistics.ints.Sorted := by
  rw [statistics_ints]
  exact (Table.sorted_empty.insert ..).insertAll _

namespace IsSound

variable (h : p.IsSound)
include h

lemma plain_of_mem {name : Text} {stage : Stage} (hmem : (name, stage) ∈ p.stages.entries) :
    stage.counters.IsPlain := (h.stage name stage (h.sorted.get?_of_mem hmem)).plain

lemma noDot_of_mem {name counter : Text} {stage : Stage} {n : Int} (hmem : (name, stage) ∈ p.stages.entries)
    (hcounter : (counter, n) ∈ stage.counters.entries) : '.'.toUInt8 ∉ counter :=
  (h.plain_of_mem hmem).noDot counter (List.mem_map_of_mem (f := Prod.fst) hcounter)

lemma mem_counted_keys {key : Text} (hkey : key ∈ p.counted.map (·.1)) :
    ∃ name counter, '.'.toUInt8 ∉ counter ∧ key = Text.dotted name counter := by
  obtain ⟨e, he, rfl⟩ := List.mem_map.mp hkey
  obtain ⟨⟨name, stage⟩, hstage, he⟩ := List.mem_flatMap.mp he
  obtain ⟨⟨counter, n⟩, hcounter, rfl⟩ := List.mem_map.mp he
  exact ⟨name, counter, h.noDot_of_mem hstage hcounter, rfl⟩

/-- No two counters have the same name in the statistics. -/
lemma counted_nodup : (p.counted.map (·.1)).Nodup := by
  rw [counted, List.map_flatMap, List.nodup_flatMap]
  constructor
  · rintro ⟨name, stage⟩ hmem
    rw [List.map_map]
    refine List.Nodup.map_on ?_ (List.Nodup.of_map Prod.fst (h.plain_of_mem hmem).sorted.nodup)
    rintro ⟨counter, n⟩ hc ⟨counter', n'⟩ hc' heq
    obtain ⟨-, rfl⟩ := Text.dotted_inj heq (h.noDot_of_mem hmem hc) (h.noDot_of_mem hmem hc')
    have := (h.plain_of_mem hmem).sorted.get?_of_mem hc
    simp_all [(h.plain_of_mem hmem).sorted.get?_of_mem hc']
  · refine List.Pairwise.imp_of_mem ?_ (List.pairwise_map.mp h.sorted.nodup)
    rintro ⟨name, stage⟩ ⟨name', stage'⟩ hmem hmem' hne
    refine List.disjoint_left.mpr fun key hkey hkey' => ?_
    simp only [List.mem_map] at hkey hkey'
    obtain ⟨_, ⟨⟨counter, n⟩, hc, rfl⟩, rfl⟩ := hkey
    obtain ⟨_, ⟨⟨counter', n'⟩, hc', rfl⟩, heq⟩ := hkey'
    exact hne (Text.dotted_inj heq (h.noDot_of_mem hmem' hc') (h.noDot_of_mem hmem hc)).1.symm

/-- The changes of a pass stand in the statistics under its name. -/
lemma get?_statistics (name : Text) : p.statistics.ints.get? (name ++ ".applied") = p.applied name := by
  rw [statistics_ints, ← Text.dotted_applied]
  cases happlied : p.applied name with
  | some n =>
    obtain ⟨stage, hstage, hn⟩ := Option.bind_eq_some_iff.mp happlied
    refine Table.get?_insertAll h.counted_nodup ?_ _
    exact List.mem_flatMap.mpr ⟨_, Table.mem_entries_of_get? hstage,
      List.mem_map.mpr ⟨_, Table.mem_entries_of_get? hn, rfl⟩⟩
  | none =>
    rw [Table.get?_insertAll_of_notMem]
    · rw [Table.get?_insert, if_neg, Table.get?_empty]
      intro heq
      have hlast : (Text.dotted name "applied").endsWith ".applied" = true :=
        (Text.endsWith_dotted name (by decide)).mpr rfl
      rw [← heq] at hlast
      exact absurd hlast (by decide)
    · intro hkey
      obtain ⟨e, he, heq⟩ := List.mem_map.mp hkey
      obtain ⟨⟨name', stage⟩, hstage, he⟩ := List.mem_flatMap.mp he
      obtain ⟨⟨counter, n⟩, hcounter, rfl⟩ := List.mem_map.mp he
      obtain ⟨rfl, rfl⟩ := Text.dotted_inj heq (h.noDot_of_mem hstage hcounter) (by decide)
      rw [applied, h.sorted.get?_of_mem hstage, Option.bind_some, Stage.applied,
        (h.plain_of_mem hstage).sorted.get?_of_mem hcounter] at happlied
      cases happlied

/-- The changes in the statistics are those that the passes have counted. -/
lemma totalApplied_statistics : p.statistics.totalApplied = p.totalApplied := by
  have hstage : ∀ e ∈ p.stages.entries, ((e.2.counters.entries.map fun (counter, n) =>
      (Text.dotted e.1 counter, n)).map fun (key, n) => Statistics.changes key n).sum = e.2.applied.getD 0 := by
    rintro ⟨name, stage⟩ hmem
    rw [Stage.applied, ← (h.plain_of_mem hmem).sorted.sum_single, Table.sum, List.map_map]
    refine congrArg List.sum (List.map_congr_left ?_)
    rintro ⟨counter, n⟩ hcounter
    have hends := Text.endsWith_dotted name (h.noDot_of_mem hmem hcounter)
    simp only [Function.comp_apply, Statistics.changes, hends]
  have hregistered : Statistics.changes "passes_registered" p.stages.size = 0 := if_neg (by decide)
  rw [Statistics.totalApplied_eq_sum, statistics_ints,
    (Table.sorted_empty.insert ..).sum_insertAll _ h.counted_nodup, Table.sorted_empty.sum_insert, hregistered]
  · rw [counted, List.map_flatMap, List.flatMap_def, List.sum_flatten, List.map_map]
    refine (congrArg _ (congrArg List.sum (List.map_congr_left hstage))).trans ?_
    simp [totalApplied, Table.sum]
  · intro key hkey hmem
    obtain ⟨name, counter, -, rfl⟩ := h.mem_counted_keys hkey
    obtain heq | hmem := Table.mem_keys_insert hmem
    · have hdot : '.'.toUInt8 ∈ ("passes_registered" : Text) := by
        rw [← heq, Text.dotted_eq]
        simp
      exact absurd hdot (by decide)
    · cases hmem

end IsSound

end Pipeline

end PlainScript
