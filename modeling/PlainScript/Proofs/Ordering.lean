import PlainScript.Schedule
import PlainScript.Proofs.Tables
import Mathlib.Data.List.Perm.Basic
import Mathlib.Logic.Relation

/-! The order of jobs. Each move brings a needed job before the first job that waits for it, and from then on
that job is either done with or stands among jobs that need each other in a row, from which none can be moved
again if the needs make no circle. So there are fewer moves than jobs. -/
namespace PlainScript.Schedule

open Relation

variable {jobs : List Job} {order : List Text}

/-- The first job names the second one, which exists, as a dependency. -/
def Needs (jobs : List Job) (job d : Text) : Prop := d ∈ dependenciesOf jobs job ∧ d ∈ jobs.map (·.name)

/-- No job needs itself, directly or through others. -/
def Acyclic (jobs : List Job) : Prop := ∀ job, ¬ TransGen (Needs jobs) job job

/-- Whatever a job needs stands before it. -/
def Respects (jobs : List Job) (order : List Text) : Prop :=
  ∀ before job after, order = before ++ job :: after → ∀ d, Needs jobs job d → d ∈ before

lemma respects_nil : Respects jobs [] := by simp [Respects]

/-- Each job has what it needs before it or is needed by all that follow. -/
def Leans (jobs : List Job) (order : List Text) : Prop :=
  ∀ before job after, order = before ++ job :: after →
    (∀ d, Needs jobs job d → d ∈ before) ∨ ∀ later ∈ after, TransGen (Needs jobs) later job

/-- An element of two joined lists stands in one of them. -/
lemma split_append {α : Type} {front rest before after : List α} {x : α} (h : front ++ rest = before ++ x :: after) :
    (∃ between, front = before ++ x :: between ∧ after = between ++ rest) ∨
      ∃ between, rest = between ++ x :: after ∧ before = front ++ between := by
  obtain ⟨between, rfl, hrest⟩ | ⟨between, rfl, hafter⟩ := List.append_eq_append_iff.mp h
  · exact .inr ⟨between, hrest, rfl⟩
  · cases between with
    | nil => exact .inr ⟨[], by simpa using hafter.symm, by simp⟩
    | cons y between =>
      cases hafter
      exact .inl ⟨between, rfl, rfl⟩

lemma split_concat {α : Type} {front before after : List α} {last x : α} (h : front ++ [last] = before ++ x :: after) :
    (∃ between, front = before ++ x :: between) ∨ before = front ∧ x = last ∧ after = [] := by
  obtain ⟨between, hfront, -⟩ | ⟨between, hlast, rfl⟩ := split_append h
  · exact .inl ⟨between, hfront⟩
  · obtain ⟨rfl, rfl, rfl⟩ : between = [] ∧ x = last ∧ after = [] := by
      simpa [List.singleton_eq_append_iff] using hlast
    exact .inr ⟨List.append_nil front, rfl, rfl⟩

/-! ### One move -/

lemma moveLate_cases (order : List Text) (i : Nat) (job : Text) (deps : List Text) :
    ((moveLate order i job deps).2 = none ∧ ∀ d ∈ deps, ∀ j, order.idxOf? d = some j → j ≤ i) ∨
      ∃ d ∈ deps, ∃ j, order.idxOf? d = some j ∧ i < j ∧
        (moveLate order i job deps).2 = some (moveTo j i order d) := by
  induction deps with
  | nil => exact .inl ⟨rfl, by simp⟩
  | cons d rest ih =>
    rw [moveLate]
    cases hd : order.idxOf? d with
    | none =>
      obtain ⟨hnone, hle⟩ | ⟨x, hx, j, hj, hlt, hmoved⟩ := ih
      · exact .inl ⟨hnone, List.forall_mem_cons.mpr ⟨by simp [hd], hle⟩⟩
      · exact .inr ⟨x, by simp [hx], j, hj, hlt, hmoved⟩
    | some j =>
      by_cases hlt : i < j
      · exact .inr ⟨d, by simp, j, hd, hlt, by simp [hlt]⟩
      · simp only [if_neg hlt]
        obtain ⟨hnone, hle⟩ | ⟨x, hx, k, hk, hlt', hmoved⟩ := ih
        · refine .inl ⟨hnone, List.forall_mem_cons.mpr ⟨fun k hk => ?_, hle⟩⟩
          obtain rfl : j = k := by simpa [hd] using hk
          exact Nat.not_lt.mp hlt
        · exact .inr ⟨x, by simp [hx], k, hk, hlt', hmoved⟩

lemma moveTo_eq {before after : List Text} {job d : Text} {j : Nat}
    (hj : (before ++ job :: after).idxOf? d = some j) (hlt : before.length < j) :
    ∃ between behind, after = between ++ d :: behind ∧
      moveTo j before.length (before ++ job :: after) d = before ++ d :: job :: (between ++ behind) := by
  obtain ⟨hlen, hget, -⟩ := List.idxOf?_eq_some_iff.mp hj
  obtain ⟨k, rfl⟩ := Nat.exists_eq_add_of_lt hlt
  have hk : k < after.length := by
    simp only [List.length_append, List.length_cons] at hlen
    omega
  have hd : after[k] = d := by
    simpa [List.getElem_append_right, Nat.add_assoc] using hget
  refine ⟨after.take k, after.drop (k + 1), ?_, ?_⟩
  · rw [← hd, ← List.drop_eq_getElem_cons hk, List.take_append_drop]
  · have herase : (before ++ job :: after).eraseIdx (before.length + k + 1) =
        before ++ job :: (after.take k ++ after.drop (k + 1)) := by
      rw [List.eraseIdx_append_of_length_le (by omega), show before.length + k + 1 - before.length = k + 1 by omega,
        List.eraseIdx_cons_succ, List.eraseIdx_eq_take_drop_succ]
    simp [moveTo, herase]

lemma respects_concat {before : List Text} {job : Text} (h : Respects jobs before)
    (hjob : ∀ d, Needs jobs job d → d ∈ before) : Respects jobs (before ++ [job]) := by
  intro f x g hsplit
  obtain ⟨between, hbefore⟩ | ⟨rfl, rfl, -⟩ := split_concat hsplit
  · exact h f x between hbefore
  · exact hjob

/-- Either all jobs from `later` on have what they need, or what the first other one lacks is moved. -/
lemma moveFrom_cases (hacyclic : Acyclic jobs) (hperm : order.Perm (jobs.map (·.name))) {before later : List Text}
    (horder : order = before ++ later) (hbefore : Respects jobs before) :
    ((moveFrom jobs order before.length later).2 = none ∧ Respects jobs order) ∨
      ∃ ready job between d behind, order = ready ++ job :: (between ++ d :: behind) ∧ Respects jobs ready ∧
        Needs jobs job d ∧
        (moveFrom jobs order before.length later).2 = some (ready ++ d :: job :: (between ++ behind)) := by
  induction later generalizing before with
  | nil => exact .inl ⟨rfl, by rwa [horder, List.append_nil]⟩
  | cons job later ih =>
    rw [moveFrom]
    have hlate := moveLate_cases order before.length job (dependenciesOf jobs job)
    generalize moveLate order before.length job (dependenciesOf jobs job) = found at hlate ⊢
    obtain ⟨missing, moved⟩ := found
    obtain ⟨hnone, hle⟩ | ⟨d, hd, j, hj, hlt, hmoved⟩ := hlate
    · simp only at hnone
      subst hnone
      have hjob : ∀ d, Needs jobs job d → d ∈ before := by
        intro d hd
        obtain ⟨j, hj⟩ := List.isSome_idxOf?.mpr (hperm.mem_iff.mpr hd.2) |> Option.isSome_iff_exists.mp
        obtain ⟨hlen, hget, -⟩ := List.idxOf?_eq_some_iff.mp hj
        obtain hlt | heq := Nat.lt_or_eq_of_le (hle d hd.1 j hj)
        · simp only [horder, List.getElem_append_left hlt] at hget
          exact hget ▸ List.getElem_mem hlt
        · subst heq
          obtain rfl : job = d := by simpa [horder] using hget
          exact absurd (.single hd) (hacyclic job)
      have hnext := ih (horder.trans (List.append_cons before job later)) (respects_concat hbefore hjob)
      rw [List.length_append, List.length_singleton] at hnext
      generalize moveFrom jobs order (before.length + 1) later = found at hnext ⊢
      exact hnext
    · simp only at hmoved
      subst hmoved horder
      obtain ⟨between, behind, rfl, hmove⟩ := moveTo_eq hj hlt
      have hmem : d ∈ before ++ job :: (between ++ d :: behind) := by simp
      exact .inr ⟨before, job, between, d, behind, rfl, hbefore, ⟨hd, hperm.mem_iff.mp hmem⟩, by rw [hmove]⟩

/-! ### All moves -/

lemma leans_of_respects {ready : List Text} (h : Respects jobs ready) (job : Text) : Leans jobs (ready ++ [job]) := by
  intro f x g hsplit
  obtain ⟨between, hready⟩ | ⟨-, -, rfl⟩ := split_concat hsplit
  · exact .inl (h f x between hready)
  · exact .inr (by simp)

/-- Where nothing is left behind a leaning order, nobody waits any more. -/
lemma Leans.respects (hacyclic : Acyclic jobs) (hperm : order.Perm (jobs.map (·.name))) (h : Leans jobs order) :
    Respects jobs order := by
  intro before job after hsplit d hd
  obtain hready | hlater := h before job after hsplit
  · exact hready d hd
  · have hmem := hperm.mem_iff.mpr hd.2
    rw [hsplit, List.mem_append, List.mem_cons] at hmem
    obtain hmem | rfl | hmem := hmem
    · exact hmem
    · exact absurd (.single hd) (hacyclic d)
    · exact absurd ((hlater d hmem).tail hd) (hacyclic d)

/-- A move takes a job from behind a leaning front into it. -/
lemma Leans.move (hacyclic : Acyclic jobs) {ready front rest between behind : List Text} {job d : Text}
    (hnodup : (ready ++ job :: (between ++ d :: behind)).Nodup) (hneeds : Needs jobs job d)
    (hready : Respects jobs ready) (hafter : between ++ d :: behind = front ++ rest)
    (h : Leans jobs (ready ++ job :: front)) :
    ∃ front' rest', ready ++ d :: job :: (between ++ behind) = front' ++ rest' ∧ Leans jobs front' ∧
      rest'.length < rest.length := by
  have hwait : ∀ later ∈ front, TransGen (Needs jobs) later job := by
    obtain hleft | hlater := h ready job front rfl
    · have hd : d ∉ ready := fun hmem => (List.nodup_append'.mp hnodup).2.2 hmem (by simp)
      exact absurd (hleft d hneeds) hd
    · exact hlater
  have hd : d ∉ front := fun hmem => hacyclic d ((hwait d hmem).tail hneeds)
  obtain ⟨_, rfl, -⟩ | ⟨skipped, rfl, rfl⟩ := split_append hafter.symm
  · simp at hd
  refine ⟨ready ++ d :: job :: front, skipped ++ behind, by simp, fun f x g hsplit => ?_, by simp⟩
  obtain ⟨between, hready', -⟩ | ⟨between, hfront, rfl⟩ := split_append hsplit
  · exact .inl (hready f x between hready')
  -- the jobs behind the ready ones: the moved one, the one that waited for it, and those that wait for the latter
  match between with
  | [] =>
    cases hfront
    have hjob : TransGen (Needs jobs) job d := .single hneeds
    exact .inr (List.forall_mem_cons.mpr ⟨hjob, fun later hlater => (hwait later hlater).trans hjob⟩)
  | [_] =>
    cases hfront
    exact .inr hwait
  | _ :: _ :: between =>
    cases hfront
    refine (h (ready ++ job :: between) x g (by simp)).imp_left fun hleft e he => ?_
    have hmem := hleft e he
    simp only [List.mem_append, List.mem_cons] at hmem ⊢
    tauto

/-- With a move left, either nobody waits or the first job that does gets what it lacks. -/
lemma settle_cases (hacyclic : Acyclic jobs) (hperm : order.Perm (jobs.map (·.name))) (moves : Nat) :
    ((settle jobs (moves + 1) order).order = order ∧ Respects jobs order) ∨
      ∃ ready job between d behind, order = ready ++ job :: (between ++ d :: behind) ∧ Respects jobs ready ∧
        Needs jobs job d ∧ (settle jobs (moves + 1) order).order =
          (settle jobs moves (ready ++ d :: job :: (between ++ behind))).order := by
  rw [settle]
  have hcases := moveFrom_cases hacyclic hperm (List.nil_append _).symm respects_nil
  rw [List.length_nil] at hcases
  generalize moveFrom jobs order 0 order = found at hcases ⊢
  obtain ⟨missing, moved⟩ := found
  obtain ⟨hnone, hrespects⟩ | ⟨ready, job, between, d, behind, horder, hready, hneeds, hmoved⟩ := hcases
  · simp only at hnone
    subst hnone
    exact .inl ⟨rfl, hrespects⟩
  · simp only at hmoved
    subst hmoved
    exact .inr ⟨ready, job, between, d, behind, horder, hready, hneeds, rfl⟩

lemma perm_move {ready between behind names : List Text} {job d : Text}
    (h : (ready ++ job :: (between ++ d :: behind)).Perm names) :
    (ready ++ d :: job :: (between ++ behind)).Perm names :=
  (List.Perm.append_left ready (.trans (.swap job d _) (.cons job List.perm_middle.symm))).trans h

lemma moveTo_perm {d : Text} {j : Nat} (hj : order.idxOf? d = some j) (i : Nat) : (moveTo j i order d).Perm order := by
  obtain ⟨hlt, rfl, -⟩ := List.idxOf?_eq_some_iff.mp hj
  refine List.perm_middle.trans ?_
  rw [List.take_append_drop]
  exact List.getElem_cons_eraseIdx_perm hlt

lemma moveFrom_perm {moved : List Text} (i : Nat) (later : List Text)
    (h : (moveFrom jobs order i later).2 = some moved) : moved.Perm order := by
  induction later generalizing i with
  | nil => cases h
  | cons job later ih =>
    rw [moveFrom] at h
    have hlate := moveLate_cases order i job (dependenciesOf jobs job)
    generalize moveLate order i job (dependenciesOf jobs job) = found at hlate h
    obtain ⟨missing, moved?⟩ := found
    obtain ⟨hnone, -⟩ | ⟨d, -, j, hj, -, hmoved⟩ := hlate
    · simp only at hnone
      subst hnone
      exact ih (i + 1) h
    · simp only at hmoved
      subst hmoved
      exact Option.some.inj h ▸ moveTo_perm hj i

/-- However many moves there are, and whatever the jobs need, no job is lost and none comes twice. -/
lemma settle_perm (jobs : List Job) (moves : Nat) (order : List Text) : (settle jobs moves order).order.Perm order := by
  induction moves generalizing order with
  | zero => exact .refl _
  | succ moves ih =>
    rw [settle]
    have hmove (moved : List Text) (h : (moveFrom jobs order 0 order).2 = some moved) : moved.Perm order :=
      moveFrom_perm 0 order h
    generalize moveFrom jobs order 0 order = found at hmove ⊢
    obtain ⟨missing, moved⟩ := found
    cases moved with
    | none => exact .refl _
    | some moved => exact (ih moved).trans (hmove moved rfl)

/-- As long as there are as many moves as jobs behind a leaning front, the order settles. -/
lemma settle_spec (hnodup : (jobs.map (·.name)).Nodup) (hacyclic : Acyclic jobs) (moves : Nat) {front rest : List Text}
    (hperm : (front ++ rest).Perm (jobs.map (·.name))) (hfront : Leans jobs front) (hmoves : rest.length ≤ moves) :
    Respects jobs (settle jobs moves (front ++ rest)).order := by
  induction moves generalizing front rest with
  | zero =>
    obtain rfl := List.eq_nil_of_length_eq_zero (Nat.le_zero.mp hmoves)
    rw [List.append_nil] at hperm ⊢
    exact hfront.respects hacyclic hperm
  | succ moves ih =>
    obtain ⟨hsame, hrespects⟩ | ⟨ready, job, between, d, behind, horder, hready, hneeds, hmove⟩ :=
      settle_cases hacyclic hperm moves
    · rwa [hsame]
    · rw [hmove]
      rw [horder] at hperm
      have hmoved := perm_move hperm
      obtain ⟨front', rest', hsplit, hfront', hless⟩ :
          ∃ front' rest', ready ++ d :: job :: (between ++ behind) = front' ++ rest' ∧ Leans jobs front' ∧
            rest'.length < rest.length := by
        obtain ⟨front', rfl, hafter⟩ | ⟨done, rfl, rfl⟩ := split_append horder
        · exact hfront.move hacyclic (hperm.nodup_iff.mpr hnodup) hneeds hready hafter
        · obtain ⟨front', rest', hsplit, hfront', hless⟩ :=
            (leans_of_respects hready job).move hacyclic (hperm.nodup_iff.mpr hnodup) hneeds hready
              (List.nil_append (between ++ d :: behind)).symm
          refine ⟨front', rest', hsplit, hfront', Nat.lt_trans hless ?_⟩
          simp only [List.length_append, List.length_cons]
          omega
      rw [hsplit] at hmoved ⊢
      exact ih hmoved hfront' (by omega)

/-- An order in which nobody waits stays as it is. -/
lemma settle_of_respects (hnodup : (jobs.map (·.name)).Nodup) (hacyclic : Acyclic jobs)
    (hperm : order.Perm (jobs.map (·.name))) (h : Respects jobs order) (moves : Nat) :
    (settle jobs moves order).order = order := by
  cases moves with
  | zero => rfl
  | succ moves =>
    obtain ⟨hsame, -⟩ | ⟨ready, job, between, d, behind, horder, -, hneeds, -⟩ := settle_cases hacyclic hperm moves
    · exact hsame
    · have hd : d ∈ ready := h ready job _ horder d hneeds
      have hsplit := hperm.nodup_iff.mpr hnodup
      rw [horder] at hsplit
      exact absurd (by simp) ((List.nodup_append'.mp hsplit).2.2 hd)

/-! ### By priority and name -/

/-- The first job comes first by priority, and by name where priorities are equal. -/
def Precedes (j k : Job) : Prop := j.priority < k.priority ∨ j.priority = k.priority ∧ j.name < k.name

lemma insertJob_perm (j : Job) (sorted : List Job) : (insertJob j sorted).Perm (j :: sorted) := by
  induction sorted with
  | nil => exact .refl _
  | cons k rest ih =>
    rw [insertJob]
    split
    · exact .refl _
    · exact (List.Perm.cons k ih).trans (.swap j k rest)

lemma insertJob_sorted {j : Job} {sorted : List Job} (h : sorted.Pairwise Precedes)
    (hname : ∀ k ∈ sorted, k.name < j.name) : (insertJob j sorted).Pairwise Precedes := by
  induction sorted with
  | nil => exact List.pairwise_singleton ..
  | cons k rest ih =>
    rw [List.forall_mem_cons] at hname
    have hk := List.pairwise_cons.mp h
    rw [insertJob]
    split
    next hlt =>
      refine List.pairwise_cons.mpr ⟨List.forall_mem_cons.mpr ⟨.inl hlt, fun l hl => ?_⟩, h⟩
      obtain hless | ⟨heq, -⟩ := hk.1 l hl
      · exact .inl (Int.lt_trans hlt hless)
      · exact .inl (heq ▸ hlt)
    next hle =>
      refine List.pairwise_cons.mpr ⟨fun l hl => ?_, ih hk.2 hname.2⟩
      obtain rfl | hl := List.mem_cons.mp ((insertJob_perm j rest).mem_iff.mp hl)
      · obtain hless | heq := Int.lt_or_eq_of_le (Int.not_lt.mp hle)
        · exact .inl hless
        · exact .inr ⟨heq, hname.1⟩
      · exact hk.1 l hl

lemma byPriority_spec (hnames : (jobs.map (·.name)).Pairwise (· < ·)) :
    (byPriority jobs).Perm jobs ∧ (byPriority jobs).Pairwise Precedes := by
  have hgo (later sorted : List Job) (hsorted : sorted.Pairwise Precedes)
      (hlater : (later.map (·.name)).Pairwise (· < ·)) (hname : ∀ k ∈ sorted, ∀ j ∈ later, k.name < j.name) :
      (later.foldl (fun sorted j => insertJob j sorted) sorted).Perm (sorted ++ later) ∧
        (later.foldl (fun sorted j => insertJob j sorted) sorted).Pairwise Precedes := by
    induction later generalizing sorted with
    | nil => exact ⟨by simp, hsorted⟩
    | cons j later ih =>
      rw [List.map_cons, List.pairwise_cons] at hlater
      have hperm := insertJob_perm j sorted
      obtain ⟨hrest, hpairs⟩ := ih (insertJob j sorted)
        (insertJob_sorted hsorted fun k hk => hname k hk j (by simp)) hlater.2 fun k hk l hl => by
          obtain rfl | hk := List.mem_cons.mp (hperm.mem_iff.mp hk)
          · exact hlater.1 l.name (List.mem_map_of_mem hl)
          · exact hname k hk l (by simp [hl])
      exact ⟨hrest.trans ((hperm.append_right later).trans List.perm_middle.symm), hpairs⟩
  simpa [byPriority] using hgo jobs [] .nil hnames (by simp)

lemma ofJobs_perm (hnames : (jobs.map (·.name)).Pairwise (· < ·)) : (ofJobs jobs).order.Perm (jobs.map (·.name)) :=
  (settle_perm jobs maxMoves _).trans ((byPriority_spec hnames).1.map (·.name))

/-- Jobs whose needs make no circle are ordered once each, and so that each stands behind what it needs as long
as there are at most as many jobs as one more than the moves; they stand by priority and name if nothing speaks
against it. -/
theorem ofJobs_respects (hnames : (jobs.map (·.name)).Pairwise (· < ·)) (hacyclic : Acyclic jobs) :
    (ofJobs jobs).order.Perm (jobs.map (·.name)) ∧
    (jobs.length ≤ maxMoves + 1 → Respects jobs (ofJobs jobs).order) ∧
    ∀ sorted : List Job, sorted.Perm jobs → sorted.Pairwise Precedes → Respects jobs (sorted.map (·.name)) →
      (ofJobs jobs).order = sorted.map (·.name) := by
  obtain ⟨hperm, hsorted⟩ := byPriority_spec hnames
  have hnodup : (jobs.map (·.name)).Nodup :=
    List.Pairwise.imp (fun hlt => by rintro rfl; exact List.lt_irrefl _ hlt) hnames
  have hnamed := hperm.map (·.name)
  refine ⟨ofJobs_perm hnames, fun hcount => ?_, fun sorted hsame hpairs hrespects => ?_⟩
  · unfold ofJobs
    cases hjobs : (byPriority jobs).map (·.name) with
    | nil =>
      rw [hjobs] at hnamed
      have hnothing : Leans jobs [] := by simp [Leans]
      exact settle_spec hnodup hacyclic maxMoves (List.append_nil [] ▸ hnamed) hnothing (Nat.zero_le _)
    | cons first rest =>
      rw [hjobs] at hnamed
      have hlen := hnamed.length_eq
      rw [List.length_cons, List.length_map] at hlen
      exact settle_spec hnodup hacyclic maxMoves hnamed (leans_of_respects respects_nil first) (by omega)
  · obtain rfl : sorted = byPriority jobs := by
      refine (hsame.trans hperm.symm).eq_of_pairwise (fun j k _ _ hjk hkj => ?_) hpairs hsorted
      obtain hlt | ⟨heq, hlt⟩ := hjk <;> obtain hlt' | ⟨heq', hlt'⟩ := hkj
      · exact absurd (Int.lt_trans hlt hlt') (Int.lt_irrefl _)
      · exact absurd (heq' ▸ hlt) (Int.lt_irrefl _)
      · exact absurd (heq ▸ hlt') (Int.lt_irrefl _)
      · exact absurd (List.lt_trans hlt hlt') (List.lt_irrefl _)
    exact settle_of_respects hnodup hacyclic hnamed hrespects maxMoves

/-- So many jobs of which each needs the next. -/
def chain (n : Nat) : List Job := (List.range n).map fun i =>
  { name := [UInt8.ofNat i], priority := 600, dependencies := if i + 1 < n then [[UInt8.ofNat (i + 1)]] else [] }

lemma acyclic_of_lt (h : ∀ j ∈ jobs, ∀ d ∈ j.dependencies, j.name < d) : Acyclic jobs := by
  have hneeds {x y : Text} (hxy : Needs jobs x y) : x < y := by
    obtain ⟨hy, -⟩ := hxy
    unfold dependenciesOf at hy
    cases hj : jobs.find? (·.name = x) with
    | none => simp [hj] at hy
    | some j =>
      obtain rfl : j.name = x := by simpa using List.find?_some hj
      exact h j (List.mem_of_find?_eq_some hj) y (by simpa [hj] using hy)
  intro job hloop
  have hlt {x y : Text} (hxy : TransGen (Needs jobs) x y) : x < y := by
    induction hxy with
    | single hxy => exact hneeds hxy
    | tail _ hyz ih => exact List.lt_trans ih (hneeds hyz)
  exact List.lt_irrefl _ (hlt hloop)

lemma dependenciesOf_chain {n i : Nat} (hn : n ≤ 256) (hi : i + 1 < n) :
    dependenciesOf (chain n) [UInt8.ofNat i] = [[UInt8.ofNat (i + 1)]] := by
  have hfind : (List.range n).find? (fun j => decide ([UInt8.ofNat j] = [UInt8.ofNat i])) = some i := by
    rw [List.find?_range_eq_some]
    refine ⟨by simp, List.mem_range.mpr (by omega), fun j hj => ?_⟩
    have hne : UInt8.ofNat j ≠ UInt8.ofNat i := fun heq => by
      have hnat := congrArg UInt8.toNat heq
      simp only [UInt8.toNat_ofNat'] at hnat
      omega
    simpa using hne
  rw [dependenciesOf, chain, List.find?_map]
  simp only [Function.comp_def, hfind]
  simp [hi]

/-- Each move brings one more job to the front where the job in front needs just the next one. -/
lemma exists_front {n k m : Nat} {f : Nat → Text} (hacyclic : Acyclic jobs)
    (hneeds : ∀ i < n, ∀ d, Needs jobs (f i) d ↔ d = f (i + 1)) (hle : k + m ≤ n) {rest : List Text}
    (hperm : (f k :: rest).Perm (jobs.map (·.name))) :
    ∃ rest', (settle jobs m (f k :: rest)).order = f (k + m) :: rest' := by
  induction m generalizing k rest with
  | zero => exact ⟨rest, rfl⟩
  | succ m ih =>
    have hlt : k < n := by omega
    have hwaits {later : List Text} (h : Respects jobs (f k :: later)) : False := by
      simpa using h [] (f k) later rfl (f (k + 1)) ((hneeds k hlt _).mpr rfl)
    obtain ⟨-, hrespects⟩ | ⟨ready, job, between, d, behind, horder, hready, hd, hmove⟩ :=
      settle_cases hacyclic hperm m
    · exact (hwaits hrespects).elim
    · cases ready with
      | cons first ready =>
        obtain rfl := (List.cons.inj horder).1
        exact (hwaits hready).elim
      | nil =>
        obtain ⟨rfl, -⟩ := List.cons.inj horder
        obtain rfl := (hneeds k hlt d).mp hd
        rw [horder] at hperm
        have hmoved : (f (k + 1) :: f k :: (between ++ behind)).Perm (jobs.map (·.name)) := perm_move hperm
        obtain ⟨rest', hrest⟩ := ih (by omega) hmoved
        exact ⟨rest', (hmove.trans hrest).trans (congrArg (f · :: rest') (Nat.succ_add k m))⟩

/-- One job more, and the moves run out before the last job has come to the front. -/
theorem chain_not_respected :
    Acyclic (chain (maxMoves + 2)) ∧ ¬ Respects (chain (maxMoves + 2)) (ofJobs (chain (maxMoves + 2))).order := by
  have hacyclic : Acyclic (chain (maxMoves + 2)) := acyclic_of_lt (by decide +kernel)
  have hneeds (i : Nat) (hi : i < maxMoves + 1) (d : Text) :
      Needs (chain (maxMoves + 2)) [UInt8.ofNat i] d ↔ d = [UInt8.ofNat (i + 1)] := by
    rw [Needs, dependenciesOf_chain (by decide) (Nat.succ_lt_succ hi), List.mem_singleton, and_iff_left_iff_imp]
    rintro rfl
    have hmem : i + 1 ∈ List.range (maxMoves + 2) := List.mem_range.mpr (Nat.succ_lt_succ hi)
    rw [chain, List.map_map]
    exact List.mem_map_of_mem hmem
  have hsorted : (byPriority (chain (maxMoves + 2))).map (·.name) = (chain (maxMoves + 2)).map (·.name) := by
    decide +kernel
  obtain ⟨rest, hrest⟩ : ∃ rest, (chain (maxMoves + 2)).map (·.name) = [UInt8.ofNat 0] :: rest := ⟨_, rfl⟩
  have hperm : ([UInt8.ofNat 0] :: rest).Perm ((chain (maxMoves + 2)).map (·.name)) := .of_eq hrest.symm
  obtain ⟨rest', horder⟩ := @exists_front _ _ 0 maxMoves (fun i => [UInt8.ofNat i]) hacyclic hneeds (by decide) _ hperm
  rw [← hrest, ← hsorted] at horder
  refine ⟨hacyclic, fun h => ?_⟩
  have hlast := h [] [100] rest' horder [101] ((hneeds 100 (by decide) _).mpr rfl)
  exact absurd hlast (by simp)

end PlainScript.Schedule
