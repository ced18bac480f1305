import PlainScript.Proofs.Jumps
import Mathlib.Data.List.Forall2

/-! Statements that may stand where others stand. Whatever the statement around is, it means the same
afterwards, and its jumps still have somewhere to go. -/
namespace PlainScript.Statement

variable {σ V : Type} {E : Evaluator σ V}

/-! ### More labels to jump to -/

/-- All labels are still there, and those of loops are still those of loops. -/
structure Wider (env env' : List (Text × Bool)) : Prop where
  loop : ∀ label, env.lookup label = some true → env'.lookup label = some true
  named : ∀ label, env.any (·.1 == label) = true → env'.any (·.1 == label) = true

lemma Wider.cons {env env' : List (Text × Bool)} (h : Wider env env') (label : Text) {isLoop isLoop' : Bool}
    (hloop : isLoop = true → isLoop' = true) : Wider ((label, isLoop) :: env) ((label, isLoop') :: env') where
  loop l hl := by
    rw [List.lookup_cons] at hl ⊢
    split
    next heq => simp_all
    next hne =>
      rw [hne] at hl
      exact h.loop l hl
  named l hl := by
    simp only [List.any_cons, Bool.or_eq_true] at hl ⊢
    exact hl.imp_right (h.named l)

lemma Jumps.wider {s : Statement} {env env' : List (Text × Bool)} (h : s.Jumps env)
    (henv : Wider env env') : s.Jumps env' := by
  induction s using Statement.induction generalizing env env' with
  | h s ih =>
  have hall {parts : List Statement} (hsub : ∀ part ∈ parts, part ∈ s.parts)
      (h : allMeet targetsLoop env parts = true) : allMeet targetsLoop env' parts = true := by
    rw [allMeet_eq, List.all_eq_true] at h ⊢
    exact fun part hpart => ih part (hsub part hpart) (h part hpart) henv
  cases s with
  | block body => exact hall (fun _ => id) h
  | switch discriminant tests bodies => exact hall (fun _ => id) h
  | branch test taken otherwise =>
    simp only [Jumps, jumpsMeet, Bool.and_eq_true] at h ⊢
    exact ⟨ih taken (by simp [parts]) h.1 henv, ih otherwise (by simp [parts]) h.2 henv⟩
  | loop init test update body => exact ih body (by simp [parts]) h henv
  | doWhile body test => exact ih body (by simp [parts]) h henv
  | labeled label body => exact ih body (by simp [parts]) h (henv.cons label id)
  | breaking label =>
    simp only [Jumps, jumpsMeet, Bool.or_eq_true] at h ⊢
    exact h.imp_right (henv.named label)
  | continuing label =>
    simp only [Jumps, jumpsMeet, targetsLoop, Bool.or_eq_true, beq_iff_eq] at h ⊢
    exact h.imp_right (henv.loop label)
  | _ => rfl

/-! ### Improvement -/

/-- A relation between statements that goes from parts to what is made of them. -/
structure Congruent (rel : Statement → Statement → Prop) : Prop where
  refl : ∀ s, rel s s
  block : ∀ {ss ts}, List.Forall₂ rel ss ts → rel (.block ss) (.block ts)
  branch : ∀ {test s s' t t'}, rel s s' → rel t t' → rel (.branch test s t) (.branch test s' t')
  loop : ∀ {init test update s t}, rel s t → rel (.loop init test update s) (.loop init test update t)
  doWhile : ∀ {test s t}, rel s t → rel (.doWhile s test) (.doWhile t test)
  switch : ∀ {discriminant tests ss ts}, List.Forall₂ rel ss ts →
    rel (.switch discriminant tests ss) (.switch discriminant tests ts)
  labeled : ∀ {label s t}, rel s t → rel (.labeled label s) (.labeled label t)

lemma eq_congruent : Congruent (· = ·) where
  refl _ := rfl
  block h := by
    rw [List.forall₂_eq_eq_eq] at h
    rw [h]
  branch h h' := by rw [h, h']
  loop h := by rw [h]
  doWhile h := by rw [h]
  switch h := by
    rw [List.forall₂_eq_eq_eq] at h
    rw [h]
  labeled h := by rw [h]

/-- The second statement may stand where the first one stands. A statement that becomes a loop must not
stand under a label that some `continue` in it takes for the label of another loop. -/
structure Improves (s t : Statement) : Prop where
  isLoop : s.isLoop = true → t.isLoop = true
  jumps : ∀ {env}, s.Jumps env → t.Jumps env
  meaning_eq : ∀ {σ V : Type} (E : Evaluator σ V) {env labels}, s.Jumps env →
    (s.isLoop = false → ∀ label ∈ labels, env.lookup label ≠ some true) →
    t.meaning E labels = s.meaning E labels

namespace Improves

variable {s s' t t' u : Statement} {ss ts : List Statement}

lemma refl (s : Statement) : Improves s s := ⟨id, id, fun _ _ _ _ _ => rfl⟩

lemma trans (h : Improves s t) (h' : Improves t u) : Improves s u where
  isLoop hs := h'.isLoop (h.isLoop hs)
  jumps hs := h'.jumps (h.jumps hs)
  meaning_eq E _ _ hs hlabels := by
    rw [h'.meaning_eq E (h.jumps hs) fun ht => hlabels (Bool.eq_false_iff.mpr fun hs => ?_),
      h.meaning_eq E hs hlabels]
    simp [h.isLoop hs] at ht

/-- Without labels before it, a statement means the same. -/
lemma meaning_nil (h : Improves s t) {env : List (Text × Bool)} (hs : s.Jumps env) :
    t.meaning E [] = s.meaning E [] := h.meaning_eq E hs (by simp)

lemma meanings_eq (h : List.Forall₂ Improves ss ts) {env : List (Text × Bool)}
    (hss : ∀ s ∈ ss, s.Jumps env) : ts.map (meaning E · []) = ss.map (meaning E · []) := by
  induction h with
  | nil => rfl
  | cons h _ ih =>
    rw [List.map_cons, List.map_cons, h.meaning_nil (hss _ (by simp)), ih fun s hs => hss s (by simp [hs])]

lemma jumps_all (h : List.Forall₂ Improves ss ts) {env : List (Text × Bool)}
    (hss : ∀ s ∈ ss, s.Jumps env) : ∀ t ∈ ts, t.Jumps env := by
  induction h with
  | nil => simp
  | cons h _ ih =>
    rw [List.forall_mem_cons] at hss ⊢
    exact ⟨h.jumps hss.1, ih hss.2⟩

end Improves

lemma jumps_block {ss : List Statement} {env : List (Text × Bool)} :
    (block ss).Jumps env ↔ ∀ s ∈ ss, s.Jumps env := by
  simp [Jumps, jumpsMeet]

lemma jumps_switch {discriminant : Expression} {tests : List (Option Expression)} {ss : List Statement}
    {env : List (Text × Bool)} : (switch discriminant tests ss).Jumps env ↔ ∀ s ∈ ss, s.Jumps env := by
  simp [Jumps, jumpsMeet]

lemma jumps_branch {test : Expression} {s t : Statement} {env : List (Text × Bool)} :
    (branch test s t).Jumps env ↔ s.Jumps env ∧ t.Jumps env := by
  simp [Jumps, jumpsMeet]

theorem improves_congruent : Congruent Improves where
  refl := .refl
  block h := ⟨nofun, fun hs => jumps_block.mpr (Improves.jumps_all h (jumps_block.mp hs)),
    fun E _ _ hs _ => by
      simp only [meaning, Statement.meanings_eq, Improves.meanings_eq h (jumps_block.mp hs)]⟩
  branch h h' := ⟨nofun, fun hs => jumps_branch.mpr ((jumps_branch.mp hs).imp h.jumps h'.jumps),
    fun E _ _ hs _ => by
      obtain ⟨hs, ht⟩ := jumps_branch.mp hs
      simp only [meaning, h.meaning_nil hs, h'.meaning_nil ht]⟩
  loop h := ⟨fun _ => rfl, fun hs => h.jumps hs, fun E _ _ hs _ => by
    simp only [meaning, h.meaning_nil (show Jumps _ _ from hs)]⟩
  doWhile h := ⟨fun _ => rfl, fun hs => h.jumps hs, fun E _ _ hs _ => by
    simp only [meaning, h.meaning_nil (show Jumps _ _ from hs)]⟩
  switch h := ⟨nofun, fun hs => jumps_switch.mpr (Improves.jumps_all h (jumps_switch.mp hs)),
    fun E _ _ hs _ => by
      simp only [meaning, Statement.meanings_eq, Improves.meanings_eq h (jumps_switch.mp hs)]⟩
  labeled {label s t} h := ⟨h.isLoop,
    fun {env} hs => ((h.jumps (show s.Jumps ((label, s.isLoop) :: env) from hs)).wider
      (Wider.cons ⟨fun _ => id, fun _ => id⟩ label h.isLoop)),
    fun E env labels hs hlabels => by
      rw [meaning, meaning, h.meaning_eq E (show s.Jumps ((label, s.isLoop) :: env) from hs)]
      intro hloop l hl
      rw [List.lookup_cons]
      split
      · simp [hloop]
      next hne =>
        exact hlabels hloop l ((List.mem_cons.mp hl).resolve_left (by simpa using hne))⟩

/-! ### Lists of statements -/

section Seq

variable {first second third : Behavior σ V}

lemma seq_normal : Seq first (Ends .normal) = first := by
  funext s tr s' c
  refine propext ⟨?_, fun h => ?_⟩
  · rintro (⟨h, ⟨⟩⟩ | ⟨h, -⟩)
    · simpa using h
    · exact h
  · by_cases hc : c = .normal
    · subst hc
      simpa using Seq.normal h (Ends.mk s')
    · exact .abrupt h hc

lemma normal_seq : Seq (Ends .normal) second = second := by
  funext s tr s' c
  refine propext ⟨?_, fun h => Seq.normal (Ends.mk s) h⟩
  rintro (⟨⟨⟩, h⟩ | ⟨⟨⟩, hc⟩)
  · exact h
  · exact absurd rfl hc

lemma seq_assoc : Seq (Seq first second) third = Seq first (Seq second third) := by
  funext s tr s' c
  refine propext ⟨?_, ?_⟩
  · rintro (⟨⟨h₁, h₂⟩ | ⟨h₁, hc⟩, h₃⟩ | ⟨⟨h₁, h₂⟩ | ⟨h₁, -⟩, hc⟩)
    · rw [List.append_assoc]
      exact .normal h₁ (.normal h₂ h₃)
    · exact absurd rfl hc
    · exact .normal h₁ (.abrupt h₂ hc)
    · exact .abrupt h₁ hc
  · rintro (⟨h₁, ⟨h₂, h₃⟩ | ⟨h₂, hc⟩⟩ | ⟨h₁, hc⟩)
    · rw [← List.append_assoc]
      exact .normal (.normal h₁ h₂) h₃
    · exact .abrupt (.normal h₁ h₂) hc
    · exact .abrupt (.abrupt h₁ hc) hc

lemma sequence_append (xs ys : List (Behavior σ V)) :
    sequence (xs ++ ys) = Seq (sequence xs) (sequence ys) := by
  induction xs with
  | nil => rw [List.nil_append, sequence, normal_seq]
  | cons x rest ih => rw [List.cons_append, sequence, sequence, ih, seq_assoc]

end Seq

namespace Improves

variable {ss ss' ts ts' : List Statement}

lemma append (h : Improves (block ss) (block ss')) (h' : Improves (block ts) (block ts')) :
    Improves (block (ss ++ ts)) (block (ss' ++ ts')) := by
  have hsplit {us vs : List Statement} {env : List (Text × Bool)} :
      (block (us ++ vs)).Jumps env ↔ (block us).Jumps env ∧ (block vs).Jumps env := by
    simp only [jumps_block, List.forall_mem_append]
  have hmeaning {σ V : Type} (E : Evaluator σ V) (us vs : List Statement) (labels : List Text) :
      (block (us ++ vs)).meaning E labels = Seq ((block us).meaning E []) ((block vs).meaning E []) := by
    simp only [meaning, Statement.meanings_eq, List.map_append, sequence_append]
  refine ⟨fun h => (by cases h), fun hs => hsplit.mpr ((hsplit.mp hs).imp h.jumps h'.jumps), fun E _ _ hs _ => ?_⟩
  obtain ⟨hss, hts⟩ := hsplit.mp hs
  rw [hmeaning, hmeaning, h.meaning_nil hss, h'.meaning_nil hts]

/-- The statements of a block for the block. -/
lemma splice (ss : List Statement) : Improves (block [block ss]) (block ss) :=
  ⟨nofun, fun hs => jumps_block.mp hs _ (by simp), fun E _ _ _ _ => by
    simp only [meaning, meanings, sequence, seq_normal]⟩

lemma drop : Improves (block [empty]) (block []) :=
  ⟨nofun, fun _ => rfl, fun E _ _ _ _ => by simp only [meaning, meanings, sequence, seq_normal]⟩

lemma with_literal (b : Bool) (next : V → Behavior σ V) :
    With E (.literal b) next = next (E.ofBool b) := by
  funext s tr s' c
  refine propext ⟨?_, fun h => .value (.literal b s) h⟩
  rintro (⟨⟨⟩, h⟩ | ⟨⟨⟩⟩)
  exact h

/-- The branch that is taken for a statement whose test is known. -/
lemma fold (b : Bool) (s t : Statement) : Improves (branch (.literal b) s t) (if b then s else t) := by
  have hjumps {env : List (Text × Bool)} (h : (branch (.literal b) s t).Jumps env) :
      (if b then s else t).Jumps env := by
    obtain ⟨hs, ht⟩ := jumps_branch.mp h
    split
    · exact hs
    · exact ht
  refine ⟨nofun, hjumps, fun E env labels h hlabels => ?_⟩
  -- The branch is no loop, so that none of the labels before it is met by a `continue` in it.
  have hnone (label : Text) (hloop : env.lookup label = some true) : label ∈ labels ↔ label ∈ [] :=
    iff_of_false (fun hm => hlabels rfl label hm hloop) List.not_mem_nil
  rw [meaning_congr _ (hjumps h) hnone, meaning, with_literal, E.truth_ofBool]
  split <;> rfl

end Improves

end PlainScript.Statement
