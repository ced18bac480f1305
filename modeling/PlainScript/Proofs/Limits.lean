import PlainScript.Proofs.Congruence
import PlainScript.Proofs.Recovery

/-! What the limits of a reader are for. A limit may end a reading, but it never changes what is read: with wider
limits the reader answers the same, unless a limit had ended its reading. In the same way a reader that recovers answers
what a strict reader does as long as it has nothing to recover from. -/
namespace PlainScript

/-- The error is that a limit was reached. -/
def ParseError.IsLimit (e : ParseError) : Prop := e.fault = .tooDeep ∨ e.fault = .tooManyErrors

lemma ParseError.IsLimit.not_isRecoverable {e : ParseError} (h : e.IsLimit) : e.isRecoverable = false := by
  obtain h | h := h <;> rw [isRecoverable, h] <;> rfl

namespace Grammar

/-- To take a token the context makes no difference. -/
lemma advance_congr (c c' : Context) (s : State) : advance c s = advance c' s := by
  simp only [advance, run_bind, run_get]
  cases s.later <;> rfl

/-! ### Wider limits -/

section Outlasts

variable {α β : Type} {p p' : Parser α} {q q' : α → Parser β}

/-- The second reader answers what the first one does, unless a limit ends the reading of the first. It may recover from
more errors. -/
def Outlasts (p p' : Parser α) : Prop :=
  ∀ c s n, c.maxRecoveredErrors ≤ n → Meets p c s
    (fun a s' => p' { c with maxRecoveredErrors := n } s = .ok a s')
    fun e s' => e.IsLimit ∨ p' { c with maxRecoveredErrors := n } s = .error e s'

lemma outlasts_of_eq (h : ∀ c s n, p { c with maxRecoveredErrors := n } s = p c s) : Outlasts p p := by
  intro c s n _
  unfold Meets
  split
  · exact (h c s n).trans ‹_›
  · exact .inr ((h c s n).trans ‹_›)

lemma Outlasts.bind (hp : Outlasts p p') (hq : ∀ a, Outlasts (q a) (q' a)) : Outlasts (p >>= q) (p' >>= q') := by
  intro c s n hn
  refine meets_bind ((hp c s n hn).mono (fun a s' ha => ?_) fun e s' he => ?_)
  · simpa only [run_bind, ha] using hq a c s' n hn
  · exact he.imp_right fun he => by simp only [run_bind, he]

/-- A reader recovers as one with wider limits does, or it gives up. -/
lemma outlasts_recoverFrom (start : State) (ending : ListEnd) (e : ParseError) :
    Outlasts (recoverFrom start ending e) (recoverFrom start ending e) := by
  refine Outlasts.bind (outlasts_of_eq fun _ _ _ => rfl) fun _ c s n hn => ?_
  refine meets_step run_read (meets_step run_get ?_)
  split
  next => exact .inl (.inr rfl)
  next hmost =>
    have hwide : ¬ n < s.recovered.length := by omega
    simp only [run_bind, run_read, run_get, if_neg hwide]
    rfl

lemma outlasts_listedStatement {rules rules' : Rules} (ending : ListEnd)
    (h : Outlasts (rules .statement) (rules' .statement)) :
    Outlasts (listedStatement rules ending) (listedStatement rules' ending) := by
  refine Outlasts.bind (outlasts_of_eq fun _ _ _ => rfl) fun start c s n hn => ?_
  simp only [run_tryCatch]
  refine meets_tryCatch ((h c s n hn).mono (fun a s' ha => by rw [ha]) fun e s' he => ?_)
  refine meets_step run_read ?_
  obtain he | he := he
  · rw [if_neg (by simp [he.not_isRecoverable])]
    exact .inl he
  · simp only [he, run_bind, run_read]
    split
    · exact outlasts_recoverFrom start ending e c s' n hn
    · exact .inr rfl

/-- The whole grammar keeps what wider limits do. -/
theorem outlasts_congruence : Congruence @Outlasts where
  bind := Outlasts.bind
  read hq := fun c s n hn => hq c { c with maxRecoveredErrors := n } rfl c s n hn
  inFunction hp := fun c s n hn => hp { c with inFunction := true, inAsync := _, inGenerator := _ } s n hn
  listedStatement := outlasts_listedStatement
  fail _ := outlasts_of_eq fun _ _ _ => rfl
  advance := outlasts_of_eq fun _ _ _ => advance_congr _ _ _
  drainComments := outlasts_of_eq fun _ _ _ => rfl
  get := outlasts_of_eq fun _ _ _ => rfl
  pure _ := outlasts_of_eq fun _ _ _ => rfl

end Outlasts

/-! ### Readers that recover -/

section Agrees

variable {α β : Type} {p p' : Parser α} {q q' : α → Parser β}

/-- The reader fails, or it has recovered from something. -/
def Recovers (p : Parser α) (c : Context) (s : State) : Prop :=
  Meets p c s (fun _ s' => s'.recovered ≠ []) fun _ _ => True

lemma Recovers.bind {c : Context} {s : State} (hp : Recovers p c s)
    (hq : ∀ a s, s.recovered ≠ [] → Recovers (q a) c s) : Recovers (p >>= q) c s :=
  meets_bind (hp.mono (fun a s' => hq a s') fun _ _ => id)

/-- The second reader, which recovers, answers what the first one does, which is strict. Where the first one fails, the
second one fails or recovers, and it does not forget that. -/
structure Agrees (p p' : Parser α) : Prop where
  answers (c : Context) (s : State) (n : Int) (hstrict : c.recover = false) : Meets p c s
    (fun a s' => p' { c with recover := true, maxRecoveredErrors := n } s = .ok a s' ∧ s'.recovered = s.recovered)
    fun _ _ => Recovers p' { c with recover := true, maxRecoveredErrors := n } s
  recovers (c : Context) (s : State) (hs : s.recovered ≠ []) : Recovers p' c s

lemma agrees_of_eq (h : ∀ c s n, p { c with recover := true, maxRecoveredErrors := n } s = p c s)
    (hkeeps : ∀ c s, Meets p c s (fun _ s' => s'.recovered = s.recovered) fun _ _ => True) : Agrees p p where
  answers c s n _ := by
    have hkept := hkeeps c s
    unfold Recovers Meets at *
    rw [h]
    split <;> simp_all
  recovers c s hs := (hkeeps c s).mono (fun _ _ hkept => hkept ▸ hs) fun _ _ => id

lemma Agrees.bind (hp : Agrees p p') (hq : ∀ a, Agrees (q a) (q' a)) : Agrees (p >>= q) (p' >>= q') where
  answers c s n hstrict := by
    refine meets_bind ((hp.answers c s n hstrict).mono (fun a s' ⟨ha, hkept⟩ => ?_) fun e s' he => ?_)
    · simpa only [Recovers, Meets, run_bind, ha, ← hkept] using (hq a).answers c s' n hstrict
    · exact he.bind fun a => (hq a).recovers _
  recovers c s hs := (hp.recovers c s hs).bind fun a => (hq a).recovers c

/-- In a list a faulty statement is recovered from. -/
lemma Recovers.listed {c : Context} {s start : State} {p : Parser Tree} (ending : ListEnd) (h : Recovers p c s) :
    Recovers (tryCatch p fun e => do
      if (← MonadReader.read).recover && e.isRecoverable then recoverFrom start ending e else throw e) c s := by
  refine meets_tryCatch (h.mono (fun _ _ => id) fun e s' _ => meets_step run_read ?_)
  split
  · exact recoverFrom_recovered start ending e c s'
  · trivial

lemma agrees_listedStatement {rules rules' : Rules} (ending : ListEnd)
    (h : Agrees (rules .statement) (rules' .statement)) :
    Agrees (listedStatement rules ending) (listedStatement rules' ending) := by
  refine Agrees.bind (agrees_of_eq (fun _ _ _ => rfl) fun _ _ => rfl) fun start => ⟨fun c s n hstrict => ?_, ?_⟩
  · refine meets_tryCatch ((h.answers c s n hstrict).mono (fun a s' ⟨ha, hkept⟩ => ?_) fun e s' he => ?_)
    · exact ⟨by rw [run_tryCatch, ha], hkept⟩
    · refine meets_step run_read ?_
      rw [if_neg (by simp [hstrict])]
      exact he.listed ending
  · exact fun c s hs => (h.recovers c s hs).listed ending

/-- The whole grammar keeps what a reader that recovers does. -/
theorem agrees_congruence : Congruence @Agrees where
  bind := Agrees.bind
  read hq := ⟨fun c s n => (hq c { c with recover := true, maxRecoveredErrors := n } rfl).answers c s n,
    fun c s => (hq c c rfl).recovers c s⟩
  inFunction hp := ⟨fun c s n hstrict =>
      hp.answers { c with inFunction := true, inAsync := _, inGenerator := _ } s n hstrict,
    fun c s => hp.recovers { c with inFunction := true, inAsync := _, inGenerator := _ } s⟩
  listedStatement := agrees_listedStatement
  fail _ := agrees_of_eq (fun _ _ _ => rfl) fun _ _ => trivial
  advance := agrees_of_eq (fun _ _ _ => advance_congr _ _ _) fun c s => by
    simp only [Meets, advance, run_bind, run_get]
    cases s.later <;> rfl
  drainComments := agrees_of_eq (fun _ _ _ => rfl) fun _ _ => rfl
  get := agrees_of_eq (fun _ _ _ => rfl) fun _ _ => rfl
  pure _ := agrees_of_eq (fun _ _ _ => rfl) fun _ _ => rfl

end Agrees

end Grammar

open Grammar

/-! ### Scripts -/

variable {source : Text} {options : ParseOptions} {n d : Int}

/-- With wider limits a source is read as it was, unless a limit ended its reading. -/
lemma parse_wider (source : Text) (hn : options.maxRecoveredErrors ≤ n) (hd : options.maxDepth ≤ d) :
    (∃ e, parse source options = .error e ∧ e.IsLimit) ∨
      parse source { options with maxRecoveredErrors := n, maxDepth := d } = parse source options := by
  cases htokens : tokenize source with
  | error e => exact .inr (by rw [parse_lexical _ htokens, parse_lexical _ htokens])
  | ok tokens =>
  cases hbrackets : bracketFault? [] tokens with
  | some e => exact .inr (by rw [parse_brackets _ htokens hbrackets, parse_brackets _ htokens hbrackets])
  | none =>
  obtain ⟨k, hk⟩ : ∃ k, d.toNat = k + options.maxDepth.toNat := ⟨d.toNat - options.maxDepth.toNat, by omega⟩
  have hrules := outlasts_congruence.rulesUpTo (k := k) (fun _ _ _ _ _ => .inl (.inl rfl)) options.maxDepth.toNat
  have hscript := outlasts_congruence.script hrules
    { source, recover := options.recover, maxRecoveredErrors := options.maxRecoveredErrors } (startOf tokens) n hn
  rw [parse_eq htokens hbrackets, parse_eq htokens hbrackets]
  dsimp only at hscript ⊢
  rw [hk]
  unfold Meets at hscript
  split at hscript
  next tree final hrun => exact .inr (by rw [hrun, hscript])
  next e final hrun =>
    obtain hlimit | hsame := hscript
    · exact .inl ⟨e, by rw [hrun], hlimit⟩
    · exact .inr (by rw [hrun, hsame])

/-- What is read strictly is what is read when nothing is recovered from. -/
lemma parse_strict_iff {tree : Tree} :
    (∃ diagnostics, parse source { options with recover := false } = .ok ⟨tree, diagnostics⟩) ↔
      parse source { options with recover := true, maxRecoveredErrors := n } = .ok ⟨tree, []⟩ := by
  cases htokens : tokenize source with
  | error e => simp [parse_lexical _ htokens]
  | ok tokens =>
  cases hbrackets : bracketFault? [] tokens with
  | some e => simp [parse_brackets _ htokens hbrackets]
  | none =>
  have hrules := agrees_congruence.rulesUpTo (k := 0) (fun _ => agrees_congruence.fail _) options.maxDepth.toNat
  have hscript := (agrees_congruence.script hrules).answers
    { source, recover := false, maxRecoveredErrors := options.maxRecoveredErrors } (startOf tokens) n rfl
  simp only [parse_eq htokens hbrackets]
  rw [Nat.zero_add] at hscript
  unfold Meets at hscript
  split at hscript
  next found final hrun =>
    obtain ⟨hsame, hkept⟩ := hscript
    have hnothing : final.recovered = [] := hkept
    simp [hrun, hsame, hnothing]
  next e final hrun =>
    rw [hrun]
    unfold Recovers Meets at hscript
    split at hscript
    next found after hrecovering => simp [hrecovering, hscript]
    next e' after hrecovering => simp [hrecovering]

/-- Limits only end readings. What is read with some limits is read with wider ones, with the same errors recovered
from, and an error that is none of the limits stays, too. A strict reader answers a tree just where a reader that
recovers answers it without a recovery. -/
theorem parse_limits_only_cut (source : Text) :
    (∀ (options : ParseOptions) (n d : Int), options.maxRecoveredErrors ≤ n → options.maxDepth ≤ d →
      (∀ script, parse source options = .ok script →
        parse source { options with maxRecoveredErrors := n, maxDepth := d } = .ok script) ∧
      ∀ e, parse source options = .error e → ¬ e.IsLimit →
        parse source { options with maxRecoveredErrors := n, maxDepth := d } = .error e) ∧
    ∀ (options : ParseOptions) (n : Int) (tree : Tree),
      (∃ diagnostics, parse source { options with recover := false } = .ok ⟨tree, diagnostics⟩) ↔
        parse source { options with recover := true, maxRecoveredErrors := n } = .ok ⟨tree, []⟩ := by
  refine ⟨fun options n d hn hd => ⟨fun script hscript => ?_, fun e he hlimit => ?_⟩,
    fun options n tree => parse_strict_iff⟩
  · obtain ⟨e, he, -⟩ | hsame := parse_wider source hn hd
    · cases hscript.symm.trans he
    · exact hsame.trans hscript
  · obtain ⟨e', he', hcut⟩ | hsame := parse_wider source hn hd
    · obtain rfl := Except.error.inj (he.symm.trans he')
      exact absurd hcut hlimit
    · exact hsame.trans he

/-- A call with a fault in its arguments, and one without. -/
def faultyCall : Text := "f(a b); g();"

/-- One error may be recovered from and five levels are enough, so that more of both make no difference. The call behind
the faulty one is read the same in both ways. -/
theorem parse_limits_only_cut_faultyCall :
    (∃ script, parse faultyCall { maxRecoveredErrors := 1, maxDepth := 5 } = .ok script ∧ script.diagnostics ≠ [] ∧
      parse faultyCall { maxRecoveredErrors := 64, maxDepth := 512 } = .ok script) ∧
    (∃ e, parse faultyCall { recover := false, maxDepth := 5 } = .error e ∧ ¬ e.IsLimit ∧
      parse faultyCall { recover := false, maxDepth := 512 } = .error e) ∧
    ∃ tree, parse (faultyCall.drop 8) { recover := true, maxRecoveredErrors := 0 } = .ok ⟨tree, []⟩ := by
  obtain ⟨hwider, -⟩ := parse_limits_only_cut faultyCall
  obtain ⟨-, hmode⟩ := parse_limits_only_cut (faultyCall.drop 8)
  refine ⟨?_, ?_, ?_⟩
  · have hread : ∃ script, parse faultyCall { maxRecoveredErrors := 1, maxDepth := 5 } = .ok script ∧
        script.diagnostics ≠ [] := exists_of_parse (by decide +kernel)
    obtain ⟨script, hparse, hnonempty⟩ := hread
    have hmore := (hwider { maxRecoveredErrors := 1, maxDepth := 5 } 64 512 (by decide) (by decide)).1 script hparse
    exact ⟨script, hparse, hnonempty, hmore⟩
  · have hfails : (match parse faultyCall { recover := false, maxDepth := 5 } with
        | .ok _ => false
        | .error e => e.fault != .tooDeep && e.fault != .tooManyErrors) = true := by decide +kernel
    cases hparse : parse faultyCall { recover := false, maxDepth := 5 } with
    | ok script => simp [hparse] at hfails
    | error e =>
      have hlimit : ¬ e.IsLimit := by simpa [hparse, ParseError.IsLimit] using hfails
      have hmore := (hwider { recover := false, maxDepth := 5 } 64 512 (by decide) (by decide)).2 e hparse hlimit
      exact ⟨e, rfl, hlimit, hmore⟩
  · have hstrict : ∃ script, parse (faultyCall.drop 8) { recover := false } = .ok script ∧ True :=
      exists_of_parse (by decide +kernel)
    obtain ⟨script, hparse, -⟩ := hstrict
    exact ⟨script.tree, (hmode {} 0 script.tree).mp ⟨script.diagnostics, hparse⟩⟩

end PlainScript
