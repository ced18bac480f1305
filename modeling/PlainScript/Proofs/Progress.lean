import Mathlib.Algebra.Group.Nat.Defs
import PlainScript.Proofs.Stream

/-! What reading a rule takes. A rule that reads something takes at least one token, and one that fails
leaves a fault that a list of statements can recover from, unless a limit of the reader was reached.
Every recovery skips a token, and nothing is recovered before the first token of a rule is taken, so
the tokens that are left bound the number of recoveries. -/
namespace PlainScript.Grammar

namespace State

/-- How many tokens there are behind the current one. -/
def left (s : State) : Nat := s.later.length

/-- The last token is the end of the file. -/
def Ended (s : State) : Prop := (s.later.getLastD s.current).isEnd = true

/-- What was read and recovered from `s` to `s'`, where at most `limit` tokens were to be read. -/
structure Within (s : State) (limit : Nat) (s' : State) : Prop where
  ended : s'.Ended
  left_le : s'.left ≤ limit
  recovered_le : s'.recovered.length + 2 ^ s'.left ≤ s.recovered.length + 2 ^ limit

variable {s s' s'' : State} {m n : Nat}

lemma left_pos (h : s.Ended) (hend : s.current.isEnd = false) : 0 < s.left := by
  cases hs : s.later with
  | nil => simp [Ended, hs, hend] at h
  | cons => simp [left, hs]

lemma ended_iff : s.Ended ↔ (s.current :: s.later).getLast?.any Token.isEnd = true := by
  simp [Ended, List.getLast?_cons]

lemma Ended.drop (hs : s.Ended) (hn : n ≤ s.left)
    (hcurrent : s'.current = ((s.current :: s.later).drop n).headD s.current)
    (hlater : s'.later = (s.current :: s.later).drop (n + 1)) : s'.Ended ∧ s'.left = s.left - n := by
  refine ⟨?_, by simp [left, hlater]⟩
  have hsplit : (s.current :: s.later).drop n = s'.current :: s'.later := by
    rw [hcurrent, hlater, ← List.tail_drop]
    cases h : (s.current :: s.later).drop n with
    | nil => simp [left] at h hn; omega
    | cons => rfl
  rw [ended_iff] at hs ⊢
  rwa [← hsplit, List.getLast?_drop, if_neg (by simp [left] at hn ⊢; omega)]

namespace Within

lemma refl (h : s.Ended) : s.Within s.left s := ⟨h, Nat.le_refl _, Nat.le_refl _⟩

lemma mono (h : s.Within m s') (hle : m ≤ n) : s.Within n s' := by
  have := Nat.pow_le_pow_right (n := 2) (by decide) hle
  exact ⟨h.ended, Nat.le_trans h.left_le hle, by have := h.recovered_le; omega⟩

lemma trans (h : s.Within m s') (h' : s'.Within s'.left s'') : s.Within m s'' :=
  ⟨h'.ended, Nat.le_trans h'.left_le h.left_le, Nat.le_trans h'.recovered_le h.recovered_le⟩

/-- Reading may go on at any later token, with as many recoveries as one token less allows. -/
lemma drop (hs : s.Ended) (hpos : 0 < n) (hn : n ≤ s.left)
    (hcurrent : s'.current = ((s.current :: s.later).drop n).headD s.current)
    (hlater : s'.later = (s.current :: s.later).drop (n + 1))
    (hrecovered : s'.recovered.length ≤ s.recovered.length + 2 ^ (s.left - 1)) :
    s'.left < s.left ∧ s.Within s.left s' := by
  obtain ⟨hended, hleft⟩ := hs.drop hn hcurrent hlater
  have hpow : 2 ^ s.left = 2 ^ (s.left - 1) + 2 ^ (s.left - 1) := by
    rw [← Nat.two_mul, ← Nat.pow_succ', Nat.succ_eq_add_one, Nat.sub_add_cancel (by omega)]
  have hless : 2 ^ s'.left ≤ 2 ^ (s.left - 1) := Nat.pow_le_pow_right (by decide) (by omega)
  exact ⟨by omega, hended, by omega, by omega⟩

end Within

end State

/-- Why a rule failed that had the rules for `d` levels. It needs `need` levels besides three for each
token that is left. -/
structure Fails (d need : Nat) (c : Context) (s : State) (limit : Nat) (e : ParseError)
    (s' : State) : Prop where
  recovered_lt : s'.recovered.length < s.recovered.length + 2 ^ limit
  cause : e.isRecoverable = true ∨ e.fault = .tooDeep ∧ d < 3 * s.left + need ∨
    e.fault = .tooManyErrors ∧ c.maxRecoveredErrors < s'.recovered.length

namespace Fails

variable {d k l : Nat} {c : Context} {s s' s'' : State} {m n : Nat} {e : ParseError}

lemma mono (h : Fails d k c s m e s') (hneed : k ≤ l) (hle : m ≤ n) : Fails d l c s n e s' := by
  have := Nat.pow_le_pow_right (n := 2) (by decide) hle
  exact ⟨by have := h.recovered_lt; omega,
    h.cause.imp_right (Or.imp_left fun ⟨hf, hd⟩ => ⟨hf, by omega⟩)⟩

/-- A failure after something was read. -/
lemma after (hs : s.Within m s') (h : Fails d k c s' s'.left e s'')
    (hneed : 3 * s'.left + k ≤ 3 * s.left + l) : Fails d l c s m e s'' := by
  refine ⟨?_, h.cause.imp_right (Or.imp_left fun ⟨hf, hd⟩ => ⟨hf, by omega⟩)⟩
  have := h.recovered_lt
  have := hs.recovered_le
  omega

lemma of_recoverable (h : e.isRecoverable = true) : Fails d k c s m e s :=
  ⟨Nat.lt_add_of_pos_right (Nat.pow_pos (by decide)), .inl h⟩

end Fails

/-- What a rule answers, and what it fails with. -/
def Meets {α : Type} (p : Parser α) (c : Context) (s : State) (okay : α → State → Prop)
    (failed : ParseError → State → Prop) : Prop :=
  match p c s with
  | .ok a s' => okay a s'
  | .error e s' => failed e s'

section Meets

variable {α β : Type} {p : Parser α} {c : Context} {s : State} {okay okay' : α → State → Prop}
  {failed failed' : ParseError → State → Prop}

lemma meets_bind {q : α → Parser β} {Q : β → State → Prop}
    (h : Meets p c s (fun a s' => Meets (q a) c s' Q failed) failed) :
    Meets (p >>= q) c s Q failed := by
  unfold Meets at h ⊢
  rw [run_bind]
  split at h <;> simp_all

lemma meets_step {q : α → Parser β} {a : α} {s' : State} {Q : β → State → Prop}
    (hrun : p c s = .ok a s') (h : Meets (q a) c s' Q failed) :
    Meets (p >>= q) c s Q failed := meets_bind (by simpa only [Meets, hrun] using h)

lemma meets_tryCatch {handle : ParseError → Parser α}
    (h : Meets p c s okay fun e s' => Meets (handle e) c s' okay failed) :
    Meets (tryCatch p handle) c s okay failed := by
  unfold Meets at h ⊢
  rw [run_tryCatch]
  split at h <;> simp_all

lemma Meets.and (h : Meets p c s okay failed) (h' : Meets p c s okay' failed') :
    Meets p c s (fun a s' => okay a s' ∧ okay' a s') fun e s' => failed e s' ∧ failed' e s' := by
  unfold Meets at h h' ⊢
  split at h <;> simp_all

lemma Meets.mono (h : Meets p c s okay failed) (hokay : ∀ a s', okay a s' → okay' a s')
    (hfailed : ∀ e s', failed e s' → failed' e s') : Meets p c s okay' failed' := by
  unfold Meets at h ⊢
  split at h
  · exact hokay _ _ h
  · exact hfailed _ _ h

end Meets

/-! ### Rules that take tokens -/

section Rules

variable {α β : Type} {d k : Nat} {t : Token} {P : α → Prop} {Q : β → Prop}
  {p : Parser α} {q : α → Parser β}

/-- At the token `t`, the rule takes at least one token. -/
def ReadsAt (t : Token) (d need : Nat) (P : α → Prop) (p : Parser α) : Prop :=
  ∀ c s, s.Ended → s.current = t → Meets p c s
    (fun a s' => P a ∧ 0 < s.left ∧ s.Within (s.left - 1) s') (Fails d need c s (s.left - 1))

/-- The rule takes at least one token. -/
def Reads (d need : Nat) (P : α → Prop) (p : Parser α) : Prop := ∀ t, ReadsAt t d need P p

/-- The rule takes tokens, or nothing happens. -/
def Looks (d need : Nat) (P : α → Prop) (p : Parser α) : Prop :=
  ∀ c s, s.Ended → Meets p c s
    (fun a s' => P a ∧ (s'.Ended ∧ s'.left = s.left ∧ s'.recovered = s.recovered ∨
      0 < s.left ∧ s.Within (s.left - 1) s')) (Fails d need c s (s.left - 1))

/-- The rule takes any number of tokens, and statements may be recovered before it takes one. -/
def Goes (d : Nat) (P : α → Prop) (p : Parser α) : Prop :=
  ∀ c s, s.Ended → Meets p c s (fun a s' => P a ∧ s.Within s.left s') (Fails d 3 c s s.left)

lemma Reads.looks (h : Reads d k P p) : Looks d k P p := fun c s hs =>
  (h _ c s hs rfl).mono (fun _ _ h => ⟨h.1, .inr h.2⟩) fun _ _ => id

lemma Looks.goes (h : Looks d k P p) (hk : k ≤ 3) : Goes d P p := fun c s hs =>
  (h c s hs).mono
    (fun _ s' h => ⟨h.1, h.2.elim
      (fun ⟨he, hl, hr⟩ => ⟨he, Nat.le_of_eq hl, by rw [hl, hr]⟩)
      fun ⟨_, hw⟩ => hw.mono (Nat.sub_le ..)⟩)
    fun _ _ h => h.mono hk (Nat.sub_le ..)

lemma Reads.goes (h : Reads d k P p) (hk : k ≤ 3) : Goes d P p := h.looks.goes hk

lemma ReadsAt.mono {P' : α → Prop} {l : Nat} (h : ReadsAt t d k P p)
    (hP : ∀ a, P a → P' a) (hk : k ≤ l) : ReadsAt t d l P' p := fun c s hs ht =>
  (h c s hs ht).mono (fun _ _ h => ⟨hP _ h.1, h.2⟩) fun _ _ h => h.mono hk (Nat.le_refl _)

lemma Reads.mono {P' : α → Prop} {l : Nat} (h : Reads d k P p)
    (hP : ∀ a, P a → P' a) (hk : k ≤ l) : Reads d l P' p := fun t =>
  (h t).mono hP hk

lemma Goes.mono {P' : α → Prop} (h : Goes d P p) (hP : ∀ a, P a → P' a) :
    Goes d P' p := fun c s hs =>
  (h c s hs).mono (fun _ _ h => ⟨hP _ h.1, h.2⟩) fun _ _ => id

/-- What follows the first token may go on in any way. -/
lemma ReadsAt.bind (h : ReadsAt t d k P p) (hq : ∀ a, P a → Goes d Q (q a)) :
    ReadsAt t d k Q (p >>= q) := fun c s hs ht => meets_bind <|
  (h c s hs ht).mono (fun a s' ⟨ha, hpos, hw⟩ =>
    (hq a ha c s' hw.ended).mono (fun _ _ hb => ⟨hb.1, hpos, hw.trans hb.2⟩)
      fun _ _ he => he.after hw (by have := hw.left_le; omega)) fun _ _ => id

lemma ReadsAt.ite {b : Bool} {p q : Parser α} (hp : b = true → ReadsAt t d k P p)
    (hq : b = false → ReadsAt t d k P q) : ReadsAt t d k P (if b = true then p else q) := by
  cases b with
  | true => exact hp rfl
  | false => exact hq rfl

lemma Reads.bind (h : Reads d k P p) (hq : ∀ a, P a → Goes d Q (q a)) :
    Reads d k Q (p >>= q) := fun t => (h t).bind hq

lemma Goes.bind (h : Goes d P p) (hq : ∀ a, P a → Goes d Q (q a)) :
    Goes d Q (p >>= q) := fun c s hs => meets_bind <|
  (h c s hs).mono (fun a s' ⟨ha, hw⟩ =>
    (hq a ha c s' hw.ended).mono (fun _ _ hb => ⟨hb.1, hw.trans hb.2⟩)
      fun _ _ he => he.after hw (by have := hw.left_le; omega)) fun _ _ => id

/-- A token that is taken later is still taken. -/
lemma Looks.bind_reads (h : Looks d k P p) (hk : k ≤ 3) (hq : ∀ a, P a → Reads d k Q (q a)) :
    Reads d k Q (p >>= q) := fun t c s hs ht => meets_bind <|
  (h c s hs).mono (fun a s' ⟨ha, hor⟩ => by
    rcases hor with ⟨he, hl, hr⟩ | ⟨hpos, hw⟩
    · refine ((hq a ha) _ c s' he rfl).mono (fun b s'' hb => ?_) fun e s'' hf => ?_
      · rw [hl] at hb
        exact ⟨hb.1, hb.2.1, hb.2.2.ended, hb.2.2.left_le, hr ▸ hb.2.2.recovered_le⟩
      · rw [hl] at hf
        exact ⟨hr ▸ hf.recovered_lt, hl ▸ hf.cause⟩
    · exact ((hq a ha).goes hk c s' hw.ended).mono (fun _ _ hb => ⟨hb.1, hpos, hw.trans hb.2⟩)
        fun _ _ he => he.after hw (by have := hw.left_le; omega)) fun _ _ => id

lemma Looks.bind (h : Looks d k P p) (hk : k ≤ 3) (hq : ∀ a, P a → Looks d k Q (q a)) :
    Looks d k Q (p >>= q) := fun c s hs => meets_bind <|
  (h c s hs).mono (fun a s' ⟨ha, hor⟩ => by
    rcases hor with ⟨he, hl, hr⟩ | ⟨hpos, hw⟩
    · refine ((hq a ha) c s' he).mono (fun b s'' hb => ?_) fun e s'' hf => ?_
      · rw [hl, hr] at hb
        exact ⟨hb.1, hb.2.imp_right fun ⟨hpos, hw⟩ =>
          ⟨hpos, hw.ended, hw.left_le, hr ▸ hw.recovered_le⟩⟩
      · rw [hl] at hf
        exact ⟨hr ▸ hf.recovered_lt, hl ▸ hf.cause⟩
    · exact ((hq a ha).goes hk c s' hw.ended).mono
        (fun _ _ hb => ⟨hb.1, .inr ⟨hpos, hw.trans hb.2⟩⟩)
        fun _ _ he => he.after hw (by have := hw.left_le; omega)) fun _ _ => id

end Rules

/-! ### Questions -/

section Asks

variable {α β : Type} {d k : Nat} {t : Token} {Q : β → Prop} {p : Parser α} {q : α → Parser β}

/-- The rule only looks at what is there. -/
def Asks (p : Parser α) : Prop := ∀ c s, ∃ a, p c s = .ok a s

lemma Asks.bind_readsAt (h : Asks p) (hq : ∀ a, ReadsAt t d k Q (q a)) :
    ReadsAt t d k Q (p >>= q) := fun c s hs ht => meets_bind <| by
  obtain ⟨a, ha⟩ := h c s
  simpa only [Meets, ha] using hq a c s hs ht

lemma Asks.bind_reads (h : Asks p) (hq : ∀ a, Reads d k Q (q a)) : Reads d k Q (p >>= q) :=
  fun t => h.bind_readsAt fun a => hq a t

lemma Asks.looks (h : Asks p) : Looks d k (fun _ => True) p := fun c s hs => by
  obtain ⟨a, ha⟩ := h c s
  rw [Meets, ha]
  exact ⟨trivial, .inl ⟨hs, rfl, rfl⟩⟩

lemma Asks.bind_goes (h : Asks p) (hq : ∀ a, Goes d Q (q a)) : Goes d Q (p >>= q) :=
  (h.looks.goes (Nat.zero_le 3)).bind fun a _ => hq a

lemma Asks.bind_looks (h : Asks p) (hk : k ≤ 3) (hq : ∀ a, Looks d k Q (q a)) :
    Looks d k Q (p >>= q) := h.looks.bind hk fun a _ => hq a

lemma Asks.bind (h : Asks p) (hq : ∀ a, Asks (q a)) : Asks (p >>= q) := fun c s => by
  obtain ⟨a, ha⟩ := h c s
  obtain ⟨b, hb⟩ := hq a c s
  exact ⟨b, by rw [run_bind, ha]; exact hb⟩

lemma asks_here : Asks here := fun _ _ => ⟨_, rfl⟩
lemma asks_current : Asks current := fun _ _ => ⟨_, rfl⟩
lemma asks_ahead (n : Nat) : Asks (ahead n) := fun _ _ => ⟨_, rfl⟩
lemma asks_tokensLeft : Asks tokensLeft := fun _ _ => ⟨_, rfl⟩
lemma asks_atPunct (p : Text) : Asks (atPunct p) := fun _ _ => ⟨_, rfl⟩
lemma asks_atWord (w : Text) : Asks (atWord w) := fun _ _ => ⟨_, rfl⟩
lemma asks_atName (n : Text) : Asks (atName n) := fun _ _ => ⟨_, rfl⟩
lemma asks_read : Asks (MonadReader.read : Parser Context) := fun _ _ => ⟨_, rfl⟩
lemma asks_get : Asks (get : Parser State) := fun _ _ => ⟨_, rfl⟩
lemma asks_pure (a : α) : Asks (pure a : Parser α) := fun _ _ => ⟨_, rfl⟩

/-- The token that is asked for is the one the rule is at. -/
lemma readsAt_current {q : Token → Parser β} (h : ReadsAt t d k Q (q t)) :
    ReadsAt t d k Q (current >>= q) := fun c s hs ht =>
  meets_bind (by subst ht; exact h c s hs rfl)

lemma reads_current {q : Token → Parser β} (h : ∀ t, ReadsAt t d k Q (q t)) :
    Reads d k Q (current >>= q) := fun t => readsAt_current (h t)

lemma readsAt_atPunct {w : Text} {q : Bool → Parser β}
    (h : ReadsAt t d k Q (q (t.isPunctuator w))) : ReadsAt t d k Q (atPunct w >>= q) :=
  fun c s hs ht => meets_bind (by subst ht; exact h c s hs rfl)

lemma readsAt_atWord {w : Text} {q : Bool → Parser β} (h : ReadsAt t d k Q (q (t.isKeyword w))) :
    ReadsAt t d k Q (atWord w >>= q) :=
  fun c s hs ht => meets_bind (by subst ht; exact h c s hs rfl)

lemma readsAt_atName {w : Text} {q : Bool → Parser β} (h : ReadsAt t d k Q (q (t.isName w))) :
    ReadsAt t d k Q (atName w >>= q) :=
  fun c s hs ht => meets_bind (by subst ht; exact h c s hs rfl)

end Asks

/-! ### Single tokens -/

section Tokens

variable {α : Type} {d k : Nat} {t : Token} {P : α → Prop}

lemma goes_pure {a : α} (h : P a) : Goes d P (pure a : Parser α) :=
  fun _ _ hs => ⟨h, .refl hs⟩

lemma looks_pure {a : α} (h : P a) : Looks d k P (pure a : Parser α) :=
  fun _ _ hs => ⟨h, .inl ⟨hs, rfl, rfl⟩⟩

lemma reads_fail {fault : ParseFault} (h : fault.isRecoverable = true) :
    Reads d k P (fail fault : Parser α) :=
  fun _ _ _ _ _ => Fails.of_recoverable h

/-- What follows a fault is not reached. -/
lemma reads_fail_bind {β : Type} {q : β → Parser α} {fault : ParseFault}
    (h : fault.isRecoverable = true) : Reads d k P (fail fault >>= q) :=
  fun t => ReadsAt.bind (reads_fail (P := fun _ => False) h t) fun _ hf => hf.elim

lemma reads_unexpected : Reads d k P (unexpected : Parser α) := by
  refine reads_current fun t => ?_
  split <;> exact reads_fail rfl t

/-- What happens when a token is passed. -/
lemma advance_meets (c : Context) {s : State} (hs : s.Ended) :
    ∃ s', advance c s = .ok s.current s' ∧ s'.recovered = s.recovered ∧ s'.Ended ∧
      (s'.left = s.left ∧ s.current.isEnd = true ∨ 0 < s.left ∧ s'.left = s.left - 1) := by
  cases hl : s.later with
  | nil =>
    refine ⟨s, ?_, rfl, hs, .inl ⟨rfl, by simpa [State.Ended, hl] using hs⟩⟩
    simp only [advance, run_bind, run_get, hl, run_pure]
  | cons u rest =>
    refine ⟨{ s with current := u, later := rest, pending := s.pending ++ u.comments }, ?_, rfl, ?_,
      .inr ⟨by simp [State.left, hl], by simp [State.left, hl]⟩⟩
    · simp only [advance, run_bind, run_get, hl, run_pure]
      rfl
    · simpa [State.Ended, hl, List.getLast?_cons] using hs

lemma looks_advance : Looks d k (fun _ => True) advance := fun c s hs => by
  obtain ⟨s', hrun, hr, he, ⟨hl, -⟩ | ⟨hpos, hl⟩⟩ := advance_meets c hs
  · simp only [Meets, hrun]
    exact ⟨trivial, .inl ⟨he, hl, hr⟩⟩
  · simp only [Meets, hrun]
    exact ⟨trivial, .inr ⟨hpos, he, Nat.le_of_eq hl, by rw [hl, hr]⟩⟩

/-- Before the end there is a token to pass. -/
lemma readsAt_advance (ht : t.isEnd = false) : ReadsAt t d k (· = t) advance := fun c s hs hcur => by
  obtain ⟨s', hrun, hr, he, ⟨-, hend⟩ | ⟨hpos, hl⟩⟩ := advance_meets c hs
  · simp [hcur, ht] at hend
  · simp only [Meets, hrun]
    exact ⟨hcur, hpos, he, Nat.le_of_eq hl, by rw [hl, hr]⟩

lemma goes_advance : Goes d (fun _ => True) advance := looks_advance.goes (Nat.zero_le 3)

lemma readsAt_skip (ht : t.isEnd = false) : ReadsAt t d k (fun _ => True) skip :=
  (readsAt_advance ht).bind fun _ _ => goes_pure trivial

lemma looks_skip (hk : k ≤ 3) : Looks d k (fun _ => True) skip :=
  looks_advance.bind hk fun _ _ => looks_pure trivial

lemma goes_skip : Goes d (fun _ => True) skip := goes_advance.bind fun _ _ => goes_pure trivial

lemma isEnd_of_isPunctuator {p : Text} (h : t.isPunctuator p = true) : t.isEnd = false := by
  simp_all [Token.isPunctuator, Token.isEnd]

lemma isEnd_of_isKeyword {w : Text} (h : t.isKeyword w = true) : t.isEnd = false := by
  simp_all [Token.isKeyword, Token.isEnd]

lemma isEnd_of_isName {w : Text} (h : t.isName w = true) : t.isEnd = false := by
  simp_all [Token.isName, Token.isEnd]

lemma isEnd_of_isIdentifier (h : t.isIdentifier = true) : t.isEnd = false := by
  simp_all [Token.isIdentifier, Token.isEnd]

/-- A punctuator that may stand here is passed, or nothing happens. -/
lemma readsAt_eat {w : Text} {q : Bool → Parser α} (htrue : Goes d P (q true))
    (hfalse : ReadsAt t d k P (q false)) : ReadsAt t d k P (eat w >>= q) := by
  have heat : eat w = (do if ← atPunct w then (do skip; pure true) else pure false) := rfl
  rw [heat, bind_assoc]
  refine readsAt_atPunct ?_
  cases hw : t.isPunctuator w with
  | true =>
    simp only [if_true, bind_assoc, pure_bind]
    exact (readsAt_skip (isEnd_of_isPunctuator hw)).bind fun _ _ => htrue
  | false => simpa only [Bool.false_eq_true, if_false, pure_bind] using hfalse

lemma reads_eat {w : Text} {q : Bool → Parser α} (htrue : Goes d P (q true))
    (hfalse : Reads d k P (q false)) : Reads d k P (eat w >>= q) :=
  fun t => readsAt_eat htrue (hfalse t)

lemma looks_eat (w : Text) (hk : k ≤ 3) : Looks d k (fun _ => True) (eat w) := by
  refine (asks_atPunct w).bind_looks hk fun b => ?_
  cases b with
  | true => exact (looks_skip hk).bind hk fun _ _ => looks_pure trivial
  | false => exact looks_pure trivial

lemma goes_eat (w : Text) : Goes d (fun _ => True) (eat w) :=
  (looks_eat w (Nat.zero_le 3)).goes (Nat.zero_le 3)

lemma reads_expect (w : Text) : Reads d k (fun _ => True) (expect w) :=
  reads_eat (goes_pure trivial) (reads_current fun _ => reads_fail rfl _)

lemma goes_expect (w : Text) : Goes d (fun _ => True) (expect w) :=
  (reads_expect w).goes (Nat.zero_le 3)

lemma reads_expectWord (w : Text) : Reads d k (fun _ => True) (expectWord w) := by
  intro t
  refine readsAt_atWord ?_
  cases hw : t.isKeyword w with
  | true => exact readsAt_skip (isEnd_of_isKeyword hw)
  | false => exact reads_fail_bind rfl t

lemma goes_expectWord (w : Text) : Goes d (fun _ => True) (expectWord w) :=
  (reads_expectWord w).goes (Nat.zero_le 3)

lemma goes_fail_bind {β : Type} {q : β → Parser α} {fault : ParseFault}
    (h : fault.isRecoverable = true) : Goes d P (fail fault >>= q) :=
  (reads_fail_bind h).goes (Nat.zero_le 3)

lemma goes_unexpected : Goes d P (unexpected : Parser α) := reads_unexpected.goes (Nat.zero_le 3)

lemma goes_semicolon : Goes d (fun _ => True) semicolon := by
  refine (goes_eat _).bind fun b _ => ?_
  cases b with
  | true => exact goes_pure trivial
  | false =>
    refine asks_current.bind_goes fun t => ?_
    split
    · exact goes_unexpected
    · exact goes_pure trivial

/-- The pending comments are no tokens. -/
lemma looks_drainComments : Looks d k (fun _ => True) drainComments :=
  fun _ _ hs => ⟨trivial, .inl ⟨hs, rfl, rfl⟩⟩

lemma goes_drainComments : Goes d (fun _ => True) drainComments :=
  looks_drainComments.goes (Nat.zero_le 3)

end Tokens

/-! ### Loops -/

section Loops

variable {α : Type} {d : Nat} {P : α → Prop}

lemma goes_repeatUntil {stop : Parser Bool} {item : Parser α} (hstop : Asks stop)
    (hitem : Goes d P item) : Goes d (∀ a ∈ ·, P a) (repeatUntil stop item) := by
  refine asks_tokensLeft.bind_goes fun n => ?_
  generalize n + 1 = fuel
  induction fuel with
  | zero => exact goes_unexpected
  | succ fuel ih =>
    refine hstop.bind_goes fun b => ?_
    cases b with
    | true => exact goes_pure (by simp)
    | false =>
      refine hitem.bind fun a ha => ih.bind fun as has => goes_pure ?_
      exact List.forall_mem_cons.mpr ⟨ha, has⟩

lemma goes_extend {step : α → Parser (Option α)} {start : α} (hstart : P start)
    (hstep : ∀ a, P a → Goes d (∀ b ∈ ·, P b) (step a)) : Goes d P (extend step start) := by
  refine asks_tokensLeft.bind_goes fun n => ?_
  generalize n + 1 = fuel
  induction fuel generalizing start with
  | zero => exact goes_unexpected
  | succ fuel ih =>
    refine (hstep start hstart).bind fun b hb => ?_
    cases b with
    | none => exact goes_pure hstart
    | some b => exact ih (hb b rfl)

lemma goes_commaList {closing : Text} {item : Parser α} (hitem : Goes d P item) :
    Goes d (∀ a ∈ ·, P a) (commaList closing item) := by
  refine goes_repeatUntil (asks_atPunct closing) (hitem.bind fun a ha => ?_)
  refine (asks_atPunct closing).bind_goes fun b => ?_
  cases b with
  | true => exact goes_pure ha
  | false => exact (goes_expect _).bind fun _ _ => goes_pure ha

lemma reads_inFunction {p : Parser α} {k : Nat} {isAsync isGenerator : Bool} (h : Reads d k P p) :
    Reads d k P (inFunction isAsync isGenerator p) := fun t c s hs ht =>
  (h t { c with inFunction := true, inAsync := isAsync, inGenerator := isGenerator } s hs ht).mono
    (fun _ _ => id) fun _ _ he => ⟨he.recovered_lt, he.cause⟩

lemma goes_inFunction {p : Parser α} {isAsync isGenerator : Bool} (h : Goes d P p) :
    Goes d P (inFunction isAsync isGenerator p) := fun c s hs =>
  (h { c with inFunction := true, inAsync := isAsync, inGenerator := isGenerator } s hs).mono
    (fun _ _ => id) fun _ _ he => ⟨he.recovered_lt, he.cause⟩

lemma ReadsAt.map {β : Type} {t : Token} {k : Nat} {p : Parser α} {f : α → β} {Q : β → Prop}
    (h : ReadsAt t d k P p) (hf : ∀ a, P a → Q (f a)) : ReadsAt t d k Q (f <$> p) := by
  rw [← bind_pure_comp]
  exact h.bind fun a ha => goes_pure (hf a ha)

lemma Goes.map {β : Type} {p : Parser α} {f : α → β} {Q : β → Prop} (h : Goes d P p)
    (hf : ∀ a, P a → Q (f a)) : Goes d Q (f <$> p) := by
  rw [← bind_pure_comp]
  exact h.bind fun a ha => goes_pure (hf a ha)

end Loops

end PlainScript.Grammar
