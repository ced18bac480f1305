import PlainScript.Grammar.Script
import PlainScript.Proofs.Layout
import Mathlib.Logic.Relation

/-! Rules at work on the tokens that are left. A loop of the grammar is a walk whose every round takes
at least one token, so the tokens left bound its length. -/
namespace PlainScript

open Print Relation

/-! ### Tokens that spell pieces -/

namespace Spells

variable {p : Piece} {ps qs : List Piece} {ts rest : List Lexeme}

lemma nil_iff : Spells [] ts rest ↔ ts = rest := by
  constructor
  · rintro ⟨⟩
    rfl
  · rintro rfl
    exact .nil ts

lemma cons_iff : Spells (p :: ps) ts rest ↔
    ∃ t us, ts = t :: us ∧ t.kind = p.kind ∧ t.text = p.text ∧
      (∀ q ∈ ps.head?, ∀ u ∈ us.head?, u.startsLine = q.margin.isLine) ∧ Spells ps us rest := by
  constructor
  · rintro (_ | ⟨hkind, htext, hlines, h⟩)
    exact ⟨_, _, rfl, hkind, htext, hlines, h⟩
  · rintro ⟨t, us, rfl, hkind, htext, hlines, h⟩
    exact .cons hkind htext hlines h

/-- A piece in a place of its own. -/
lemma single_iff : Spells [p] ts rest ↔ ∃ t, ts = t :: rest ∧ t.kind = p.kind ∧ t.text = p.text := by
  simp [cons_iff, nil_iff]

lemma append (h : Spells (ps ++ qs) ts rest) : ∃ mid, Spells ps ts mid ∧ Spells qs mid rest ∧
    (ps ≠ [] → ∀ q ∈ qs.head?, ∀ u ∈ mid.head?, u.startsLine = q.margin.isLine) := by
  induction ps generalizing ts with
  | nil => exact ⟨ts, .nil ts, h, fun hne => absurd rfl hne⟩
  | cons p ps ih =>
    obtain ⟨t, us, rfl, hkind, htext, hlines, h⟩ := cons_iff.mp h
    obtain ⟨mid, hps, hqs, hbetween⟩ := ih h
    cases ps with
    | nil =>
      obtain rfl := nil_iff.mp hps
      exact ⟨us, .cons hkind htext nofun (.nil us), hqs, fun _ => hlines⟩
    | cons p' ps => exact ⟨mid, .cons hkind htext hlines hps, hqs, fun _ => hbetween (List.cons_ne_nil _ _)⟩

lemma spaced_iff : Spells (spaced ps) ts rest ↔ Spells ps ts rest := by
  cases ps with
  | nil => rfl
  | cons p ps => simp only [spaced, cons_iff]

lemma length (h : Spells ps ts rest) : ts.length = ps.length + rest.length := by
  induction h with
  | nil => simp
  | cons _ _ _ _ ih =>
    simp only [List.length_cons, ih]
    omega

/-- The tokens of two operands and of what stands between them. -/
lemma joined (h : Spells (ps ++ spaced [p] ++ spaced qs) ts rest) :
    ∃ u us, Spells ps ts (u :: us) ∧ u.kind = p.kind ∧ u.text = p.text ∧ Spells qs us rest := by
  obtain ⟨us, hfront, hus, -⟩ := append h
  obtain ⟨mid, hps, hmid, -⟩ := append hfront
  obtain ⟨u, vs, rfl, hkind, htext, -, hvs⟩ := cons_iff.mp (spaced_iff.mp hmid)
  obtain rfl := nil_iff.mp hvs
  exact ⟨u, vs, hps, hkind, htext, spaced_iff.mp hus⟩

end Spells

/-! ### Where an expression goes on -/

/-- The loosest level of expressions that go on at a token, zero where every expression ends. -/
def reachOf (kind : TokenKind) (text : Text) : Nat :=
  match kind with
  | .template => Level.call
  | .keyword => operatorLevel text
  | .punctuator =>
    if text ∈ ([".", "[", "(", "?."] : List Text) then Level.call
    else if text ∈ updateOperators then Level.postfixed
    else if operatorLevel text ≠ 0 then operatorLevel text
    else if text = "?" then Level.conditional
    else if text ∈ Grammar.assignmentOperators then Level.assignment
    else if text = "," then Level.sequence
    else 0
  | _ => 0

namespace Lexeme

def reach (t : Lexeme) : Nat := reachOf t.kind t.text

variable {t : Lexeme}

lemma isPunctuator_of {p : Text} (hkind : t.kind = .punctuator) (htext : t.text = p) :
    t.token.isPunctuator p = true := by
  simp [Token.isPunctuator, token, hkind, htext]

lemma isPunctuator_iff {p : Text} :
    t.token.isPunctuator p = true ↔ t.kind = .punctuator ∧ t.text = p := by
  simp [Token.isPunctuator, token]

lemma not_isPunctuator {p : Text} (h : t.kind = .punctuator → t.text ≠ p) :
    t.token.isPunctuator p = false := by
  rw [← Bool.not_eq_true, isPunctuator_iff]
  exact fun hp => h hp.1 hp.2

/-- A token that an expression may not go on at is none of those it would go on at. -/
lemma not_isPunctuator_of_reach {p : Text} (h : t.reach < reachOf .punctuator p) :
    t.token.isPunctuator p = false := by
  apply not_isPunctuator
  intro hkind htext
  rw [reach, hkind, htext] at h
  exact Nat.lt_irrefl _ h

lemma kind_ne_template (h : t.reach < Level.call) : t.kind ≠ .template := by
  intro hkind
  simp [reach, reachOf, hkind] at h

lemma not_isAssignmentOperator (h : t.reach < Level.assignment) :
    Grammar.isAssignmentOperator t.token = false := by
  have hall : ∀ op ∈ Grammar.assignmentOperators, Level.assignment ≤ reachOf .punctuator op := by decide
  by_contra hop
  simp only [Grammar.isAssignmentOperator, token, Bool.not_eq_false, Bool.and_eq_true, beq_iff_eq,
    List.contains_iff_mem] at hop
  have := hall t.text hop.2
  rw [← hop.1] at this
  exact absurd h (Nat.not_lt.mpr this)

end Lexeme

namespace Grammar

/-- The binary operators of the grammar are those of the printer, three levels lower. -/
lemma operatorLevel_eq {t : Token} (h : binaryLevel true t ≠ 0) :
    operatorLevel t.text = binaryLevel true t + 3 := by
  have hall : ∀ op ∈ binaryOperators, ∀ kind ∈ [TokenKind.keyword, .punctuator],
      binaryLevel true { kind, text := op } ≠ 0 →
        operatorLevel op = binaryLevel true { kind, text := op } + 3 := by decide
  have hkind : t.kind ∈ [TokenKind.keyword, .punctuator] := by
    by_contra hne
    simp only [List.mem_cons, List.not_mem_nil, or_false, not_or] at hne
    apply h
    unfold binaryLevel
    split <;> simp_all
  refine hall t.text (by_contra fun hop => h ?_) t.kind hkind h
  simp only [binaryOperators, List.mem_cons, List.not_mem_nil, or_false, not_or] at hop
  unfold binaryLevel
  split <;> simp [hop]

end Grammar

/-- An expression goes on at a binary operator if it may be as loose as that. -/
lemma Lexeme.binaryLevel_le {t : Lexeme} (h : Grammar.binaryLevel true t.token ≠ 0) :
    Grammar.binaryLevel true t.token + 3 ≤ t.reach := by
  have hlevel : operatorLevel t.text = _ := Grammar.operatorLevel_eq h
  rw [← hlevel]
  have hall : ∀ op ∈ binaryOperators, operatorLevel op ≤ reachOf .punctuator op := by decide
  have hpunct := hall t.text (mem_binaryOperators (by omega))
  cases hkind : t.kind with
  | keyword => simp [reach, reachOf, hkind]
  | punctuator => rwa [reach, hkind]
  | _ => exact absurd (by simp [Grammar.binaryLevel, token, hkind]) h

/-! ### Rules -/

namespace Grammar

/-- The state in front of some tokens and a last one. -/
def stateAt (last : Lexeme) : List Lexeme → State
  | [] => { current := last.token, later := [], pending := [] }
  | t :: ts => { current := t.token, later := ts.map Lexeme.token ++ [last.token], pending := [] }

section Run

variable {α β : Type} {c : Context} {s : State} {last t : Lexeme} {ts : List Lexeme}

lemma run_bind (p : Parser α) (f : α → Parser β) : (p >>= f) c s =
    match p c s with
    | .ok a s => f a c s
    | .error e s => .error e s := by
  cases h : p c s <;> simp [bind, ReaderT.bind, EStateM.bind, h]

lemma run_tryCatch (p : Parser α) (handle : ParseError → Parser α) : (tryCatch p handle : Parser α) c s =
    match p c s with
    | .ok a s => .ok a s
    | .error e s => handle e c s := by
  change (tryCatch (p c) (fun e => handle e c) : EStateM ParseError State α) s = _
  cases h : p c s <;> simp [tryCatch, tryCatchThe, MonadExceptOf.tryCatch, EStateM.tryCatch, h,
    EStateM.Backtrackable.restore, EStateM.dummyRestore]

lemma run_pure (a : α) : (pure a : Parser α) c s = .ok a s := rfl

lemma run_read : (MonadReader.read : Parser Context) c s = .ok c s := rfl

lemma run_get : (get : Parser State) c s = .ok s s := rfl

lemma run_ahead {n : Nat} :
    ahead n c s = .ok ((s.current :: s.later).getD n (s.later.getLastD s.current)) s := rfl

lemma run_here : here c s = .ok s.current.position s := rfl

lemma run_current : current c s = .ok s.current s := rfl

lemma run_atPunct {p : Text} : atPunct p c s = .ok (s.current.isPunctuator p) s := rfl

lemma run_atWord {k : Text} : atWord k c s = .ok (s.current.isKeyword k) s := rfl

lemma run_atName {n : Text} : atName n c s = .ok (s.current.isName n) s := rfl

lemma run_advance : advance c (stateAt last (t :: ts)) = .ok t.token (stateAt last ts) := by
  cases ts <;> rfl

lemma run_skip : skip c (stateAt last (t :: ts)) = .ok () (stateAt last ts) := by
  cases ts <;> rfl

lemma run_tokensLeft : tokensLeft c (stateAt last ts) = .ok (ts.length + 1) (stateAt last ts) := by
  cases ts with
  | nil => rfl
  | cons t ts =>
    change EStateM.Result.ok ((ts.map Lexeme.token ++ [last.token]).length + 1) _ = _
    simp

@[simp] lemma current_stateAt : (stateAt last (t :: ts)).current = t.token := rfl

lemma run_eat {p : Text} (h : t.token.isPunctuator p = true) :
    eat p c (stateAt last (t :: ts)) = .ok true (stateAt last ts) := by
  simp only [eat, run_bind, run_atPunct, current_stateAt, h, if_true, run_skip, run_pure]

lemma run_eat_not {p : Text} (h : s.current.isPunctuator p = false) : eat p c s = .ok false s := by
  simp only [eat, run_bind, run_atPunct, h, Bool.false_eq_true, if_false, run_pure]

lemma run_expect {p : Text} (h : t.token.isPunctuator p = true) :
    expect p c (stateAt last (t :: ts)) = .ok () (stateAt last ts) := by
  simp only [expect, run_bind, run_eat h, Bool.not_true, Bool.false_eq_true, if_false, run_pure]

end Run

/-! ### Loops -/

section Loops

variable {α : Type} (c : Context) (last : Lexeme)

/-- One round of a loop that extends a value. -/
def Grows (step : α → Parser (Option α)) : α × List Lexeme → α × List Lexeme → Prop :=
  ReflTransGen fun x y => y.2.length < x.2.length ∧
    step x.1 c (stateAt last x.2) = .ok (some y.1) (stateAt last y.2)

variable {c last}

lemma run_extend {step : α → Parser (Option α)} {x y : α × List Lexeme} (h : Grows c last step x y)
    (hstop : step y.1 c (stateAt last y.2) = .ok none (stateAt last y.2)) :
    extend step x.1 c (stateAt last x.2) = .ok y.1 (stateAt last y.2) := by
  have hgo : ∀ n, x.2.length < n → extend.go step n x.1 c (stateAt last x.2) =
      .ok y.1 (stateAt last y.2) := by
    induction h using ReflTransGen.head_induction_on with
    | refl =>
      intro n hn
      obtain ⟨n, rfl⟩ := Nat.exists_eq_add_one_of_ne_zero (Nat.ne_of_gt (Nat.zero_lt_of_lt hn))
      simp only [extend.go, run_bind, hstop, run_pure]
    | head hstep _ ih =>
      intro n hn
      obtain ⟨n, rfl⟩ := Nat.exists_eq_add_one_of_ne_zero (Nat.ne_of_gt (Nat.zero_lt_of_lt hn))
      have := hstep.1
      simp only [extend.go, run_bind, hstep.2]
      exact ih n (by omega)
  simp only [extend, run_bind, run_tokensLeft]
  exact hgo _ (by omega)

/-- What a loop reads item by item. -/
inductive Repeats (c : Context) (last : Lexeme) (stop : Parser Bool) (item : Parser α) :
    List Lexeme → List α → List Lexeme → Prop
  | nil {ts : List Lexeme} (h : stop c (stateAt last ts) = .ok true (stateAt last ts)) :
      Repeats c last stop item ts [] ts
  | cons {ts mid rest : List Lexeme} {a : α} {as : List α}
      (hstop : stop c (stateAt last ts) = .ok false (stateAt last ts))
      (hitem : item c (stateAt last ts) = .ok a (stateAt last mid)) (hlt : mid.length < ts.length)
      (h : Repeats c last stop item mid as rest) : Repeats c last stop item ts (a :: as) rest

lemma run_repeatUntil {stop : Parser Bool} {item : Parser α} {ts rest : List Lexeme} {as : List α}
    (h : Repeats c last stop item ts as rest) :
    repeatUntil stop item c (stateAt last ts) = .ok as (stateAt last rest) := by
  have hgo : ∀ n, ts.length < n → repeatUntil.go stop item n c (stateAt last ts) =
      .ok as (stateAt last rest) := by
    induction h with
    | nil h =>
      intro n hn
      obtain ⟨n, rfl⟩ := Nat.exists_eq_add_one_of_ne_zero (Nat.ne_of_gt (Nat.zero_lt_of_lt hn))
      simp only [repeatUntil.go, run_bind, h, if_true, run_pure]
    | cons hstop hitem hlt _ ih =>
      intro n hn
      obtain ⟨n, rfl⟩ := Nat.exists_eq_add_one_of_ne_zero (Nat.ne_of_gt (Nat.zero_lt_of_lt hn))
      simp only [repeatUntil.go, run_bind, hstop, Bool.false_eq_true, if_false, hitem,
        ih n (by omega), run_pure]
  simp only [repeatUntil, run_bind, run_tokensLeft]
  exact hgo _ (by omega)

end Loops

end Grammar

end PlainScript
