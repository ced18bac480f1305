import PlainScript.Proofs.RoundTrip
import PlainScript.Proofs.StatementProgress
import Mathlib.Algebra.Ring.Int.Defs

/-! Which sources can be read at all. A reader that recovers passes over every fault of a statement, so
that only the tokens and the brackets of a source can keep it from being read. -/
namespace PlainScript

open Grammar

/-! ### Brackets -/

/-- Brackets that match and nest. -/
inductive Nested : List Token → Prop
  | nil : Nested []
  | plain {t : Token} {rest : List Token} (hopening : t.isOpening = false)
      (hclosing : t.isClosing = false) (h : Nested rest) : Nested (t :: rest)
  | enclosed {opener closing : Token} {inner rest : List Token} (hopening : opener.isOpening = true)
      (hclosing : closing.isClosing = true) (hmatch : Token.closer opener.text = closing.text)
      (hinner : Nested inner) (hrest : Nested rest) : Nested (opener :: (inner ++ closing :: rest))

namespace Nested

variable {t : Token} {rest : List Token}

lemma isClosing_eq (h : t.isOpening = true) : t.isClosing = false := by
  simp only [Token.isOpening, Token.isClosing, Token.isPunctuator, Bool.or_eq_true, Bool.and_eq_true,
    beq_iff_eq, Bool.or_eq_false_iff, Bool.and_eq_false_iff, beq_eq_false_iff_ne] at h ⊢
  obtain (⟨-, h⟩ | ⟨-, h⟩) | ⟨-, h⟩ := h <;> rw [h] <;> exact ⟨⟨.inr (by decide), .inr (by decide)⟩, .inr (by decide)⟩

lemma not_isClosing (h : Nested (t :: rest)) : t.isClosing = false := by
  cases h with
  | plain hopening hclosing => exact hclosing
  | enclosed hopening => exact isClosing_eq hopening

lemma plain_iff (hopening : t.isOpening = false) (hclosing : t.isClosing = false) :
    Nested (t :: rest) ↔ Nested rest := by
  refine ⟨fun h => ?_, .plain hopening hclosing⟩
  cases h with
  | plain _ _ h => exact h
  | enclosed hopen => simp [hopening] at hopen

end Nested

/-- The tokens close the brackets that are still open, the last one first. -/
def Closes : List Token → List Token → Prop
  | [], ts => Nested ts
  | opener :: outer, ts => ∃ inner closing rest, ts = inner ++ closing :: rest ∧ Nested inner ∧
      closing.isClosing = true ∧ Token.closer opener.text = closing.text ∧ Closes outer rest

namespace Closes

variable {pending rest : List Token} {t opener : Token}

lemma plain_iff (hopening : t.isOpening = false) (hclosing : t.isClosing = false) :
    Closes pending (t :: rest) ↔ Closes pending rest := by
  cases pending with
  | nil => exact Nested.plain_iff hopening hclosing
  | cons opener outer =>
    constructor
    · rintro ⟨_ | ⟨u, inner⟩, closing, after, hts, hinner, hc, hmatch, hafter⟩
      · obtain ⟨rfl, rfl⟩ := List.cons_eq_cons.mp hts
        simp [hclosing] at hc
      · obtain ⟨rfl, rfl⟩ := List.cons_eq_cons.mp hts
        exact ⟨inner, closing, after, rfl, (Nested.plain_iff hopening hclosing).mp hinner, hc, hmatch, hafter⟩
    · rintro ⟨inner, closing, after, rfl, hinner, hc, hmatch, hafter⟩
      exact ⟨t :: inner, closing, after, rfl, .plain hopening hclosing hinner, hc, hmatch, hafter⟩

lemma opening_iff (hopening : t.isOpening = true) :
    Closes pending (t :: rest) ↔ Closes (t :: pending) rest := by
  cases pending with
  | nil =>
    constructor
    · intro h
      cases h with
      | plain hnot => simp [hopening] at hnot
      | enclosed _ hclosing hmatch hinner hrest => exact ⟨_, _, _, rfl, hinner, hclosing, hmatch, hrest⟩
    · rintro ⟨inner, closing, after, rfl, hinner, hclosing, hmatch, hafter⟩
      exact .enclosed hopening hclosing hmatch hinner hafter
  | cons opener outer =>
    constructor
    · rintro ⟨_ | ⟨u, front⟩, closing, after, hts, hfront, hclosing, hmatch, hafter⟩
      · obtain ⟨rfl, rfl⟩ := List.cons_eq_cons.mp hts
        simp [Nested.isClosing_eq hopening] at hclosing
      · obtain ⟨rfl, rfl⟩ := List.cons_eq_cons.mp hts
        cases hfront with
        | plain hnot => simp [hopening] at hnot
        | @enclosed _ last inner between _ hlast hlastMatch hinner hbetween =>
          refine ⟨inner, last, between ++ closing :: after, by simp, hinner, hlast, hlastMatch, ?_⟩
          exact ⟨between, closing, after, rfl, hbetween, hclosing, hmatch, hafter⟩
    · rintro ⟨inner, last, _, rfl, hinner, hlast, hlastMatch, between, closing, after, rfl, hbetween,
        hclosing, hmatch, hafter⟩
      exact ⟨t :: (inner ++ last :: between), closing, after, by simp,
        .enclosed hopening hlast hlastMatch hinner hbetween, hclosing, hmatch, hafter⟩

lemma closing_iff (hclosing : t.isClosing = true) :
    Closes (opener :: pending) (t :: rest) ↔ Token.closer opener.text = t.text ∧ Closes pending rest := by
  constructor
  · rintro ⟨_ | ⟨u, inner⟩, closing, after, hts, hinner, -, hmatch, hafter⟩
    · obtain ⟨rfl, rfl⟩ := List.cons_eq_cons.mp hts
      exact ⟨hmatch, hafter⟩
    · obtain ⟨rfl, rfl⟩ := List.cons_eq_cons.mp hts
      simp [hinner.not_isClosing] at hclosing
  · rintro ⟨hmatch, hrest⟩
    exact ⟨[], t, rest, rfl, .nil, hclosing, hmatch, hrest⟩

end Closes

namespace Grammar

/-- Brackets have no fault if they match and nest. -/
lemma bracketFault?_eq_none_iff {pending tokens : List Token} :
    bracketFault? pending tokens = none ↔ Closes pending tokens := by
  induction tokens generalizing pending with
  | nil =>
    cases pending with
    | nil => simp [bracketFault?, Closes, Nested.nil]
    | cons => simp [bracketFault?, Closes]
  | cons t rest ih =>
    unfold bracketFault?
    split
    next hopening => rw [ih, Closes.opening_iff hopening]
    split
    next hclosing =>
      cases pending with
      | nil => simpa [Closes] using fun h => by simp [Nested.not_isClosing h] at hclosing
      | cons opener outer =>
        rw [Closes.closing_iff hclosing, ← ih]
        by_cases hmatch : Token.closer opener.text = t.text <;> simp [hmatch]
    next hopening hclosing =>
      rw [ih, Closes.plain_iff (by simpa using hopening) (by simpa using hclosing)]

/-! ### Levels -/

lemma Reads.deeper {α : Type} {d k : Nat} {post : α → Prop} {p : Parser α} (h : Reads d k post p) :
    Reads (d + 1) (k + 1) post p := fun t c s hs ht =>
  (h t c s hs ht).mono (fun _ _ => id) fun _ _ he =>
    ⟨he.recovered_lt, he.cause.imp_right (Or.imp_left fun ⟨hf, hd⟩ => ⟨hf, by omega⟩)⟩

lemma reads_tooDeep {α : Type} {k : Nat} {post : α → Prop} (hk : 0 < k) :
    Reads 0 k post (fail .tooDeep : Parser α) := fun _ _ _ _ _ =>
  ⟨Nat.lt_add_of_pos_right (Nat.pow_pos (by decide)), .inr (.inl ⟨rfl, by omega⟩)⟩

theorem rulesRead_rulesUpTo (d : Nat) : RulesRead d (rulesUpTo d) := by
  induction d with
  | zero => exact ⟨reads_tooDeep (by decide), fun _ => reads_tooDeep (by decide), reads_tooDeep (by decide)⟩
  | succ d ih =>
    exact ⟨(reads_statement ih).deeper, fun allowIn => (reads_assignment ih allowIn).deeper,
      (reads_unary ih).deeper⟩

/-! ### Loops -/

/-- More rounds than there are tokens left make no difference to a loop whose items take tokens. -/
lemma repeatUntil_go_eq {α : Type} {stop : Parser Bool} {item : Parser α} {c : Context}
    (hitem : ∀ s a s', s.Ended → stop c s = .ok false s → item c s = .ok a s' →
      s'.Ended ∧ s'.left < s.left) (hstop : Asks stop) {m n : Nat} {s : State} (hs : s.Ended)
    (hm : s.left < m) (hn : s.left < n) : repeatUntil.go stop item m c s = repeatUntil.go stop item n c s := by
  induction m generalizing s n with
  | zero => omega
  | succ m ih =>
    obtain ⟨n, rfl⟩ := Nat.exists_eq_add_one_of_ne_zero (Nat.ne_of_gt (Nat.zero_lt_of_lt hn))
    obtain ⟨b, hb⟩ := hstop c s
    simp only [repeatUntil.go, run_bind, hb]
    cases b with
    | true => rfl
    | false =>
      simp only [Bool.false_eq_true, if_false, run_bind]
      cases ha : item c s with
      | error e s' => rfl
      | ok a s' =>
        obtain ⟨hs', hlt⟩ := hitem s a s' hs hb ha
        simp only [ih hs' (by omega : s'.left < m) (by omega : s'.left < n)]

end Grammar

/-! ### Sources -/

/-- The last token is the end of the file, and every other one takes a byte. -/
lemma tokensFrom_ended {previous : Option Token} {place : Cursor} {tokens : List Token}
    (h : tokensFrom previous place = .ok tokens) :
    tokens.getLast?.any Token.isEnd = true ∧ tokens.length ≤ place.rest.length + 1 := by
  fun_induction tokensFrom generalizing tokens with
  | case1 | case3 | case4 => cases h
  | case2 =>
    obtain rfl := Except.ok.inj h
    exact ⟨rfl, by simp⟩
  | case5 previous place comments gapSize _ here token c rest hrest kind size _ t next after hafter =>
    rename_i ih
    obtain rfl := Except.ok.inj h
    obtain ⟨hlast, hlength⟩ := ih hafter
    have hbytes := congrArg List.length hrest
    simp only [here, next, Cursor.advance_rest, List.length_drop, List.length_cons] at hbytes hlength
    refine ⟨?_, by simp only [List.length_cons]; omega⟩
    cases after with
    | nil => simp at hlast
    | cons u after => simpa [List.getLast?_cons] using hlast

namespace Grammar

/-- A script is read unless a limit is reached. -/
lemma script_meets (d : Nat) {c : Context} {s : State} (hs : s.Ended) :
    Meets (script (rulesUpTo d)) c s (fun t _ => t.Is (· == .program))
      fun e s' => Fails d 3 c s s.left e s' ∧ (c.recover = true → e.isRecoverable = false) := by
  refine meets_step run_here (meets_bind ?_)
  refine (statementList_meets (rulesRead_rulesUpTo d) hs).mono (fun body s' ⟨hbody, _, _⟩ => ?_) fun _ _ => id
  refine meets_step (p := drainComments) rfl ?_
  exact Tree.Is.node rfl (by simpa [Payload.isFormed] using hbody)

/-- The state in front of all tokens. -/
def startOf (tokens : List Token) : State :=
  { current := tokens.headD {}, later := tokens.tail, pending := (tokens.headD {}).comments }

lemma ended_startOf {tokens : List Token} (h : tokens.getLast?.any Token.isEnd = true) :
    (startOf tokens).Ended := by
  cases tokens with
  | nil => simp at h
  | cons t rest => exact State.ended_iff.mpr h

end Grammar

/-- What reading a source comes down to once its tokens are known. -/
lemma parse_eq {source : Text} {options : ParseOptions} {tokens : List Token}
    (htokens : tokenize source = .ok tokens) (hbrackets : bracketFault? [] tokens = none) :
    parse source options =
      match script (rulesUpTo options.maxDepth.toNat)
        { source, recover := options.recover, maxRecoveredErrors := options.maxRecoveredErrors }
        (startOf tokens) with
      | .ok tree final => .ok ⟨tree, final.recovered.reverse⟩
      | .error e _ => .error e := by
  simp only [parse, htokens, Except.mapError, ok_bind, hbrackets, ReaderT.run]
  rfl

lemma tokenize_ended {source : Text} {tokens : List Token} (h : tokenize source = .ok tokens) :
    (startOf tokens).Ended ∧ (startOf tokens).left ≤ source.length := by
  obtain ⟨hlast, hlength⟩ := tokensFrom_ended h
  refine ⟨ended_startOf hlast, ?_⟩
  simp only [Cursor.advance_rest, List.length_drop] at hlength
  simp only [startOf, State.left, List.length_tail]
  omega

lemma bracketFault?_fault {pending tokens : List Token} {e : ParseError}
    (h : bracketFault? pending tokens = some e) :
    e.fault ≠ .tooDeep ∧ e.fault ≠ .tooManyErrors := by
  induction tokens generalizing pending with
  | nil =>
    obtain ⟨t, -, rfl⟩ := Option.map_eq_some_iff.mp h
    exact ⟨nofun, nofun⟩
  | cons t rest ih =>
    unfold bracketFault? at h
    repeat' split at h
    · exact ih h
    · obtain rfl := Option.some.inj h
      exact ⟨nofun, nofun⟩
    · exact ih h
    · obtain rfl := Option.some.inj h
      exact ⟨nofun, nofun⟩
    · exact ih h

/-- No limit ends the reading of a source. -/
def KeepsLimits (source : Text) (options : ParseOptions) : Prop :=
  ∀ e, parse source options = .error e → e.fault ≠ .tooDeep ∧ e.fault ≠ .tooManyErrors

/-- A source that lexes and whose brackets nest is a script, or its reading fails in a script. -/
lemma parse_cases {source : Text} {tokens : List Token} (options : ParseOptions)
    (htokens : tokenize source = .ok tokens) (hbrackets : bracketFault? [] tokens = none) :
    (∃ script, parse source options = .ok script ∧ script.tree.Is (· == .program)) ∨
      ∃ e s c, parse source options = .error e ∧ c.maxRecoveredErrors = options.maxRecoveredErrors ∧
        Fails options.maxDepth.toNat 3 c (startOf tokens) (startOf tokens).left e s ∧
          (options.recover = true → e.isRecoverable = false) := by
  have hscript := script_meets options.maxDepth.toNat
    (c := { source, recover := options.recover, maxRecoveredErrors := options.maxRecoveredErrors })
    (tokenize_ended htokens).1
  rw [parse_eq htokens hbrackets]
  unfold Meets at hscript
  split at hscript
  next tree final hrun => exact .inl ⟨_, by rw [hrun], hscript⟩
  next e final hrun => exact .inr ⟨e, final, _, by rw [hrun], rfl, hscript⟩

lemma parse_lexical {source : Text} {e : LexError} (options : ParseOptions) (h : tokenize source = .error e) :
    parse source options = .error (.ofLexError e) := by
  simp only [parse, h, Except.mapError]
  rfl

lemma parse_brackets {source : Text} {tokens : List Token} {e : ParseError} (options : ParseOptions)
    (htokens : tokenize source = .ok tokens) (hbrackets : bracketFault? [] tokens = some e) :
    parse source options = .error e := by
  simp only [parse, htokens, Except.mapError, ok_bind, hbrackets]
  rfl

/-- What is read comes out of a run of the grammar over the tokens of the source. -/
lemma exists_run_of_parse {source : Text} {options : ParseOptions} {result : Script}
    (h : parse source options = .ok result) :
    ∃ tokens c final, tokenize source = .ok tokens ∧
      script (rulesUpTo options.maxDepth.toNat) c (startOf tokens) = .ok result.tree final ∧
      result.diagnostics = final.recovered.reverse := by
  cases htokens : tokenize source with
  | error e => cases (parse_lexical options htokens).symm.trans h
  | ok tokens =>
  cases hbrackets : bracketFault? [] tokens with
  | some e => cases (parse_brackets options htokens hbrackets).symm.trans h
  | none =>
  rw [parse_eq htokens hbrackets] at h
  split at h
  next tree final hrun =>
    obtain rfl := Except.ok.inj h
    exact ⟨tokens, _, final, rfl, hrun, rfl⟩
  next => cases h

/-- What is read is a script in which every slot holds what belongs there. -/
lemma parse_is_program {source : Text} {options : ParseOptions} {script : Script}
    (h : parse source options = .ok script) : script.tree.Is (· == .program) := by
  obtain ⟨tokens, c, final, htokens, hrun, -⟩ := exists_run_of_parse h
  have hscript := script_meets options.maxDepth.toNat (c := c) (tokenize_ended htokens).1
  rwa [Meets, hrun] at hscript

lemma keepsLimits_of_le {source : Text} {options : ParseOptions}
    (hdepth : 3 * (source.length : Int) + 3 ≤ options.maxDepth)
    (herrors : 2 ^ source.length ≤ options.maxRecoveredErrors) : KeepsLimits source options := by
  intro e he
  cases htokens : tokenize source with
  | error lexError =>
    obtain rfl := Except.error.inj ((parse_lexical options htokens).symm.trans he)
    exact ⟨nofun, nofun⟩
  | ok tokens =>
    cases hbrackets : bracketFault? [] tokens with
    | some fault =>
      obtain rfl := Except.error.inj ((parse_brackets options htokens hbrackets).symm.trans he)
      exact bracketFault?_fault hbrackets
    | none =>
      obtain ⟨script, hok, -⟩ | ⟨e', s, c, herror, hmax, hfails, -⟩ := parse_cases options htokens hbrackets
      · cases hok.symm.trans he
      · obtain rfl := Except.error.inj (herror.symm.trans he)
        have hleft := (tokenize_ended htokens).2
        have hpow : 2 ^ (startOf tokens).left ≤ 2 ^ source.length := Nat.pow_le_pow_right (by decide) hleft
        have hrecovered := hfails.recovered_lt
        obtain hcause | ⟨-, hcause⟩ | ⟨-, hcause⟩ := hfails.cause
        · constructor <;> intro hfault <;> simp [ParseError.isRecoverable, ParseFault.isRecoverable, hfault] at hcause
        · omega
        · rw [hmax] at hcause
          simp only [startOf, List.length_nil] at hrecovered hpow
          have : ((2 ^ source.length : Nat) : Int) = 2 ^ source.length := by push_cast; rfl
          omega

lemma isOk_iff_of_keepsLimits {source : Text} {options : ParseOptions} (hrecover : options.recover = true)
    (hlimits : KeepsLimits source options) :
    (∃ script, parse source options = .ok script) ↔
      ∃ tokens, tokenize source = .ok tokens ∧ Nested tokens := by
  constructor
  · rintro ⟨script, hok⟩
    cases htokens : tokenize source with
    | error e => cases (parse_lexical options htokens).symm.trans hok
    | ok tokens =>
      cases hbrackets : bracketFault? [] tokens with
      | some e => cases (parse_brackets options htokens hbrackets).symm.trans hok
      | none => exact ⟨tokens, rfl, bracketFault?_eq_none_iff.mp hbrackets⟩
  · rintro ⟨tokens, htokens, hnested⟩
    obtain ⟨script, hok, -⟩ | ⟨e, s, c, herror, -, hfails, hstays⟩ :=
      parse_cases options htokens (bracketFault?_eq_none_iff.mpr hnested)
    · exact ⟨script, hok⟩
    -- A fault that no list could recover from is one of the limits.
    · obtain hcause | ⟨hcause, -⟩ | ⟨hcause, -⟩ := hfails.cause
      · simp [hstays hrecover] at hcause
      · exact absurd hcause (hlimits e herror).1
      · exact absurd hcause (hlimits e herror).2

/-- A reader that recovers reads every source whose tokens can be read and whose brackets match and nest,
and no other, as long as it keeps its limits, which wide enough ones always are. A listed statement takes
a token, recovered from or not, so the bound on the rounds of a list is never met. -/
theorem parse_recovers (source : Text) :
    (∀ options : ParseOptions, options.recover = true → KeepsLimits source options →
      ((∃ script, parse source options = .ok script) ↔
        ∃ tokens, tokenize source = .ok tokens ∧ Nested tokens)) ∧
    (∀ options : ParseOptions, 3 * (source.length : Int) + 3 ≤ options.maxDepth →
      2 ^ source.length ≤ options.maxRecoveredErrors → KeepsLimits source options) ∧
    ∀ (d : Nat) (ending : ListEnd) (c : Context) (s : State), s.Ended →
      (∀ t s', s.current.isEnd = false → listedStatement (rulesUpTo d) ending c s = .ok t s' →
        s'.Ended ∧ s'.left < s.left) ∧
      ∀ rounds, s.left < rounds →
        repeatUntil.go (return ending.isAt (← current)) (listedStatement (rulesUpTo d) ending) rounds c s =
          statementList (rulesUpTo d) ending c s := by
  refine ⟨fun options => isOk_iff_of_keepsLimits, fun options => keepsLimits_of_le, fun d ending c s hs => ?_⟩
  have hitem {s s' : State} {t : Tree} (hs : s.Ended) (hend : s.current.isEnd = false)
      (hrun : listedStatement (rulesUpTo d) ending c s = .ok t s') : s'.Ended ∧ s'.left < s.left := by
    have hlisted : Meets (listedStatement (rulesUpTo d) ending) c s _ _ :=
      listedStatement_meets (rulesRead_rulesUpTo d) hs hend
    rw [Meets, hrun] at hlisted
    exact ⟨hlisted.2.2.ended, hlisted.2.1⟩
  refine ⟨fun t s' hend hrun => hitem hs hend hrun, fun rounds hrounds => ?_⟩
  refine repeatUntil_go_eq (fun s t s' hs hstop hrun => hitem hs ?_ hrun)
    (asks_current.bind fun t => asks_pure _) hs hrounds (Nat.lt_succ_of_lt (Nat.lt_succ_self _))
  have hat : ending.isAt s.current = false := (EStateM.Result.ok.inj hstop).1
  exact ((Bool.or_eq_false_iff ..).mp hat).1

/-- Two names next to each other are no arguments, but the statement can be recovered from. -/
theorem parse_recovers_adjacentNames : ∃ script, parse "f(a b)" {} = .ok script := by
  obtain ⟨hparse, hlimits, -⟩ := parse_recovers "f(a b)"
  refine (hparse {} rfl (hlimits {} (by decide) (by decide))).mpr ?_
  have hbrackets : (tokenize "f(a b)").map (bracketFault? []) = .ok none := by decide +kernel
  cases htokens : tokenize "f(a b)" with
  | error e => simp [htokens, Except.map] at hbrackets
  | ok tokens =>
    have hnone : bracketFault? [] tokens = none := by simpa [htokens, Except.map] using hbrackets
    exact ⟨tokens, rfl, bracketFault?_eq_none_iff.mp hnone⟩

example : (parse "f(a b)" {}).toOption.map (·.diagnostics.length) = some 1 := by decide +kernel

end PlainScript
