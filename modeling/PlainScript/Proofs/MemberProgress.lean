import PlainScript.Proofs.Formed
import PlainScript.Proofs.Progress

/-! What lists of statements, functions, literals with members and classes take, and what they answer. A
statement that is recovered from takes a token too, so a list of statements always comes to its end. -/
namespace PlainScript.Grammar

/-- What the nested rules are to do when `d` levels are left. A statement may begin with an
expression and an expression with an operand, and each of them costs a level. -/
structure RulesRead (d : Nat) (rules : Rules) : Prop where
  statement : Reads d 3 (Tree.Is Kind.isStatement) (rules .statement)
  assignment (allowIn : Bool) : Reads d 2 (Tree.Is Kind.isExpression) (rules (.assignment allowIn))
  unary : Reads d 1 (Tree.Is Kind.isExpression) (rules .unary)

variable {rules : Rules} {d k : Nat} {item inner : Parser Tree}

lemma goes_some {want : Kind → Bool} {p : Parser Tree} (h : Goes d (Tree.Is want) p) :
    Goes d (fun slot => Payload.mayHold Tree.formedKind want slot = true) (some <$> p) :=
  h.map fun _ ht => Tree.mayHold_some.mpr ht

lemma goes_assignment (h : RulesRead d rules) (allowIn : Bool) :
    Goes d (Tree.Is Kind.isExpression) (rules (.assignment allowIn)) :=
  (h.assignment allowIn).goes (by decide)

/-! ### Lists in brackets -/

lemma reads_spreadOr (hk : k ≤ 3) (hitem : Reads d k (Tree.Is Kind.isExpression) item) :
    Reads d k (Tree.Is Kind.isExpression) (spreadOr item) := by
  refine asks_here.bind_reads fun position => reads_eat ?_ hitem
  exact (hitem.goes hk).bind fun t ht => goes_pure (.node rfl (by simpa [Payload.isFormed] using ht))

lemma reads_arrayLiteral (h : RulesRead d rules) :
    Reads d k (Tree.Is Kind.isExpression) (arrayLiteral rules) := by
  refine asks_here.bind_reads fun position => (reads_expect _).bind fun _ _ => ?_
  refine (goes_repeatUntil (P := fun e => Payload.mayHold Tree.formedKind Kind.isExpression e = true)
    (asks_atPunct _) ?_).bind fun elements he => (goes_expect _).bind fun _ _ => goes_pure (.node rfl ?_)
  · refine (goes_eat _).bind fun isHole _ => ?_
    cases isHole with
    | true => exact goes_pure rfl
    | false =>
      refine ((reads_spreadOr (by decide) (h.assignment true)).goes (by decide)).bind fun t ht => ?_
      refine (asks_atPunct _).bind_goes fun isLast => ?_
      cases isLast with
      | true => exact goes_pure (by simpa using ht)
      | false => exact (goes_expect _).bind fun _ _ => goes_pure (by simpa using ht)
  · simpa [Payload.isFormed] using he

lemma reads_objectLiteral {member : Parser Tree}
    (hmember : Goes d (Tree.Is (· == .property)) member) :
    Reads d k (Tree.Is (· == .objectExpression)) (objectLiteral member) := by
  refine asks_here.bind_reads fun position => (reads_expect _).bind fun _ _ => ?_
  refine (goes_commaList hmember).bind fun members hm => (goes_expect _).bind fun _ _ => goes_pure (.node rfl ?_)
  simpa [Payload.isFormed] using hm

lemma readsAt_identifierHere {t : Token} (ht : t.isEnd = false) :
    ReadsAt t d k (Tree.Is (· == .identifier)) identifierHere := by
  refine asks_here.bind_readsAt fun position => ?_
  exact (readsAt_advance ht).bind fun _ _ => goes_pure (.node rfl rfl)

lemma reads_bindingTarget (h : RulesRead d rules)
    (hinner : Reads d k (Tree.Is Kind.isExpression) inner) :
    Reads d k (Tree.Is Kind.isExpression) (bindingTarget rules inner) := by
  refine (asks_atPunct _).bind_reads fun isArray => ?_
  cases isArray with
  | true => exact reads_arrayLiteral h
  | false =>
    refine (asks_atPunct _).bind_reads fun isObject => ?_
    cases isObject with
    | true => exact hinner
    | false =>
      refine reads_current fun t => ?_
      cases ht : t.isIdentifier with
      | true =>
        refine (readsAt_identifierHere (isEnd_of_isIdentifier ht)).mono (fun _ h => ?_) (Nat.le_refl _)
        exact h.mono (by simp [Kind.isExpression, Kind.isStatement])
      | false => exact reads_fail rfl t

/-! ### Lists of statements -/

/-- The skipped tokens stop before the end. -/
lemma skipCount_lt (ending : ListEnd) {tokens : List Token}
    (hlast : tokens.getLast?.any Token.isEnd = true) (depth : Nat) (isFirst : Bool) :
    skipCount ending depth isFirst tokens < tokens.length := by
  induction tokens generalizing depth isFirst with
  | nil => simp at hlast
  | cons t rest ih =>
    cases ht : t.isEnd with
    | true => simp [skipCount, ht]
    | false =>
      have hrest : rest.getLast?.any Token.isEnd = true := by
        cases rest with
        | nil => simp [ht] at hlast
        | cons u rest => simpa [List.getLast?_cons] using hlast
      have hpos : 0 < rest.length := Nat.zero_lt_of_lt (ih hrest 0 false)
      have hlt := ih hrest
      simp only [skipCount, ht, List.length_cons]
      grind

/-- A faulty statement is passed as raw text, as long as faults may be recovered from. -/
lemma recoverFrom_meets {start s : State} {ending : ListEnd} {e : ParseError} {c : Context}
    (hstart : start.Ended) (hend : start.current.isEnd = false)
    (hlt : s.recovered.length < start.recovered.length + 2 ^ (start.left - 1)) :
    Meets (recoverFrom start ending e) c s
      (fun t s' => t.Is Kind.isStatement ∧ s'.left < start.left ∧ start.Within start.left s')
      fun e s' => Fails d 3 c start start.left e s' ∧ e.isRecoverable = false := by
  have hleft := State.left_pos hstart hend
  have hskip : ∀ n, n = ((start.current :: start.later).take
      (max 1 (skipCount ending 0 true (start.current :: start.later)))).length →
      0 < n ∧ n ≤ start.left := by
    have := skipCount_lt ending (State.ended_iff.mp hstart) 0 true
    simp [State.left] at this hleft ⊢
    omega
  obtain ⟨hpos, hle⟩ := hskip _ rfl
  refine meets_step (show _ = EStateM.Result.ok () { s with recovered := e :: s.recovered } from rfl) ?_
  refine meets_step run_read (meets_step run_get ?_)
  split
  next hmax =>
    refine ⟨⟨?_, .inr (.inr ⟨rfl, hmax⟩)⟩, rfl⟩
    have := Nat.pow_lt_pow_right (a := 2) (by decide) (Nat.sub_lt hleft Nat.zero_lt_one)
    exact Nat.lt_of_le_of_lt hlt (Nat.add_lt_add_left this _)
  next => exact ⟨.node rfl rfl, State.Within.drop hstart hpos hle rfl rfl hlt⟩

/-- What was recovered from is remembered. -/
lemma recoverFrom_recovered (start : State) (ending : ListEnd) (e : ParseError) (c : Context) (s : State) :
    Meets (recoverFrom start ending e) c s (fun _ s' => s'.recovered ≠ []) fun _ _ => True := by
  refine meets_step (show _ = EStateM.Result.ok () { s with recovered := e :: s.recovered } from rfl) ?_
  refine meets_step run_read (meets_step run_get ?_)
  split
  next => trivial
  next => exact List.cons_ne_nil e s.recovered

lemma listedStatement_meets (h : RulesRead d rules) {ending : ListEnd} {c : Context} {s : State}
    (hs : s.Ended) (hend : s.current.isEnd = false) :
    Meets (listedStatement rules ending) c s
      (fun t s' => t.Is Kind.isStatement ∧ s'.left < s.left ∧ s.Within s.left s')
      fun e s' => Fails d 3 c s s.left e s' ∧ (c.recover = true → e.isRecoverable = false) := by
  refine meets_step run_get (meets_tryCatch ?_)
  refine (h.statement _ c s hs rfl).mono (fun t s' ⟨ht, hpos, hw⟩ => ?_) fun e s' he => ?_
  · exact ⟨ht, Nat.lt_of_le_of_lt hw.left_le (Nat.sub_lt hpos Nat.zero_lt_one), hw.mono (Nat.sub_le ..)⟩
  · refine meets_step run_read ?_
    split
    · exact (recoverFrom_meets hs hend he.recovered_lt).mono (fun _ _ => id)
        fun _ _ hf => ⟨hf.1, fun _ => hf.2⟩
    next hnot =>
      exact ⟨he.mono (Nat.le_refl _) (Nat.sub_le ..), fun hrecover => by simpa [hrecover] using hnot⟩

/-- A list of statements is read up to its end. What it fails with, no list could recover from. -/
lemma statementList_meets (h : RulesRead d rules) {ending : ListEnd} {c : Context} {s : State}
    (hs : s.Ended) :
    Meets (statementList rules ending) c s
      (fun ts s' => (∀ t ∈ ts, t.Is Kind.isStatement) ∧ s.Within s.left s' ∧
        ending.isAt s'.current = true)
      fun e s' => Fails d 3 c s s.left e s' ∧ (c.recover = true → e.isRecoverable = false) := by
  refine meets_step (p := tokensLeft) (a := s.later.length + 1) rfl ?_
  have hfuel : s.left < s.later.length + 1 + 1 := by simp only [State.left]; omega
  revert hfuel
  generalize s.later.length + 1 + 1 = fuel
  intro hfuel
  induction fuel generalizing s with
  | zero => omega
  | succ fuel ih =>
    refine meets_step (a := ending.isAt s.current) rfl ?_
    split
    next hat => exact ⟨by simp, .refl hs, hat⟩
    next hat =>
      have hend : s.current.isEnd = false := by
        by_contra hend
        simp_all [ListEnd.isAt]
      refine meets_bind ((listedStatement_meets h hs hend).mono (fun t s' hlisted => ?_) fun _ _ => id)
      obtain ⟨ht, hlt, hw⟩ := hlisted
      have hle : s'.left ≤ s.left := hw.left_le
      refine meets_bind ((ih hw.ended (by omega)).mono (fun ts s'' hlist => ?_)
        fun e s'' he => ⟨he.1.after hw (by omega), he.2⟩)
      obtain ⟨hts, hw', hat⟩ := hlist
      exact ⟨List.forall_mem_cons.mpr ⟨ht, hts⟩, hw.trans hw', hat⟩

lemma goes_statementList (h : RulesRead d rules) (ending : ListEnd) :
    Goes d (∀ t ∈ ·, t.Is Kind.isStatement) (statementList rules ending) := fun _ _ hs =>
  (statementList_meets h hs).mono (fun _ _ h => ⟨h.1, h.2.1⟩) fun _ _ h => h.1

lemma reads_block (h : RulesRead d rules) : Reads d k (Tree.Is (· == .blockStatement)) (block rules) := by
  refine asks_here.bind_reads fun position => (reads_expect _).bind fun _ _ => ?_
  refine (goes_statementList h _).bind fun body hbody => goes_drainComments.bind fun trailing _ => ?_
  exact (goes_expect _).bind fun _ _ => goes_pure (.node rfl (by simpa [Payload.isFormed] using hbody))

/-! ### Functions -/

lemma reads_parameter (h : RulesRead d rules) (hk : k ≤ 3)
    (hinner : Reads d k (Tree.Is Kind.isExpression) inner) :
    Reads d k (Tree.Is Kind.isExpression) (parameter rules inner) := by
  have htarget := reads_bindingTarget h hinner
  refine asks_here.bind_reads fun position => reads_eat ?_ ?_
  · exact (htarget.goes hk).bind fun t ht => goes_pure (.node rfl (by simpa [Payload.isFormed] using ht))
  · refine htarget.bind fun target ht => (goes_eat _).bind fun hasDefault _ => ?_
    cases hasDefault with
    | true =>
      refine (goes_assignment h true).bind fun value hv => goes_pure (.node rfl ?_)
      simpa [Payload.isFormed] using ⟨ht, hv⟩
    | false => exact goes_pure ht

lemma reads_parameters (h : RulesRead d rules)
    (hinner : Reads d 0 (Tree.Is Kind.isExpression) inner) :
    Reads d k (∀ t ∈ ·, t.Is Kind.isExpression) (parameters rules inner) := by
  refine (reads_expect _).bind fun _ _ => ?_
  refine (goes_commaList ((reads_parameter h (by decide) hinner).goes (by decide))).bind fun ts hts => ?_
  exact (goes_expect _).bind fun _ _ => goes_pure hts

/-- What is read of a function: its parameters and its body. -/
def IsFunction (parts : List (Option Tree) × Option Tree) : Prop :=
  Payload.listHolds Tree.formedKind Kind.isExpression parts.1 = true ∧
    Payload.holds Tree.formedKind (· == .blockStatement) parts.2 = true

lemma goes_functionRest (h : RulesRead d rules) (hinner : Reads d 0 (Tree.Is Kind.isExpression) inner)
    (isAsync isGenerator : Bool) : Goes d IsFunction (functionRest rules inner isAsync isGenerator) := by
  refine goes_inFunction (((reads_parameters h hinner).goes (Nat.zero_le 3)).bind fun params hp => ?_)
  refine ((reads_block h).goes (Nat.zero_le 3)).bind fun body hb => goes_pure ?_
  simpa [IsFunction] using ⟨hp, hb⟩

lemma reads_propertyKey (h : RulesRead d rules) :
    Reads d k (fun r => r.1.Is Kind.isExpression) (propertyKey rules) := by
  refine asks_here.bind_reads fun position => reads_eat ?_ ?_
  · refine (goes_assignment h true).bind fun key hk => (goes_expect _).bind fun _ _ => ?_
    exact goes_pure hk
  · refine reads_current fun t => ?_
    have hname (ht : t.isEnd = false) : ReadsAt t d k (fun r : Tree × Bool => r.1.Is Kind.isExpression)
        (identifierHere >>= fun key => pure (key, false)) :=
      (readsAt_identifierHere ht).bind fun key hk => goes_pure (hk.mono (by simp [Kind.isExpression, Kind.isStatement]))
    split
    next hkind => exact (readsAt_skip (by simp [Token.isEnd, hkind])).bind fun _ _ => goes_pure (.node rfl rfl)
    next hkind => exact (readsAt_skip (by simp [Token.isEnd, hkind])).bind fun _ _ => goes_pure (.node rfl rfl)
    next hkind => exact hname (by simp [Token.isEnd, hkind])
    next hkind => exact hname (by simp [Token.isEnd, hkind])
    · exact reads_fail rfl t

lemma looks_modifier (hk : k ≤ 3) (word : Text) : Looks d k (fun _ => True) (modifier word) := by
  refine (asks_ahead 1).bind_looks hk fun next => (asks_atName word).bind_looks hk fun isWord => ?_
  split
  · exact (looks_skip hk).bind hk fun _ _ => looks_pure trivial
  · exact looks_pure trivial

/-- What a word before a key can say. -/
def isAccessor (kind : PropertyKind) : Bool := kind == .init || kind == .get || kind == .set

lemma looks_accessor (hk : k ≤ 3) : Looks d k (isAccessor · = true) accessor := by
  refine (looks_modifier hk _).bind hk fun isGet _ => ?_
  cases isGet with
  | true => exact looks_pure rfl
  | false =>
    refine (looks_modifier hk _).bind hk fun isSet _ => ?_
    cases isSet <;> exact looks_pure rfl

lemma reads_memberWith (h : RulesRead d rules)
    (hinner : Reads d 0 (Tree.Is Kind.isExpression) inner) (inClass : Bool) :
    Reads d 3 (Tree.Is (· == .property)) (memberWith rules inner inClass) := by
  have hvalue := goes_assignment h true
  refine asks_here.bind_reads fun position => ?_
  extract_lets afterStatic afterSpread
  have hstatic (isStatic : Bool) : Reads d 3 (Tree.Is (· == .property)) (afterStatic isStatic) := by
    refine (asks_atPunct _).bind_reads fun isBlock => ?_
    extract_lets afterBlock
    split
    · exact reads_fail_bind rfl
    refine (looks_modifier (by decide) _).bind_reads (by decide) fun isAsync _ => ?_
    refine (looks_eat _ (by decide)).bind_reads (by decide) fun isGenerator _ => ?_
    extract_lets afterKind
    have hkind (kind : PropertyKind) (hkind : isAccessor kind = true) :
        Reads d 3 (Tree.Is (· == .property)) (afterKind kind) := by
      refine asks_current.bind_reads fun first => ?_
      refine (reads_propertyKey h).bind fun (key, computed) hkey => ?_
      refine (asks_atPunct _).bind_goes fun isMethod => ?_
      cases isMethod with
      | true =>
        refine (goes_functionRest h hinner _ _).bind fun (params, body) hparts => ?_
        refine goes_pure (.node rfl ?_)
        have hfunction : (Tree.of (.functionExpression [] params body isAsync isGenerator)
            first.position).Is (· == .functionExpression) :=
          .node rfl (by simpa [Payload.isFormed, IsFunction] using hparts)
        cases kind <;> simp_all [Payload.isFormed, isAccessor]
      | false =>
        rw [if_neg Bool.false_ne_true]
        extract_lets afterField name afterDefault afterMethod
        split
        · exact goes_fail_bind rfl
        cases inClass with
        | true =>
          have hfield (value : Option Tree)
              (hv : Payload.mayHold Tree.formedKind Kind.isExpression value = true) :
              Goes d (Tree.Is (· == .property)) (afterField value) := by
            refine goes_semicolon.bind fun _ _ => goes_pure (.node rfl ?_)
            simpa [Payload.isFormed] using ⟨hkey, hv⟩
          refine (goes_eat _).bind fun hasValue _ => ?_
          cases hasValue with
          | true => exact (goes_some hvalue).bind hfield
          | false => exact hfield none rfl
        | false =>
          refine (goes_eat _).bind fun hasValue _ => ?_
          cases hasValue with
          | true =>
            refine hvalue.bind fun value hv => goes_pure (.node rfl ?_)
            simpa [Payload.isFormed] using ⟨hkey, hv⟩
          | false =>
            rw [if_neg Bool.false_ne_true]
            split
            · have hname : name.Is Kind.isExpression := .node rfl rfl
              have hdefault (value : Tree) (hv : value.Is Kind.isExpression) :
                  Goes d (Tree.Is (· == .property)) (afterDefault value) :=
                goes_pure (.node rfl (by simpa [Payload.isFormed] using ⟨hkey, hv⟩))
              refine (goes_eat _).bind fun hasDefault _ => ?_
              cases hasDefault with
              | true =>
                refine hvalue.bind fun value hv => hdefault _ (.node rfl ?_)
                simpa [Payload.isFormed] using ⟨hname, hv⟩
              | false => exact hdefault name hname
            · exact goes_unexpected
    split
    · exact hkind .init rfl
    · exact (looks_accessor (by decide)).bind_reads (by decide) hkind
  have hspread (isSpread : Bool) : Reads d 3 (Tree.Is (· == .property)) (afterSpread isSpread) := by
    cases isSpread with
    | true =>
      refine ((h.assignment true).mono (l := 3) (fun _ => id) (by decide)).bind fun value hv => ?_
      exact goes_pure (.node rfl (by simpa [Payload.isFormed] using hv))
    | false =>
      cases inClass with
      | true => exact (looks_modifier (by decide) _).bind_reads (by decide) fun _ _ => hstatic _
      | false => exact hstatic false
  cases inClass with
  | true => exact hspread false
  | false => exact (looks_eat _ (by decide)).bind_reads (by decide) fun _ _ => hspread _

lemma reads_member (h : RulesRead d rules) (n : Nat) (inClass : Bool) :
    Reads d 3 (Tree.Is (· == .property)) (member rules n inClass) := by
  induction n generalizing inClass with
  | zero => exact reads_unexpected
  | succ n ih =>
    refine reads_memberWith h ((reads_objectLiteral ((ih false).goes (Nat.le_refl 3))).mono
      (fun _ ho => ho.mono ?_) (Nat.le_refl 0)) inClass
    simp [Kind.isExpression, Kind.isStatement]

lemma reads_object (h : RulesRead d rules) : Reads d k (Tree.Is Kind.isExpression) (object rules) := by
  refine asks_tokensLeft.bind_reads fun n => ?_
  refine (reads_objectLiteral ((reads_member h n false).goes (Nat.le_refl 3))).mono
    (fun _ ho => ho.mono ?_) (Nat.le_refl k)
  simp [Kind.isExpression, Kind.isStatement]

lemma reads_functionDeclaration (h : RulesRead d rules) (isAsync : Bool) :
    Reads d k (Tree.Is Kind.isStatement) (functionDeclaration rules isAsync) := by
  refine asks_here.bind_reads fun position => (reads_expectWord _).bind fun _ _ => ?_
  refine (goes_eat _).bind fun isGenerator _ => asks_current.bind_goes fun t => ?_
  extract_lets afterName
  split
  · exact goes_fail_bind rfl
  refine goes_advance.bind fun name _ => ?_
  refine (goes_functionRest h (reads_object h) isAsync isGenerator).bind fun (params, body) hparts => ?_
  exact goes_pure (.node rfl (by simpa [Payload.isFormed, IsFunction] using hparts))

lemma reads_functionExpression (h : RulesRead d rules) (isAsync : Bool) :
    Reads d k (Tree.Is Kind.isExpression) (functionExpression rules isAsync) := by
  refine asks_here.bind_reads fun position => (reads_expectWord _).bind fun _ _ => ?_
  refine (goes_eat _).bind fun isGenerator _ => asks_current.bind_goes fun t => ?_
  extract_lets afterName
  have hafter (name : Text) : Goes d (Tree.Is Kind.isExpression) (afterName name) := by
    refine (goes_functionRest h (reads_object h) isAsync isGenerator).bind fun (params, body) hparts => ?_
    exact goes_pure (.node rfl (by simpa [Payload.isFormed, IsFunction] using hparts))
  split
  · exact goes_advance.bind fun _ _ => hafter _
  · exact hafter _

lemma reads_arrowFunction (h : RulesRead d rules) (isAsync : Bool) :
    Reads d k (Tree.Is Kind.isExpression) (arrowFunction rules isAsync) := by
  refine asks_here.bind_reads fun position => reads_current fun t => ?_
  extract_lets afterParams
  have hafter (params : List Tree) (hp : ∀ t ∈ params, t.Is Kind.isExpression) :
      Goes d (Tree.Is Kind.isExpression) (afterParams params) := by
    refine (goes_expect _).bind fun _ _ => ?_
    refine (goes_inFunction (P := Tree.Is Kind.isArrowBody) ?_).bind fun body hb => ?_
    · refine (asks_atPunct _).bind_goes fun isBlock => ?_
      cases isBlock with
      | true =>
        refine ((reads_block h).goes (Nat.zero_le 3)).mono fun _ hb => hb.mono ?_
        simp [Kind.isArrowBody]
      | false =>
        refine (goes_assignment h true).mono fun _ hb => hb.mono ?_
        simp_all [Kind.isArrowBody]
    · exact goes_pure (.node rfl (by simpa [Payload.isFormed] using ⟨hp, hb⟩))
  split
  next ht =>
    refine (readsAt_identifierHere (isEnd_of_isIdentifier ht)).bind fun name hname => hafter _ ?_
    simpa using hname.mono (by simp [Kind.isExpression, Kind.isStatement])
  next => exact (reads_inFunction (reads_parameters h (reads_object h))).bind hafter t

lemma goes_classMember (h : RulesRead d rules) :
    Goes d (fun slot => Payload.mayHold Tree.formedKind (· == .property) slot = true)
      (do
        if ← eat ";" then return none
        return some (← member rules (← tokensLeft) true) : Parser (Option Tree)) := by
  refine (goes_eat _).bind fun isEmpty _ => ?_
  cases isEmpty with
  | true => exact goes_pure rfl
  | false =>
    refine asks_tokensLeft.bind_goes fun n => ?_
    refine ((reads_member h n true).goes (Nat.le_refl 3)).bind fun t ht => goes_pure ?_
    exact Tree.mayHold_some.mpr ht

lemma listHolds_filter {want : Kind → Bool} {slots : List (Option Tree)}
    (h : ∀ slot ∈ slots, Payload.mayHold Tree.formedKind want slot = true) :
    Payload.listHolds Tree.formedKind want (slots.filter Option.isSome) = true := by
  refine List.all_eq_true.mpr fun slot hs => ?_
  obtain ⟨hslot, hsome⟩ := List.mem_filter.mp hs
  obtain ⟨t, rfl⟩ := Option.isSome_iff_exists.mp hsome
  exact Tree.holds_some.mpr (Tree.mayHold_some.mp (h _ hslot))

lemma reads_classLiteral (h : RulesRead d rules) {base : Parser Tree}
    (hbase : Goes d (Tree.Is Kind.isExpression) base) (isDeclaration : Bool) :
    Reads d k (Tree.Is (if isDeclaration then Kind.isStatement else Kind.isExpression))
      (classLiteral rules base isDeclaration) := by
  refine asks_here.bind_reads fun position => (reads_expectWord _).bind fun _ _ => ?_
  refine asks_current.bind_goes fun t => ?_
  extract_lets afterName
  have hname (name : Text) : Goes d (Tree.Is (if isDeclaration then Kind.isStatement else Kind.isExpression))
      (afterName name) := by
    refine (asks_atWord _).bind_goes fun isExtended => ?_
    extract_lets afterBase
    have hsuper (superClass : Option Tree)
        (hs : Payload.mayHold Tree.formedKind Kind.isExpression superClass = true) :
        Goes d (Tree.Is (if isDeclaration then Kind.isStatement else Kind.isExpression))
          (afterBase superClass) := by
      refine (goes_expect _).bind fun _ _ => ?_
      refine (goes_repeatUntil (asks_atPunct _) (goes_classMember h)).bind fun members hm => ?_
      refine (goes_expect _).bind fun _ _ => ?_
      have hmembers := listHolds_filter hm
      cases isDeclaration
      all_goals exact goes_pure (.node rfl (by simpa [Payload.isFormed] using ⟨hs, hmembers⟩))
    cases isExtended with
    | true => exact goes_skip.bind fun _ _ => (goes_some hbase).bind hsuper
    | false => exact hsuper none rfl
  cases t.isIdentifier with
  | true => exact goes_advance.bind fun _ _ => hname _
  | false =>
    cases isDeclaration with
    | true => exact goes_fail_bind rfl
    | false => exact hname []

end PlainScript.Grammar
