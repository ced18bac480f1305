import PlainScript.Proofs.MemberProgress

/-! What the rules for expressions take and what they answer. -/
namespace PlainScript.Grammar

variable {rules : Rules} {d k : Nat}

/-! ### Operands -/

lemma reads_expression (h : RulesRead d rules) (allowIn : Bool) :
    Reads d 2 (Tree.Is Kind.isExpression) (expression rules allowIn) := by
  refine asks_here.bind_reads fun position => (h.assignment allowIn).bind fun first hfirst => ?_
  refine (asks_atPunct _).bind_goes fun isSequence => ?_
  cases isSequence with
  | false => exact goes_pure hfirst
  | true =>
    refine (goes_repeatUntil ((asks_atPunct _).bind fun _ => asks_pure _)
      (goes_skip.bind fun _ _ => goes_assignment h allowIn)).bind fun others hothers => ?_
    refine goes_pure (.node rfl ?_)
    simpa [Payload.isFormed, Payload.listHolds] using ⟨hfirst, hothers⟩

lemma goes_expression (h : RulesRead d rules) (allowIn : Bool) :
    Goes d (Tree.Is Kind.isExpression) (expression rules allowIn) :=
  (reads_expression h allowIn).goes (by decide)

lemma reads_memberName : Reads d k (Tree.Is (· == .identifier)) memberName := by
  refine reads_current fun t => ?_
  split
  next hkind => exact readsAt_identifierHere (by simp [Token.isEnd, hkind])
  next hkind => exact readsAt_identifierHere (by simp [Token.isEnd, hkind])
  · exact reads_fail rfl t

lemma reads_arguments (h : RulesRead d rules) :
    Reads d k (fun args => Payload.listHolds Tree.formedKind Kind.isExpression args = true)
      (arguments rules) := by
  refine (reads_expect _).bind fun _ _ => ?_
  have hitem := reads_spreadOr (by decide) (h.assignment true)
  refine (goes_commaList (hitem.goes (by decide))).bind fun args hargs => ?_
  exact (goes_expect _).bind fun _ _ => goes_pure (by simpa using hargs)

lemma goes_indexRest (h : RulesRead d rules) : Goes d (Tree.Is Kind.isExpression) (indexRest rules) :=
  (goes_expression h true).bind fun _ ht => (goes_expect _).bind fun _ _ => goes_pure ht

lemma reads_primary (h : RulesRead d rules) {base : Parser Tree}
    (hbase : Goes d (Tree.Is Kind.isExpression) base) :
    Reads d k (Tree.Is Kind.isExpression) (primary rules base) := by
  refine asks_here.bind_reads fun position => reads_current fun t => ?_
  extract_lets leaf
  have hleaf (payload : Payload Tree) (ht : t.isEnd = false)
      (hwant : payload.kind.isExpression = true) (hformed : payload.isFormed Tree.formedKind = true) :
      ReadsAt t d k (Tree.Is Kind.isExpression) (leaf payload) :=
    (readsAt_skip ht).bind fun _ _ => goes_pure (.node hwant hformed)
  have hname (ht : t.isEnd = false) :
      ReadsAt t d k (Tree.Is Kind.isExpression) identifierHere :=
    (readsAt_identifierHere ht).mono (fun _ hi => hi.mono (by simp [Kind.isExpression, Kind.isStatement]))
      (Nat.le_refl k)
  split
  next hkind =>
    refine (asks_ahead 1).bind_readsAt fun next => ?_
    have hend : t.isEnd = false := by simp [Token.isEnd, hkind]
    split
    · exact (readsAt_skip hend).bind fun _ _ => (reads_functionExpression h true).goes (Nat.zero_le 3)
    · exact hname hend
  next hkind => exact hleaf _ (by simp [Token.isEnd, hkind]) rfl rfl
  next hkind => exact hleaf _ (by simp [Token.isEnd, hkind]) rfl rfl
  next hkind => exact hleaf _ (by simp [Token.isEnd, hkind]) rfl rfl
  next hkind => exact hleaf _ (by simp [Token.isEnd, hkind]) rfl rfl
  next hkind =>
    have hend : t.isEnd = false := by simp [Token.isEnd, hkind]
    repeat' split
    · exact hleaf _ hend rfl rfl
    · exact hleaf _ hend rfl rfl
    · exact hleaf _ hend rfl rfl
    · exact hleaf _ hend rfl rfl
    · exact reads_functionExpression h false t
    · exact reads_classLiteral h hbase false t
    · exact hname hend
    · exact reads_unexpected t
  next hkind =>
    refine readsAt_eat ?_ ?_
    · exact (goes_expression h true).bind fun _ ht => (goes_expect _).bind fun _ _ => goes_pure ht
    · rw [if_neg Bool.false_ne_true]
      repeat' split
      · exact reads_arrayLiteral h t
      · exact reads_object h t
      · exact reads_unexpected t
  · exact reads_unexpected t

lemma is_namedMember {owner name : Tree} {position : Position} {isOptional : Bool}
    (ho : owner.Is Kind.isExpression) (hn : name.Is (· == .identifier)) :
    (Tree.of (.memberExpression (some owner) (some name) false isOptional) position).Is Kind.isExpression := by
  have hexpression : name.Is Kind.isExpression := hn.mono (by simp [Kind.isExpression, Kind.isStatement])
  exact .node rfl (by simpa [Payload.isFormed] using ⟨⟨ho, hexpression⟩, hn⟩)

lemma is_indexedMember {owner index : Tree} {position : Position} {isOptional : Bool}
    (ho : owner.Is Kind.isExpression) (hi : index.Is Kind.isExpression) :
    (Tree.of (.memberExpression (some owner) (some index) true isOptional) position).Is Kind.isExpression :=
  .node rfl (by simpa [Payload.isFormed] using ⟨ho, hi⟩)

lemma goes_plainMember (h : RulesRead d rules) {owner : Tree} (ho : owner.Is Kind.isExpression)
    (position : Position) :
    Goes d (∀ t ∈ ·, t.Is Kind.isExpression) (plainMember rules owner position) := by
  refine (goes_eat _).bind fun isNamed _ => ?_
  cases isNamed with
  | true =>
    refine (reads_memberName.goes (Nat.zero_le 3)).bind fun name hn => goes_pure ?_
    simpa using is_namedMember ho hn
  | false =>
    refine (goes_eat _).bind fun isIndexed _ => ?_
    cases isIndexed with
    | true =>
      refine (goes_indexRest h).bind fun index hi => goes_pure ?_
      simpa using is_indexedMember ho hi
    | false => exact goes_pure (by simp)

lemma goes_call (h : RulesRead d rules) {owner : Tree} (ho : owner.Is Kind.isExpression)
    (position : Position) (isOptional : Bool) :
    Goes d (∀ t ∈ ·, t.Is Kind.isExpression)
      (do
        let args ← arguments rules
        return some (.of (.callExpression (some owner) args isOptional) position) : Parser (Option Tree)) := by
  refine ((reads_arguments h).goes (Nat.zero_le 3)).bind fun args hargs => goes_pure ?_
  have hcall : (Tree.of (.callExpression (some owner) args isOptional) position).Is Kind.isExpression :=
    .node rfl (by simpa [Payload.isFormed] using ⟨ho, hargs⟩)
  simpa using hcall

lemma goes_suffix (h : RulesRead d rules) {owner : Tree} (ho : owner.Is Kind.isExpression)
    (position : Position) :
    Goes d (∀ t ∈ ·, t.Is Kind.isExpression) (suffix rules position owner) := by
  refine (goes_plainMember h ho position).bind fun extended hextended => ?_
  cases extended with
  | some t => exact goes_pure hextended
  | none =>
  refine (goes_eat _).bind fun isOptional _ => ?_
  cases isOptional with
  | true =>
    refine (asks_atPunct _).bind_goes fun isCall => ?_
    cases isCall with
    | true => exact goes_call h ho position true
    | false =>
      refine (goes_eat _).bind fun isIndexed _ => ?_
      cases isIndexed with
      | true =>
        refine (goes_indexRest h).bind fun index hi => goes_pure ?_
        simpa using is_indexedMember ho hi
      | false =>
        refine (reads_memberName.goes (Nat.zero_le 3)).bind fun name hn => goes_pure ?_
        simpa using is_namedMember ho hn
  | false =>
    refine (asks_atPunct _).bind_goes fun isCall => ?_
    cases isCall with
    | true => exact goes_call h ho position false
    | false =>
      refine asks_current.bind_goes fun t => ?_
      split
      · refine goes_skip.bind fun _ _ => goes_pure ?_
        have htagged : (Tree.of (.taggedTemplateExpression (some owner)
            (some (Tree.of (.templateLiteral t.text) t.position))) position).Is Kind.isExpression :=
          .node rfl (by simpa [Payload.isFormed] using ⟨ho, .node rfl rfl⟩)
        simpa using htagged
      · exact goes_pure (by simp)

lemma reads_constructionWith (h : RulesRead d rules) {callee : Parser Tree}
    (hcallee : Goes d (Tree.Is Kind.isExpression) callee) :
    Reads d k (Tree.Is Kind.isExpression) (constructionWith rules callee) := by
  refine asks_here.bind_reads fun position => (reads_expectWord _).bind fun _ _ => ?_
  refine (goes_eat _).bind fun isTarget _ => ?_
  cases isTarget with
  | true =>
    refine (asks_atName _).bind_goes fun isName => ?_
    cases isName with
    | true => exact goes_skip.bind fun _ _ => goes_pure (.node rfl rfl)
    | false => exact goes_fail_bind rfl
  | false =>
    refine hcallee.bind fun start hstart => ?_
    refine (goes_extend hstart fun owner ho =>
      asks_here.bind_goes fun position => goes_plainMember h ho position).bind fun callee hc => ?_
    refine (asks_atPunct _).bind_goes fun hasArguments => ?_
    cases hasArguments with
    | true =>
      refine ((reads_arguments h).goes (Nat.zero_le 3)).bind fun args hargs => goes_pure (.node rfl ?_)
      simpa [Payload.isFormed] using ⟨hc, hargs⟩
    | false => exact goes_pure (.node rfl (by simpa [Payload.isFormed, Payload.listHolds] using hc))

lemma reads_operandUpTo (h : RulesRead d rules) (n : Nat) :
    Reads d k (Tree.Is Kind.isExpression) (operandUpTo rules n) ∧
      Reads d k (Tree.Is Kind.isExpression) (headUpTo rules n) := by
  induction n generalizing k with
  | zero => exact ⟨reads_unexpected, reads_unexpected⟩
  | succ n ih =>
    constructor
    · refine asks_here.bind_reads fun position => ih.2.bind fun head hhead => ?_
      exact goes_extend hhead fun owner ho => goes_suffix h ho position
    · refine (asks_atWord _).bind_reads fun isNew => ?_
      cases isNew with
      | true => exact reads_constructionWith h ((ih (k := 0)).2.goes (Nat.zero_le 3))
      | false => exact reads_primary h ((ih (k := 0)).1.goes (Nat.zero_le 3))

lemma reads_operand (h : RulesRead d rules) :
    Reads d k (Tree.Is Kind.isExpression) (operand rules) :=
  asks_tokensLeft.bind_reads fun n => (reads_operandUpTo h (2 * n)).1

/-! ### Operators -/

lemma reads_postfixed (h : RulesRead d rules) :
    Reads d k (Tree.Is Kind.isExpression) (postfixed rules) := by
  refine asks_here.bind_reads fun position => (reads_operand h).bind fun operand ho => ?_
  refine asks_current.bind_goes fun t => ?_
  extract_lets afterTarget
  split
  · split
    · exact goes_fail_bind rfl
    · exact goes_skip.bind fun _ _ => goes_pure (.node rfl (by simpa [Payload.isFormed] using ho))
  · exact goes_pure ho

lemma isEnd_of_isUnaryOperator {c : Context} {t next : Token} (h : isUnaryOperator c t next = true) :
    t.isEnd = false := by
  unfold isUnaryOperator at h
  split at h
  all_goals simp_all [Token.isEnd]

lemma reads_unary (h : RulesRead d rules) : Reads d 0 (Tree.Is Kind.isExpression) (unary rules) := by
  have hoperand : Goes d (Tree.Is Kind.isExpression) (rules .unary) := h.unary.goes (by decide)
  refine reads_current fun t => asks_read.bind_readsAt fun c => ?_
  refine (asks_ahead 1).bind_readsAt fun next => ?_
  split
  next hop =>
    refine (readsAt_skip (isEnd_of_isUnaryOperator hop)).bind fun _ _ => hoperand.bind fun e he => ?_
    exact goes_pure (.node rfl (by simp [Payload.isFormed, he]))
  next =>
    split
    next hop =>
      have hend : t.isEnd = false := by
        rcases (Bool.or_eq_true ..).mp hop with hop | hop <;> exact isEnd_of_isPunctuator hop
      refine (readsAt_skip hend).bind fun _ _ => hoperand.bind fun e he => ?_
      split
      · exact goes_fail_bind rfl
      · exact goes_pure (.node rfl (by simpa [Payload.isFormed] using he))
    next => exact reads_postfixed h t

lemma operatorLevel_ne_zero (allowIn : Bool) {t : Token} (h : binaryLevel allowIn t ≠ 0) :
    Print.operatorLevel t.text ≠ 0 := by
  have htrue : binaryLevel true t ≠ 0 := by
    cases allowIn with
    | true => exact h
    | false =>
      unfold binaryLevel at h ⊢
      cases hkind : t.kind with
      | keyword =>
        simp only [hkind, Bool.and_false, Bool.false_eq_true, if_false, Bool.and_true] at h ⊢
        split at h
        next hop => rw [if_pos hop]; decide
        · exact absurd rfl h
      | _ => simpa only [hkind] using h
  have := operatorLevel_eq htrue
  omega

lemma reads_binaryUpTo (h : RulesRead d rules) (n least : Nat) (allowIn : Bool) :
    Reads d 1 (Tree.Is Kind.isExpression) (binaryUpTo rules n least allowIn) := by
  induction n generalizing least with
  | zero => exact reads_unexpected
  | succ n ih =>
    refine asks_here.bind_reads fun position => h.unary.bind fun first hfirst => ?_
    refine goes_extend hfirst fun left hleft => asks_current.bind_goes fun t => ?_
    extract_lets level
    split
    · exact goes_pure (by simp)
    next hlevel =>
      refine goes_skip.bind fun _ _ => ((ih _).goes (by decide)).bind fun right hright => goes_pure ?_
      have hop : Print.operatorLevel t.text ≠ 0 := operatorLevel_ne_zero allowIn (by simp_all [level])
      have hbinary : (Tree.of (.binaryExpression t.text (some left) (some right)) position).Is
          Kind.isExpression := .node rfl (by simp [Payload.isFormed, hop, hleft, hright])
      simpa using hbinary

lemma reads_conditional (h : RulesRead d rules) (allowIn : Bool) :
    Reads d 1 (Tree.Is Kind.isExpression) (conditional rules allowIn) := by
  have hbinary : Reads d 1 (Tree.Is Kind.isExpression) (binary rules allowIn) :=
    asks_tokensLeft.bind_reads fun n => reads_binaryUpTo h n 1 allowIn
  refine asks_here.bind_reads fun position => hbinary.bind fun test htest => ?_
  refine (goes_eat _).bind fun isConditional _ => ?_
  cases isConditional with
  | false => exact goes_pure htest
  | true =>
    refine (goes_assignment h true).bind fun consequent hc => (goes_expect _).bind fun _ _ => ?_
    refine (goes_assignment h allowIn).bind fun alternate ha => goes_pure (.node rfl ?_)
    simpa [Payload.isFormed] using ⟨⟨htest, hc⟩, ha⟩

lemma goes_yieldRest (h : RulesRead d rules) (allowIn : Bool) (position : Position) :
    Goes d (Tree.Is Kind.isExpression) (yieldRest rules allowIn position) := by
  refine (goes_eat _).bind fun isDelegating _ => ?_
  extract_lets op afterArgument
  have hop : Print.isYield op = true := by cases isDelegating <;> rfl
  have hargument (argument : Option Tree)
      (ha : Payload.mayHold Tree.formedKind Kind.isExpression argument = true) :
      Goes d (Tree.Is Kind.isExpression) (afterArgument argument) := by
    refine goes_pure (.node rfl ?_)
    cases argument <;> simp_all [Payload.isFormed]
  refine asks_current.bind_goes fun t => ?_
  split
  · exact (goes_some (goes_assignment h allowIn)).bind hargument
  · exact hargument none rfl

lemma reads_assignment (h : RulesRead d rules) (allowIn : Bool) :
    Reads d 1 (Tree.Is Kind.isExpression) (assignment rules allowIn) := by
  refine asks_get.bind_reads fun s => asks_here.bind_reads fun position => ?_
  split
  · refine (asks_ahead 1).bind_reads fun next => ?_
    extract_lets isAsync afterAsync
    split
    · exact (looks_skip (by decide)).bind_reads (by decide) fun _ _ => reads_arrowFunction h _
    · exact reads_arrowFunction h _
  · intro t
    refine asks_read.bind_readsAt fun c => readsAt_atName ?_
    split
    next hyield =>
      refine (readsAt_skip (isEnd_of_isName ((Bool.and_eq_true ..).mp hyield).2)).bind fun _ _ => ?_
      exact goes_yieldRest h allowIn position
    · refine ReadsAt.bind (reads_conditional h allowIn t) fun left hleft => asks_current.bind_goes fun t => ?_
      extract_lets afterTarget
      split
      · exact goes_pure hleft
      split
      · exact goes_fail_bind rfl
      refine goes_skip.bind fun _ _ => (goes_assignment h allowIn).bind fun right hright => ?_
      exact goes_pure (.node rfl (by simpa [Payload.isFormed] using ⟨hleft, hright⟩))

end PlainScript.Grammar
