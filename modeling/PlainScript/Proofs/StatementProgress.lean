import PlainScript.Proofs.ExpressionProgress

/-! What the rules for statements take and what they answer. -/
namespace PlainScript.Grammar

variable {rules : Rules} {d k : Nat} {t : Token}

lemma goes_statement (h : RulesRead d rules) : Goes d (Tree.Is Kind.isStatement) (rules .statement) :=
  h.statement.goes (Nat.le_refl 3)

/-! ### Declarations -/

lemma asks_atLexicalDeclaration : Asks atLexicalDeclaration := by
  refine (asks_atWord _).bind fun isConst => ?_
  split
  · exact asks_pure _
  · exact (asks_ahead 1).bind fun next => (asks_atName _).bind fun isLet => asks_pure _

/-- A declaration begins with a word. -/
lemma readsAt_atLexicalDeclaration {α : Type} {P : α → Prop} {q : Bool → Parser α}
    (htrue : t.isEnd = false → ReadsAt t d k P (q true)) (hfalse : ReadsAt t d k P (q false)) :
    ReadsAt t d k P (atLexicalDeclaration >>= q) := by
  have hrun (isLexical : Bool) (ht : isLexical = true → t.isEnd = false) : ReadsAt t d k P (q isLexical) := by
    cases isLexical with
    | true => exact htrue (ht rfl)
    | false => exact hfalse
  unfold atLexicalDeclaration
  rw [bind_assoc]
  refine readsAt_atWord ?_
  cases hconst : t.isKeyword "const" with
  | true => exact hrun true fun _ => isEnd_of_isKeyword hconst
  | false =>
    rw [if_neg Bool.false_ne_true, bind_assoc]
    refine (asks_ahead 1).bind_readsAt fun next => ?_
    rw [bind_assoc]
    refine readsAt_atName (hrun _ fun hlet => ?_)
    exact isEnd_of_isName ((Bool.and_eq_true ..).mp hlet).1

lemma goes_declarator (h : RulesRead d rules) (allowIn : Bool) :
    Goes d (Tree.Is (· == .variableDeclarator))
      (do
        let position ← here
        let target ← bindingTarget rules (object rules)
        let init ← if ← eat "=" then some <$> rules (.assignment allowIn) else pure none
        return .of (.variableDeclarator (some target) init) position : Parser Tree) := by
  refine asks_here.bind_goes fun position => ?_
  refine ((reads_bindingTarget h (reads_object (k := 0) h)).goes (Nat.zero_le 3)).bind fun target ht => ?_
  refine (goes_eat _).bind fun hasInit _ => ?_
  extract_lets afterInit
  have hinit (init : Option Tree) (hi : Payload.mayHold Tree.formedKind Kind.isExpression init = true) :
      Goes d (Tree.Is (· == .variableDeclarator)) (afterInit init) :=
    goes_pure (.node rfl (by simpa [Payload.isFormed] using ⟨ht, hi⟩))
  cases hasInit with
  | true => exact (goes_some (goes_assignment h allowIn)).bind hinit
  | false => exact hinit none rfl

/-- After its first word, a declaration goes on in any way. -/
lemma variableDeclaration_eq (h : RulesRead d rules) (allowIn : Bool) :
    ∃ rest : Position → Token → Parser Tree,
      variableDeclaration rules allowIn = (do rest (← here) (← advance)) ∧
        ∀ position keyword, Goes d (Tree.Is (· == .variableDeclaration)) (rest position keyword) := by
  refine ⟨_, rfl, fun position keyword => ?_⟩
  refine (goes_declarator h allowIn).bind fun first hfirst => ?_
  refine (goes_repeatUntil ((asks_atPunct _).bind fun _ => asks_pure _)
    (goes_skip.bind fun _ _ => goes_declarator h allowIn)).bind fun others hothers => ?_
  refine goes_pure (.node rfl ?_)
  simpa [Payload.isFormed, Payload.listHolds] using ⟨hfirst, hothers⟩

lemma readsAt_variableDeclaration (h : RulesRead d rules) (allowIn : Bool) (ht : t.isEnd = false) :
    ReadsAt t d k (Tree.Is (· == .variableDeclaration)) (variableDeclaration rules allowIn) := by
  obtain ⟨rest, heq, hrest⟩ := variableDeclaration_eq h allowIn
  rw [heq]
  exact asks_here.bind_readsAt fun _ => (readsAt_advance ht).bind fun _ _ => hrest _ _

/-! ### Statements that nest -/

lemma reads_condition (h : RulesRead d rules) : Reads d k (Tree.Is Kind.isExpression) (condition rules) := by
  refine (reads_expect _).bind fun _ _ => (goes_expression h true).bind fun test htest => ?_
  exact (goes_expect _).bind fun _ _ => goes_pure htest

lemma goes_condition (h : RulesRead d rules) : Goes d (Tree.Is Kind.isExpression) (condition rules) :=
  (reads_condition h).goes (Nat.zero_le 3)

lemma reads_ifStatement (h : RulesRead d rules) :
    Reads d k (Tree.Is Kind.isStatement) (ifStatement rules) := by
  refine asks_here.bind_reads fun position => (reads_expectWord _).bind fun _ _ => ?_
  refine (goes_condition h).bind fun test htest => (goes_statement h).bind fun consequent hc => ?_
  refine (asks_atWord _).bind_goes fun hasElse => ?_
  extract_lets afterElse
  have helse (alternate : Option Tree)
      (ha : Payload.mayHold Tree.formedKind Kind.isStatement alternate = true) :
      Goes d (Tree.Is Kind.isStatement) (afterElse alternate) :=
    goes_pure (.node rfl (by simpa [Payload.isFormed] using ⟨⟨htest, hc⟩, ha⟩))
  cases hasElse with
  | true => exact goes_skip.bind fun _ _ => (goes_some (goes_statement h)).bind helse
  | false => exact helse none rfl

lemma goes_optionalExpression (h : RulesRead d rules) (closing : Text) :
    Goes d (fun slot => Payload.mayHold Tree.formedKind Kind.isExpression slot = true)
      (optionalExpression rules closing) := by
  refine (asks_atPunct _).bind_goes fun isMissing => ?_
  extract_lets afterExpression
  have hafter (e : Option Tree) (he : Payload.mayHold Tree.formedKind Kind.isExpression e = true) :
      Goes d (fun slot => Payload.mayHold Tree.formedKind Kind.isExpression slot = true)
        (afterExpression e) := (goes_expect _).bind fun _ _ => goes_pure he
  cases isMissing with
  | true => exact hafter none rfl
  | false => exact (goes_some (goes_expression h true)).bind hafter

lemma reads_whileStatement (h : RulesRead d rules) :
    Reads d k (Tree.Is Kind.isStatement) (whileStatement rules) := by
  refine asks_here.bind_reads fun position => (reads_expectWord _).bind fun _ _ => ?_
  refine (goes_condition h).bind fun test htest => (goes_statement h).bind fun body hbody => ?_
  exact goes_pure (.node rfl (by simpa [Payload.isFormed] using ⟨htest, hbody⟩))

lemma reads_doWhileStatement (h : RulesRead d rules) :
    Reads d k (Tree.Is Kind.isStatement) (doWhileStatement rules) := by
  refine asks_here.bind_reads fun position => (reads_expectWord _).bind fun _ _ => ?_
  refine (goes_statement h).bind fun body hbody => (goes_expectWord _).bind fun _ _ => ?_
  refine (goes_condition h).bind fun test htest => ?_
  refine ((goes_eat _).map (Q := fun _ => True) fun _ _ => trivial).bind fun _ _ => ?_
  exact goes_pure (.node rfl (by simpa [Payload.isFormed] using ⟨htest, hbody⟩))

lemma reads_returnStatement (h : RulesRead d rules) :
    Reads d k (Tree.Is Kind.isStatement) (returnStatement rules) := by
  refine asks_here.bind_reads fun position => (reads_expectWord _).bind fun _ _ => ?_
  refine asks_current.bind_goes fun t => ?_
  extract_lets isBare afterArgument
  have hargument (argument : Option Tree)
      (ha : Payload.mayHold Tree.formedKind Kind.isExpression argument = true) :
      Goes d (Tree.Is Kind.isStatement) (afterArgument argument) :=
    goes_semicolon.bind fun _ _ => goes_pure (.node rfl (by simpa [Payload.isFormed] using ha))
  split
  · exact hargument none rfl
  · exact (goes_some (goes_expression h true)).bind hargument

lemma readsAt_jumpLabel (ht : t.isEnd = false) : ReadsAt t d k (fun _ => True) jumpLabel := by
  refine (readsAt_skip ht).bind fun _ _ => asks_current.bind_goes fun t => ?_
  split
  · exact goes_advance.bind fun _ _ => goes_semicolon.bind fun _ _ => goes_pure trivial
  · exact goes_semicolon.bind fun _ _ => goes_pure trivial

lemma reads_throwStatement (h : RulesRead d rules) :
    Reads d k (Tree.Is Kind.isStatement) (throwStatement rules) := by
  refine asks_here.bind_reads fun position => (reads_expectWord _).bind fun _ _ => ?_
  refine asks_current.bind_goes fun t => ?_
  split
  · exact goes_fail_bind rfl
  refine (goes_expression h true).bind fun argument ha => goes_semicolon.bind fun _ _ => ?_
  exact goes_pure (.node rfl (by simpa [Payload.isFormed] using ha))

lemma not_isName_of_isPunctuator {p w : Text} (h : t.isPunctuator p = true) : t.isName w = false := by
  simp_all [Token.isPunctuator, Token.isName]

lemma not_isKeyword_of_isPunctuator {p w : Text} (h : t.isPunctuator p = true) : t.isKeyword w = false := by
  simp_all [Token.isPunctuator, Token.isKeyword]

/-- What follows the first semicolon of a loop head. -/
lemma reads_loopRest (h : RulesRead d rules) {init : Option Tree} (position : Position)
    (hi : Payload.mayHold Tree.formedKind Kind.isLoopHead init = true) :
    Reads d k (Tree.Is Kind.isStatement) (do
      expect ";"
      let test ← optionalExpression rules ";"
      let update ← optionalExpression rules ")"
      let body ← rules .statement
      return .of (.forStatement init test update (some body)) position : Parser Tree) := by
  refine (reads_expect _).bind fun _ _ => (goes_optionalExpression h _).bind fun test htest => ?_
  refine (goes_optionalExpression h _).bind fun update hu => (goes_statement h).bind fun body hbody => ?_
  exact goes_pure (.node rfl (by simpa [Payload.isFormed] using ⟨⟨⟨hi, htest⟩, hu⟩, hbody⟩))

lemma reads_forStatement (h : RulesRead d rules) :
    Reads d k (Tree.Is Kind.isStatement) (forStatement rules) := by
  refine asks_here.bind_reads fun position => (reads_expectWord _).bind fun _ _ => ?_
  refine (asks_atName _).bind_goes fun isAwait => ?_
  extract_lets afterInit afterAwait
  have hinit {want : Kind → Bool} (hwant : ∀ kind, want kind = true → kind.isLoopHead = true)
      (init : Option Tree) (hi : ∃ t, init = some t ∧ t.Is want) :
      Goes d (Tree.Is Kind.isStatement) (afterInit init) := by
    obtain ⟨t, rfl, ht⟩ := hi
    have ht := ht.mono hwant
    refine (asks_atName _).bind_goes fun isOf => (asks_atWord _).bind_goes fun isIn => ?_
    split
    · refine goes_skip.bind fun _ _ => ?_
      extract_lets afterRight
      have hright (right : Tree) (hr : right.Is Kind.isExpression) :
          Goes d (Tree.Is Kind.isStatement) (afterRight right) := by
        refine (goes_expect _).bind fun _ _ => (goes_statement h).bind fun body hbody => ?_
        exact goes_pure (.node rfl (by simpa [Payload.isFormed] using ⟨⟨ht, hr⟩, hbody⟩))
      split
      · exact (goes_assignment h true).bind hright
      · exact (goes_expression h true).bind hright
    · extract_lets afterOf
      split
      · exact goes_fail_bind rfl
      · exact (reads_loopRest (k := 0) h position (Tree.mayHold_some.mpr ht)).goes (Nat.zero_le 3)
  have hempty {t : Token} (ht : t.isPunctuator ";" = true) :
      ReadsAt t d 3 (Tree.Is Kind.isStatement) (afterInit none) := by
    refine readsAt_atName (readsAt_atWord ?_)
    rw [not_isName_of_isPunctuator ht, not_isKeyword_of_isPunctuator ht]
    refine .ite (fun hin => absurd hin Bool.false_ne_true) fun _ => ?_
    extract_lets afterOf
    exact .ite (fun _ => reads_fail_bind rfl t) fun _ => reads_loopRest h position rfl t
  have hawait (u : Unit) : Goes d (Tree.Is Kind.isStatement) (afterAwait u) := by
    refine (goes_expect _).bind fun _ _ => Reads.goes (fun t => ?_) (Nat.le_refl 3)
    refine readsAt_atPunct (readsAt_atWord ?_)
    have hdeclaration (hend : t.isEnd = false) :
        ReadsAt t d 3 (Tree.Is Kind.isStatement) (some <$> variableDeclaration rules false >>= afterInit) :=
      ((readsAt_variableDeclaration h false hend).map fun t ht => ⟨t, rfl, ht⟩).bind
        (hinit (by simp [Kind.isLoopHead]))
    have hexpression :
        ReadsAt t d 3 (Tree.Is Kind.isStatement) (some <$> expression rules false >>= afterInit) :=
      (((reads_expression h false).mono (fun _ => id) (by decide) t).map fun t ht => ⟨t, rfl, ht⟩).bind
        (hinit (by simp_all [Kind.isLoopHead]))
    cases hsemicolon : t.isPunctuator ";" with
    | true => exact asks_atLexicalDeclaration.bind_readsAt fun _ => hempty hsemicolon
    | false =>
      refine readsAt_atLexicalDeclaration (fun hend => ?_) ?_
      · rw [if_neg Bool.false_ne_true, Bool.or_true, if_pos rfl]
        exact hdeclaration hend
      · rw [if_neg Bool.false_ne_true, Bool.or_false]
        exact .ite (fun hvar => hdeclaration (isEnd_of_isKeyword hvar)) fun _ => hexpression
  split
  · exact goes_skip.bind fun _ _ => hawait ()
  · exact hawait ()

lemma reads_tryStatement (h : RulesRead d rules) :
    Reads d k (Tree.Is Kind.isStatement) (tryStatement rules) := by
  have hblock : Goes d (Tree.Is (· == .blockStatement)) (block rules) :=
    (reads_block h).goes (Nat.zero_le 3)
  refine asks_here.bind_reads fun position => (reads_expectWord _).bind fun _ _ => ?_
  refine hblock.bind fun body hbody => (asks_atWord _).bind_goes fun isCaught => ?_
  extract_lets afterHandler afterParam
  have hhandler (param handler : Option Tree)
      (hp : Payload.mayHold Tree.formedKind Kind.isExpression param = true)
      (hh : Payload.mayHold Tree.formedKind (· == .blockStatement) handler = true) :
      Goes d (Tree.Is Kind.isStatement) (afterHandler (param, handler)) := by
    refine (asks_atWord _).bind_goes fun isFinal => ?_
    extract_lets afterFinalizer
    have hfinalizer (finalizer : Option Tree)
        (hf : Payload.mayHold Tree.formedKind (· == .blockStatement) finalizer = true) :
        Goes d (Tree.Is Kind.isStatement) (afterFinalizer finalizer) := by
      change Goes d _ (if _ then _ else _)
      split
      · exact goes_fail_bind rfl
      next hsome =>
        have hsome : (handler.isSome || finalizer.isSome) = true := by
          cases handler <;> cases finalizer <;> simp_all
        exact goes_pure (.node rfl (by simpa [Payload.isFormed] using ⟨⟨⟨⟨hbody, hp⟩, hh⟩, hf⟩, by simpa using hsome⟩))
    cases isFinal with
    | true => exact goes_skip.bind fun _ _ => (goes_some hblock).bind hfinalizer
    | false => exact hfinalizer none rfl
  cases isCaught with
  | true =>
    refine goes_skip.bind fun _ _ => (goes_eat _).bind fun hasParam _ => ?_
    have hparam (param : Option Tree)
        (hp : Payload.mayHold Tree.formedKind Kind.isExpression param = true) :
        Goes d (Tree.Is Kind.isStatement) (afterParam param) :=
      hblock.bind fun handler hh => hhandler param (some handler) hp (Tree.mayHold_some.mpr hh)
    cases hasParam with
    | true =>
      refine ((reads_bindingTarget h (reads_object (k := 0) h)).goes (Nat.zero_le 3)).bind fun target ht => ?_
      exact (goes_expect _).bind fun _ _ => hparam (some target) (Tree.mayHold_some.mpr ht)
    | false => exact hparam none rfl
  | false => exact hhandler none none rfl rfl

lemma reads_clause (h : RulesRead d rules) (defaultSeen : Bool) :
    Reads d 3 (Tree.Is (· == .switchCase)) (clause rules defaultSeen) := by
  refine looks_drainComments.bind_reads (Nat.le_refl 3) fun leading _ => ?_
  refine asks_here.bind_reads fun position => ?_
  intro t
  refine readsAt_atWord ?_
  extract_lets afterTest afterDefault
  have htest (test : Option Tree) (ht : Payload.mayHold Tree.formedKind Kind.isExpression test = true) :
      Goes d (Tree.Is (· == .switchCase)) (afterTest test) := by
    refine (goes_expect _).bind fun _ _ => (goes_statementList h _).bind fun consequent hc => ?_
    exact goes_pure (.node rfl (by simpa [Payload.isFormed] using ⟨ht, hc⟩))
  refine readsAt_atWord ?_
  refine .ite (fun hcase => ?_) fun _ => .ite (fun hdefault => ?_) fun _ => ?_
  · refine (readsAt_skip (isEnd_of_isKeyword hcase)).bind fun _ _ => ?_
    exact (goes_some (goes_expression h true)).bind htest
  · refine .ite (fun _ => reads_fail_bind rfl t) fun _ => ?_
    exact (readsAt_skip (isEnd_of_isKeyword hdefault)).bind fun _ _ => htest none rfl
  · exact ReadsAt.bind (reads_unexpected t) htest

lemma reads_switchStatement (h : RulesRead d rules) :
    Reads d k (Tree.Is Kind.isStatement) (switchStatement rules) := by
  refine asks_here.bind_reads fun position => (reads_expectWord _).bind fun _ _ => ?_
  refine (goes_condition h).bind fun discriminant hd => (goes_expect _).bind fun _ _ => ?_
  refine (goes_extend (P := fun clauses : List Tree => ∀ t ∈ clauses, t.Is (· == .switchCase))
    (by simp) fun clauses hc => ?_).bind fun clauses hc => ?_
  · refine (asks_atPunct _).bind_goes fun isEnd => ?_
    cases isEnd with
    | true => exact goes_pure (by simp)
    | false =>
      refine ((reads_clause h _).goes (Nat.le_refl 3)).bind fun last hlast => goes_pure ?_
      simpa [or_imp, forall_and] using ⟨hc, hlast⟩
  · refine goes_drainComments.bind fun trailing _ => (goes_expect _).bind fun _ _ => ?_
    exact goes_pure (.node rfl (by simpa [Payload.isFormed] using ⟨hd, hc⟩))

lemma readsAt_labeledStatement (h : RulesRead d rules) (ht : t.isEnd = false) :
    ReadsAt t d k (Tree.Is Kind.isStatement) (labeledStatement rules) := by
  refine asks_here.bind_readsAt fun position => (readsAt_advance ht).bind fun label _ => ?_
  refine goes_skip.bind fun _ _ => (goes_statement h).bind fun body hbody => ?_
  exact goes_pure (.node rfl (by simpa [Payload.isFormed] using hbody))

lemma reads_expressionStatement (h : RulesRead d rules) :
    Reads d 2 (Tree.Is Kind.isStatement) (expressionStatement rules) := by
  refine asks_here.bind_reads fun position => (reads_expression h true).bind fun e he => ?_
  refine goes_semicolon.bind fun _ _ => ?_
  exact goes_pure (.node rfl (by simpa [Payload.isFormed] using he))

lemma readsAt_debuggerStatement (ht : t.isEnd = false) :
    ReadsAt t d k (Tree.Is Kind.isStatement) debuggerStatement := by
  refine asks_here.bind_readsAt fun position => (readsAt_skip ht).bind fun _ _ => ?_
  exact goes_semicolon.bind fun _ _ => goes_pure (.node rfl rfl)

/-! ### Statements -/

lemma reads_bareStatement (h : RulesRead d rules) :
    Reads d 2 (Tree.Is Kind.isStatement) (bareStatement rules) := by
  refine reads_current fun t => (asks_ahead 1).bind_readsAt fun next => ?_
  extract_lets declaration isWord
  have hdeclaration (ht : t.isEnd = false) : ReadsAt t d 2 (Tree.Is Kind.isStatement) declaration :=
    (readsAt_variableDeclaration h true ht).bind fun d hd => goes_semicolon.bind fun _ _ =>
      goes_pure (hd.mono (by simp [Kind.isStatement]))
  refine .ite (fun _ => ?_) fun _ => ?_
  · exact (reads_block h).mono (fun _ hb => hb.mono (by simp [Kind.isStatement])) (Nat.le_refl 2) t
  refine .ite (fun hsemicolon => ?_) fun _ => ?_
  · exact (readsAt_skip (isEnd_of_isPunctuator hsemicolon)).bind fun _ _ => goes_pure (.node rfl rfl)
  refine .ite (fun hword => ?_) fun _ => ?_
  · exact hdeclaration (((Bool.or_eq_true ..).mp hword).elim isEnd_of_isKeyword isEnd_of_isKeyword)
  refine .ite (fun _ => reads_functionDeclaration h false t) fun _ => ?_
  refine .ite (fun _ => reads_classLiteral h ((reads_operand (k := 0) h).goes (Nat.zero_le 3)) true t)
    fun _ => ?_
  refine .ite (fun _ => reads_ifStatement h t) fun _ => ?_
  refine .ite (fun _ => reads_forStatement h t) fun _ => ?_
  refine .ite (fun _ => reads_whileStatement h t) fun _ => ?_
  refine .ite (fun _ => reads_doWhileStatement h t) fun _ => ?_
  refine .ite (fun _ => reads_returnStatement h t) fun _ => ?_
  have hjump {payload : Text → Payload Tree} {word : Text} (hword : t.isKeyword word = true)
      (hkind : ∀ label, (payload label).kind.isStatement = true)
      (hformed : ∀ label, (payload label).isFormed Tree.formedKind = true) :
      ReadsAt t d 2 (Tree.Is Kind.isStatement) (do return .of (payload (← jumpLabel)) t.position) :=
    (readsAt_jumpLabel (isEnd_of_isKeyword hword)).bind fun label _ =>
      goes_pure (.node (hkind label) (hformed label))
  refine .ite (fun hword => hjump hword (fun _ => rfl) fun _ => rfl) fun _ => ?_
  refine .ite (fun hword => hjump hword (fun _ => rfl) fun _ => rfl) fun _ => ?_
  refine .ite (fun _ => reads_throwStatement h t) fun _ => ?_
  refine .ite (fun _ => reads_tryStatement h t) fun _ => ?_
  refine .ite (fun _ => reads_switchStatement h t) fun _ => ?_
  refine .ite (fun hword => readsAt_debuggerStatement (isEnd_of_isKeyword hword)) fun _ => ?_
  refine .ite (fun _ => reads_fail rfl t) fun _ => ?_
  refine .ite (fun _ => reads_fail rfl t) fun _ => ?_
  refine .ite (fun _ => reads_fail rfl t) fun _ => ?_
  refine readsAt_atLexicalDeclaration (fun ht => hdeclaration ht) ?_
  rw [if_neg Bool.false_ne_true]
  refine .ite (fun hasync => ?_) fun _ => ?_
  · simp only [Bool.and_eq_true] at hasync
    exact (readsAt_skip (isEnd_of_isName hasync.1.1)).bind fun _ _ =>
      (reads_functionDeclaration h true).goes (Nat.zero_le 3)
  refine .ite (fun hlabel => ?_) fun _ => reads_expressionStatement h t
  exact readsAt_labeledStatement h (isEnd_of_isIdentifier ((Bool.and_eq_true ..).mp hlabel).1)

lemma reads_statement (h : RulesRead d rules) : Reads d 2 (Tree.Is Kind.isStatement) (statement rules) := by
  refine looks_drainComments.bind_reads (by decide) fun comments _ => ?_
  exact (reads_bareStatement h).bind fun t ht => goes_pure ht.withLeading

end PlainScript.Grammar
