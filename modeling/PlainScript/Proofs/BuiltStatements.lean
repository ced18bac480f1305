import PlainScript.Building.Script
import PlainScript.Proofs.BuiltOperands

/-! The rules for statements, over an arena and over trees. -/
namespace PlainScript.Building

open Grammar (Parser State Rules)
open Arena

variable {rules : Rules} {rules' : NodeRules}

/-! ### Simple statements -/

lemma follows_variableDeclaration (h : RulesFollow rules rules') (allowIn : Bool) :
    Follows [] One (Grammar.variableDeclaration rules allowIn) (variableDeclaration rules' allowIn) := by
  refine Follows.read fun position => Follows.read fun keyword => ?_
  extract_lets keyword declarator declarator'
  have hdeclarator : Follows [] One declarator declarator' := by
    refine Follows.read fun position => Follows.then (follows_bindingTarget (follows_object h) h) ?_
    rintro target targetId _ rfl
    refine Follows.read fun _ => ?_
    extract_lets afterInit afterInit'
    have hinit (init : Option Held) : Follows ((target, targetId) :: init.toList) One (afterInit (init.map Prod.fst))
        (afterInit' (init.map Prod.snd)) :=
      follows_make (.variableDeclarator (some (target, targetId)) init)
        (congrArg ((target, targetId) :: ·) (List.append_nil _)) rfl rfl trivial
    refine follows_ite (fun _ => Follows.then (h _).mapSome ?_) fun _ => hinit none
    rintro _ _ _ ⟨init, rfl, rfl, rfl⟩
    exact hinit init
  refine Follows.then hdeclarator ?_
  rintro first firstId _ rfl
  refine Follows.then (Follows.repeatUntil _ (Follows.read fun _ => hdeclarator)) ?_
  intro _ _ others hothers
  obtain ⟨rfl, rfl⟩ := hothers.many
  refine follows_make (.variableDeclaration keyword (some (first, firstId) :: others.map some)) ?_ ?_ ?_ trivial
  · exact congrArg ((first, firstId) :: ·) ((List.append_nil _).trans (filterMap_somes others))
  all_goals simp [Payload.map, Payload.traverse]

lemma follows_condition (h : RulesFollow rules rules') :
    Follows [] One (Grammar.condition rules) (condition rules') :=
  Follows.read fun _ => Follows.then (follows_expression h true) fun _ _ _ htest => Follows.read fun _ => follows_pure htest

lemma follows_optionalExpression (h : RulesFollow rules rules') (closing : Text) :
    Follows [] Maybe (Grammar.optionalExpression rules closing) (optionalExpression rules' closing) := by
  refine Follows.read fun _ => follows_ite (fun _ => ?_) fun _ => ?_
  · exact Follows.read fun _ => follows_pure ⟨none, rfl, rfl, rfl⟩
  · exact Follows.then (follows_expression h true).mapSome fun _ _ _ he => Follows.read fun _ => follows_pure he

lemma follows_returnStatement (h : RulesFollow rules rules') :
    Follows [] One (Grammar.returnStatement rules) (returnStatement rules') := by
  refine Follows.read fun position => Follows.read fun _ => Follows.read fun t => ?_
  extract_lets isBare afterArgument afterArgument'
  have hargument (argument : Option Held) : Follows argument.toList One (afterArgument (argument.map Prod.fst))
      (afterArgument' (argument.map Prod.snd)) :=
    Follows.read fun _ => follows_make (.returnStatement argument) (List.append_nil _) rfl rfl trivial
  refine follows_ite (fun _ => hargument none) fun _ => Follows.then (follows_expression h true).mapSome ?_
  rintro _ _ _ ⟨argument, rfl, rfl, rfl⟩
  exact hargument argument

lemma follows_throwStatement (h : RulesFollow rules rules') :
    Follows [] One (Grammar.throwStatement rules) (throwStatement rules') := by
  refine Follows.read fun position => Follows.read fun _ => Follows.read fun t =>
    follows_ite (fun _ => follows_fail_bind) fun _ => Follows.then (follows_expression h true) ?_
  rintro argument argumentId _ rfl
  exact Follows.read fun _ => follows_make (.throwStatement (some (argument, argumentId))) rfl rfl rfl trivial

lemma follows_expressionStatement (h : RulesFollow rules rules') :
    Follows [] One (Grammar.expressionStatement rules) (expressionStatement rules') := by
  refine Follows.read fun position => Follows.then (follows_expression h true) ?_
  rintro e id _ rfl
  exact Follows.read fun _ => follows_make (.expressionStatement (some (e, id))) rfl rfl rfl trivial

lemma follows_debuggerStatement : Follows [] One Grammar.debuggerStatement debuggerStatement :=
  Follows.read fun _ => Follows.read fun _ => Follows.read fun _ => follows_make .debuggerStatement rfl rfl rfl trivial

/-! ### Statements that hold statements -/

lemma follows_ifStatement (h : RulesFollow rules rules') :
    Follows [] One (Grammar.ifStatement rules) (ifStatement rules') := by
  refine Follows.read fun position => Follows.read fun _ => Follows.then (follows_condition h) ?_
  rintro test testId _ rfl
  refine Follows.then (h _) ?_
  rintro consequent consequentId _ rfl
  refine Follows.read fun _ => ?_
  extract_lets afterElse afterElse'
  have helse (alternate : Option Held) : Follows ((test, testId) :: (consequent, consequentId) :: alternate.toList) One
      (afterElse (alternate.map Prod.fst)) (afterElse' (alternate.map Prod.snd)) :=
    follows_make (.ifStatement (some (test, testId)) (some (consequent, consequentId)) alternate)
      (congrArg ((test, testId) :: (consequent, consequentId) :: ·) (List.append_nil _)) rfl rfl trivial
  refine follows_ite (fun _ => Follows.read fun _ => Follows.then (h _).mapSome ?_) fun _ => helse none
  rintro _ _ _ ⟨alternate, rfl, rfl, rfl⟩
  exact helse alternate

lemma follows_whileStatement (h : RulesFollow rules rules') :
    Follows [] One (Grammar.whileStatement rules) (whileStatement rules') := by
  refine Follows.read fun position => Follows.read fun _ => Follows.then (follows_condition h) ?_
  rintro test testId _ rfl
  refine Follows.then (h _) ?_
  rintro body bodyId _ rfl
  exact follows_make (.whileStatement (some (test, testId)) (some (body, bodyId))) rfl rfl rfl trivial

lemma follows_doWhileStatement (h : RulesFollow rules rules') :
    Follows [] One (Grammar.doWhileStatement rules) (doWhileStatement rules') := by
  refine Follows.read fun position => Follows.read fun _ => Follows.then (h _) ?_
  rintro body bodyId _ rfl
  refine Follows.read fun _ => Follows.then (follows_condition h) ?_
  rintro test testId _ rfl
  exact Follows.read fun _ =>
    follows_make (.doWhileStatement (some (body, bodyId)) (some (test, testId))) rfl rfl rfl trivial

lemma follows_labeledStatement (h : RulesFollow rules rules') :
    Follows [] One (Grammar.labeledStatement rules) (labeledStatement rules') := by
  refine Follows.read fun position => Follows.read fun label => Follows.read fun _ => Follows.then (h _) ?_
  rintro body bodyId _ rfl
  exact follows_make (.labeledStatement label.text (some (body, bodyId))) rfl rfl rfl trivial

lemma follows_forStatement (h : RulesFollow rules rules') :
    Follows [] One (Grammar.forStatement rules) (forStatement rules') := by
  refine Follows.read fun position => Follows.read fun _ => Follows.read fun isAwait => ?_
  extract_lets afterInit afterAwait afterInit' afterAwait'
  have hawait : Follows [] One (afterAwait ()) (afterAwait' ()) := by
    refine Follows.read fun _ => Follows.read fun _ => Follows.read fun _ => Follows.read fun _ => ?_
    have hinit (init : Option Held) :
        Follows init.toList One (afterInit (init.map Prod.fst)) (afterInit' (init.map Prod.snd)) := by
      refine Follows.read fun isOf => Follows.read fun _ => follows_ite (fun _ => Follows.read fun _ => ?_) fun _ => ?_
      -- A loop over the members of a value.
      · extract_lets afterRight afterRight'
        have hright (right : Held) : Follows (init.toList ++ [right]) One (afterRight right.1) (afterRight' right.2) := by
          refine Follows.read fun _ => Follows.then (h _) ?_
          rintro body bodyId _ rfl
          refine follows_make (.forInStatement init (some right) (some (body, bodyId)) isOf) ?_ rfl rfl trivial
          cases init <;> rfl
        refine follows_ite (fun _ => Follows.then (h _) ?_) fun _ => Follows.then (follows_expression h true) ?_
        · rintro right rightId _ rfl
          exact hright (right, rightId)
        · rintro right rightId _ rfl
          exact hright (right, rightId)
      extract_lets afterCheck afterCheck'
      refine follows_ite (fun _ => follows_fail_bind) fun _ => Follows.read fun _ => ?_
      refine Follows.then (follows_optionalExpression h _) ?_
      rintro _ _ _ ⟨test, rfl, rfl, rfl⟩
      refine Follows.then (follows_optionalExpression h _) ?_
      rintro _ _ _ ⟨update, rfl, rfl, rfl⟩
      refine Follows.then (h _) ?_
      rintro body bodyId _ rfl
      refine follows_make (.forStatement init test update (some (body, bodyId))) ?_ rfl rfl trivial
      cases init <;> cases test <;> cases update <;> rfl
    refine follows_ite (fun _ => hinit none) fun _ => follows_ite (fun _ => ?_) fun _ => ?_
    · refine Follows.then (follows_variableDeclaration h false).mapSome ?_
      rintro _ _ _ ⟨init, rfl, rfl, rfl⟩
      exact hinit init
    · refine Follows.then (follows_expression h false).mapSome ?_
      rintro _ _ _ ⟨init, rfl, rfl, rfl⟩
      exact hinit init
  exact follows_ite (fun _ => Follows.read fun _ => hawait) fun _ => hawait

/-! ### Statements with clauses -/

lemma follows_tryStatement (h : RulesFollow rules rules') :
    Follows [] One (Grammar.tryStatement rules) (tryStatement rules') := by
  refine Follows.read fun position => Follows.read fun _ => Follows.then (follows_block h) ?_
  rintro body bodyId _ rfl
  refine Follows.read fun _ => ?_
  extract_lets afterCatch afterParam afterCatch' afterParam'
  have hcatch (param handler : Option Held) : Follows ((body, bodyId) :: (param.toList ++ handler.toList)) One
      (afterCatch (param.map Prod.fst, handler.map Prod.fst))
      (afterCatch' (param.map Prod.snd, handler.map Prod.snd)) := by
    refine Follows.read fun _ => ?_
    extract_lets afterFinally afterFinally'
    have hfinally (finalizer : Option Held) :
        Follows ((body, bodyId) :: (param.toList ++ handler.toList) ++ finalizer.toList) One
          (afterFinally (finalizer.map Prod.fst)) (afterFinally' (finalizer.map Prod.snd)) := by
      have hfull : Follows ((body, bodyId) :: (param.toList ++ handler.toList) ++ finalizer.toList) One
          (pure (.of (.tryStatement (some body) (param.map Prod.fst) (handler.map Prod.fst) (finalizer.map Prod.fst))
            position))
          (make (.tryStatement (some bodyId) (param.map Prod.snd) (handler.map Prod.snd) (finalizer.map Prod.snd))
            position) := by
        refine follows_make (.tryStatement (some (body, bodyId)) param handler finalizer) ?_ rfl rfl trivial
        cases param <;> cases handler <;> cases finalizer <;> rfl
      cases handler with
      | some handler => exact hfull
      | none =>
        cases finalizer with
        | some finalizer => exact hfull
        | none => exact follows_fail_bind
    refine follows_ite (fun _ => Follows.read fun _ => Follows.then (follows_block h).mapSome ?_) fun _ => ?_
    · rintro _ _ _ ⟨finalizer, rfl, rfl, rfl⟩
      exact hfinally finalizer
    · have hnone := hfinally none
      rwa [Option.toList_none, List.append_nil] at hnone
  refine follows_ite (fun _ => Follows.read fun _ => Follows.read fun _ => ?_) fun _ => hcatch none none
  have hparam (param : Option Held) : Follows ((body, bodyId) :: param.toList) One (afterParam (param.map Prod.fst))
      (afterParam' (param.map Prod.snd)) := by
    refine Follows.then (follows_block h) ?_
    rintro handler handlerId _ rfl
    exact hcatch param (some (handler, handlerId))
  refine follows_ite (fun _ => Follows.then (follows_bindingTarget (follows_object h) h) ?_) fun _ => hparam none
  rintro param paramId _ rfl
  exact Follows.read fun _ => hparam (some (param, paramId))

lemma follows_clause (h : RulesFollow rules rules') (defaultSeen : Bool) :
    Follows [] (fun t clause made => One t clause.1 made ∧ clause.2 = Grammar.isDefaultClause t)
      (Grammar.clause rules defaultSeen) (clause rules' defaultSeen) := by
  refine Follows.read fun leading => Follows.read fun position => Follows.read fun _ => Follows.read fun _ => ?_
  extract_lets afterTest afterCheck afterTest' afterCheck'
  have htest (test : Option Held) :
      Follows test.toList (fun t clause made => One t clause.1 made ∧ clause.2 = Grammar.isDefaultClause t)
        (afterTest (test.map Prod.fst)) (afterTest' (test.map Prod.snd)) := by
    refine Follows.read fun _ => Follows.then (follows_statementList h _) ?_
    rintro _ _ made ⟨rfl, rfl⟩
    have hmap {β : Type} (f : Held → β) : (Payload.switchCase test (made.map some)).map f =
        .switchCase (test.map f) ((made.map f).map some) := by simp [Payload.map, Payload.traverse]
    refine Follows.make [] _ ?_ (hmap Prod.fst) (hmap Prod.snd) trivial fun id => Follows.lead [] (follows_pure ⟨?_, ?_⟩)
    · exact congrArg (test.toList ++ ·) ((List.append_nil _).trans (filterMap_somes made))
    · simp [One, Tree.withLeading, Tree.of, Tree.node]
    · cases test <;> rfl
  refine follows_ite (fun _ => Follows.read fun _ => Follows.then (follows_expression h true).mapSome ?_) fun _ => ?_
  · rintro _ _ _ ⟨test, rfl, rfl, rfl⟩
    exact htest test
  refine follows_ite (fun _ => follows_ite (fun _ => follows_fail_bind) fun _ => Follows.read fun _ => htest none)
    fun _ => ?_
  exact Follows.then (follows_unexpected (R := fun _ _ _ => False)) fun _ _ _ hfalse => hfalse.elim

/-- The clauses of a switch so far; the rule over the arena carries whether one of them is the default. -/
def Clauses (ts : List Tree) (clauses : List NodeId × Bool) (made : List Held) : Prop :=
  Many ts clauses.1 made ∧ clauses.2 = ts.any Grammar.isDefaultClause

lemma follows_switchStatement (h : RulesFollow rules rules') :
    Follows [] One (Grammar.switchStatement rules) (switchStatement rules') := by
  refine Follows.read fun position => Follows.read fun _ => Follows.then (follows_condition h) ?_
  rintro test testId _ rfl
  refine Follows.read fun _ => Follows.then (Follows.extend (R := Clauses) ?_ ⟨⟨rfl, rfl⟩, rfl⟩) ?_
  · rintro ts ⟨ids, seen⟩ made ⟨⟨rfl, rfl⟩, rfl⟩
    refine Follows.read fun _ => follows_ite (fun _ => follows_pure rfl) fun _ => ?_
    refine Follows.then (follows_clause h _) ?_
    rintro t ⟨id, isDefault⟩ _ ⟨rfl, rfl⟩
    refine follows_pure ⟨⟨?_, ?_⟩, ?_⟩
    all_goals simp
  · rintro _ ⟨ids, seen⟩ clauses ⟨⟨rfl, rfl⟩, rfl⟩
    refine Follows.read fun trailing => Follows.read fun _ => ?_
    refine Follows.make [] (.switchStatement (some (test, testId)) (clauses.map some)) ?_ ?_ ?_ trivial
      fun id => Follows.trail [] (follows_pure rfl)
    · exact congrArg ((test, testId) :: ·) ((List.append_nil _).trans (filterMap_somes clauses))
    all_goals simp [Payload.map, Payload.traverse]

lemma follows_bareStatement (h : RulesFollow rules rules') :
    Follows [] One (Grammar.bareStatement rules) (bareStatement rules') := by
  refine Follows.read fun t => Follows.read fun next => ?_
  extract_lets declaration isWord declaration'
  have hdeclaration : Follows [] One declaration declaration' :=
    Follows.then (follows_variableDeclaration h true) fun _ _ _ hd => Follows.read fun _ => follows_pure hd
  refine follows_ite (fun _ => follows_block h) fun _ => ?_
  refine follows_ite (fun _ => Follows.read fun _ => follows_make .emptyStatement rfl rfl rfl trivial) fun _ => ?_
  refine follows_ite (fun _ => hdeclaration) fun _ => ?_
  refine follows_ite (fun _ => follows_functionDeclaration h false) fun _ => ?_
  refine follows_ite (fun _ => follows_classLiteral h (follows_operand h) true) fun _ => ?_
  refine follows_ite (fun _ => follows_ifStatement h) fun _ => ?_
  refine follows_ite (fun _ => follows_forStatement h) fun _ => ?_
  refine follows_ite (fun _ => follows_whileStatement h) fun _ => ?_
  refine follows_ite (fun _ => follows_doWhileStatement h) fun _ => ?_
  refine follows_ite (fun _ => follows_returnStatement h) fun _ => ?_
  refine follows_ite (fun _ => Follows.read fun label => follows_make (.breakStatement label) rfl rfl rfl trivial)
    fun _ => ?_
  refine follows_ite (fun _ => Follows.read fun label => follows_make (.continueStatement label) rfl rfl rfl trivial)
    fun _ => ?_
  refine follows_ite (fun _ => follows_throwStatement h) fun _ => ?_
  refine follows_ite (fun _ => follows_tryStatement h) fun _ => ?_
  refine follows_ite (fun _ => follows_switchStatement h) fun _ => ?_
  refine follows_ite (fun _ => follows_debuggerStatement) fun _ => ?_
  refine follows_ite (fun _ => follows_fail) fun _ => follows_ite (fun _ => follows_fail) fun _ => ?_
  refine follows_ite (fun _ => follows_fail) fun _ => Follows.read fun _ => ?_
  refine follows_ite (fun _ => hdeclaration) fun _ => ?_
  refine follows_ite (fun _ => Follows.read fun _ => follows_functionDeclaration h true) fun _ => ?_
  exact follows_ite (fun _ => follows_labeledStatement h) fun _ => follows_expressionStatement h

lemma follows_statement (h : RulesFollow rules rules') :
    Follows [] One (Grammar.statement rules) (statement rules') := by
  refine Follows.read fun comments => Follows.then (follows_bareStatement h) ?_
  rintro t id _ rfl
  exact Follows.lead [] (follows_pure rfl)

/-! ### Scripts -/

lemma rulesFollow_rulesUpTo (depth : Nat) : RulesFollow (Grammar.rulesUpTo depth) (rulesUpTo depth) := by
  induction depth with
  | zero => exact fun _ => follows_fail
  | succ depth ih =>
    rintro (_ | allowIn | _)
    · exact follows_statement ih
    · exact follows_assignment ih allowIn
    · exact follows_unary ih

lemma follows_program (h : RulesFollow rules rules') : Follows [] One (Grammar.script rules) (program rules') := by
  refine Follows.read fun position => Follows.then (follows_statementList h _) ?_
  rintro _ _ made ⟨rfl, rfl⟩
  refine Follows.read fun trailing => ?_
  refine Follows.make [] (.program (made.map some)) ?_ ?_ ?_ trivial fun id => Follows.trail [] (follows_pure rfl)
  · exact (List.append_nil _).trans (filterMap_somes made)
  all_goals simp [Payload.map, Payload.traverse]

end PlainScript.Building
