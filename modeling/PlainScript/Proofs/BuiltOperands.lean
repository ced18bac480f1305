import PlainScript.Building.Operand
import PlainScript.Proofs.BuiltMembers

/-! The rules for operands and expressions, over an arena and over trees. -/
namespace PlainScript.Building

open Grammar (Parser State Rules)
open Arena

variable {rules : Rules} {rules' : NodeRules}

lemma follows_expression (h : RulesFollow rules rules') (allowIn : Bool) :
    Follows [] One (Grammar.expression rules allowIn) (expression rules' allowIn) := by
  refine Follows.read fun position => Follows.then (h _) ?_
  rintro first firstId _ rfl
  refine Follows.read fun _ => follows_ite (fun _ => follows_pure rfl) fun _ => ?_
  refine Follows.then (Follows.repeatUntil _ (Follows.read fun _ => h _)) ?_
  intro _ _ others hothers
  obtain ⟨rfl, rfl⟩ := hothers.many
  refine follows_make (.sequenceExpression (some (first, firstId) :: others.map some)) ?_ ?_ ?_ trivial
  · exact congrArg ((first, firstId) :: ·) ((List.append_nil _).trans (filterMap_somes others))
  all_goals simp [Payload.map, Payload.traverse]

lemma follows_memberName : Follows [] One Grammar.memberName memberName := by
  refine Follows.read fun t => ?_
  cases t.kind with
  | identifier => exact follows_identifierHere
  | keyword => exact follows_identifierHere
  | _ => exact follows_fail

lemma follows_arguments (h : RulesFollow rules rules') :
    Follows [] Slots (Grammar.arguments rules) (arguments rules') := by
  refine Follows.read fun _ => Follows.then (Follows.commaList _ (follows_spreadOr (h _))) ?_
  intro _ _ made hmade
  obtain ⟨rfl, rfl⟩ := hmade.many
  refine Follows.read fun _ => follows_pure ⟨made.map some, ?_, ?_, (filterMap_somes made).symm⟩
  all_goals simp

lemma follows_indexRest (h : RulesFollow rules rules') :
    Follows [] One (Grammar.indexRest rules) (indexRest rules') :=
  Follows.then (follows_expression h true) fun _ _ _ hindex => Follows.read fun _ => follows_pure hindex

/-! ### Operands -/

lemma follows_primary (h : RulesFollow rules rules') {base : Parser Tree} {base' : Builder NodeId}
    (hbase : Follows [] One base base') : Follows [] One (Grammar.primary rules base) (primary rules' base') := by
  refine Follows.read fun position => Follows.current fun t ht => ?_
  extract_lets leaf leaf'
  have hleaf (P : Payload Held) (hP : P.children = []) {payload : Payload Tree} (htrees : P.map Prod.fst = payload)
      {payload' : Payload NodeId} (hids : P.map Prod.snd = payload') (hspelled : P.IsSpelled) :
      Follows [] One (leaf payload) (leaf' payload') :=
    Follows.read fun _ => follows_make P hP htrees hids hspelled
  cases hkind : t.kind with
  | identifier =>
    refine Follows.read fun next => follows_ite (fun _ => ?_) fun _ => follows_identifierHere
    exact Follows.read fun _ => follows_functionExpression h true
  | number value isBigInt => exact hleaf (.numericLiteral value t.text isBigInt) rfl rfl rfl trivial
  | string value => exact hleaf (.stringLiteral value t.text) rfl rfl rfl (ht value hkind)
  | template => exact hleaf (.templateLiteral t.text) rfl rfl rfl trivial
  | regExp => exact hleaf (.regExpLiteral t.text) rfl rfl rfl trivial
  | keyword =>
    refine follows_ite (fun _ => hleaf .thisExpression rfl rfl rfl trivial) fun _ => ?_
    refine follows_ite (fun _ => hleaf .nullLiteral rfl rfl rfl trivial) fun _ => ?_
    refine follows_ite (fun _ => hleaf (.booleanLiteral true) rfl rfl rfl trivial) fun _ => ?_
    refine follows_ite (fun _ => hleaf (.booleanLiteral false) rfl rfl rfl trivial) fun _ => ?_
    refine follows_ite (fun _ => follows_functionExpression h false) fun _ => ?_
    refine follows_ite (fun _ => follows_classLiteral h hbase false) fun _ => ?_
    exact follows_ite (fun _ => follows_identifierHere) fun _ => follows_unexpected
  | punctuator =>
    refine Follows.read fun _ => follows_ite (fun _ => ?_) fun _ => ?_
    · exact Follows.then (follows_expression h true) fun _ _ _ hinner => Follows.read fun _ => follows_pure hinner
    · refine follows_ite (fun _ => follows_arrayLiteral h) fun _ => ?_
      exact follows_ite (fun _ => follows_object h) fun _ => follows_unexpected
  | endOfFile => exact follows_unexpected

lemma follows_plainMember (h : RulesFollow rules rules') (owner : Held) (position : Position) :
    Follows [owner] (Onward One [owner]) (Grammar.plainMember rules owner.1 position)
      (plainMember rules' owner.2 position) := by
  refine Follows.read fun _ => follows_ite (fun _ => Follows.then follows_memberName ?_) fun _ => ?_
  · rintro name nameId _ rfl
    exact Follows.make [] (.memberExpression (some owner) (some (name, nameId)) false false) rfl rfl rfl trivial
      fun id => follows_pure rfl
  refine Follows.read fun _ => follows_ite (fun _ => Follows.then (follows_indexRest h) ?_) fun _ => follows_pure rfl
  rintro index indexId _ rfl
  exact Follows.make [] (.memberExpression (some owner) (some (index, indexId)) true false) rfl rfl rfl trivial
    fun id => follows_pure rfl

lemma follows_suffix (h : RulesFollow rules rules') (position : Position) (owner : Held) :
    Follows [owner] (Onward One [owner]) (Grammar.suffix rules position owner.1) (suffix rules' position owner.2) := by
  refine Follows.bind [] (follows_plainMember h owner position) ?_
  rintro (_ | extended) (_ | extendedId) made hnext
  rotate_left
  · exact hnext.elim
  · exact hnext.elim
  · exact follows_pure hnext
  obtain rfl : made = [owner] := hnext
  have hcall (isOptional : Bool) {args : List (Option Tree)} {args' : List (Option NodeId)} {made : List Held}
      (hargs : Slots args args' made) : Follows ([owner] ++ made) (Onward One [owner])
        (pure (some (.of (.callExpression (some owner.1) args isOptional) position)))
        (make (.callExpression (some owner.2) args' isOptional) position >>= fun id => pure (some id)) := by
    obtain ⟨hs, rfl, rfl, rfl⟩ := hargs
    exact Follows.make [] (.callExpression (some owner) hs isOptional) (congrArg (owner :: ·) (List.append_nil _))
      rfl rfl trivial fun id => follows_pure rfl
  have hmember (isComputed : Bool) (name : Held) : Follows [owner, name] (Onward One [owner])
      (pure (some (.of (.memberExpression (some owner.1) (some name.1) isComputed true) position)))
      (make (.memberExpression (some owner.2) (some name.2) isComputed true) position >>= fun id => pure (some id)) :=
    Follows.make [] (.memberExpression (some owner) (some name) isComputed true) rfl rfl rfl trivial
      fun id => follows_pure rfl
  refine Follows.read fun _ => follows_ite (fun _ => Follows.read fun _ => follows_ite (fun _ => ?_) fun _ => ?_) fun _ =>
    Follows.read fun _ => follows_ite (fun _ => ?_) fun _ => ?_
  · exact Follows.then (follows_arguments h) fun _ _ _ hargs => hcall true hargs
  · refine Follows.read fun _ => follows_ite (fun _ => Follows.then (follows_indexRest h) ?_) fun _ =>
      Follows.then follows_memberName ?_
    · rintro index indexId _ rfl
      exact hmember true (index, indexId)
    · rintro name nameId _ rfl
      exact hmember false (name, nameId)
  · exact Follows.then (follows_arguments h) fun _ _ _ hargs => hcall false hargs
  · refine Follows.read fun t => follows_ite (fun _ => Follows.read fun _ => ?_) fun _ => follows_pure rfl
    refine Follows.make [owner] (.templateLiteral t.text) rfl rfl rfl trivial fun quasiId => ?_
    exact Follows.make [] (.taggedTemplateExpression (some owner) (some (_, quasiId))) rfl rfl rfl trivial
      fun id => follows_pure rfl

lemma follows_constructionWith (h : RulesFollow rules rules') {callee : Parser Tree} {callee' : Builder NodeId}
    (hcallee : Follows [] One callee callee') :
    Follows [] One (Grammar.constructionWith rules callee) (constructionWith rules' callee') := by
  refine Follows.read fun position => Follows.read fun _ => Follows.read fun _ =>
    follows_ite (fun _ => ?_) fun _ => ?_
  · refine Follows.read fun _ => follows_ite (fun _ => follows_fail_bind) fun _ => Follows.read fun _ => ?_
    exact follows_make (.identifier "new.target") rfl rfl rfl trivial
  refine Follows.then hcallee fun first firstId made hfirst => ?_
  refine Follows.bind [] (Follows.extend (R := One) ?_ hfirst) ?_
  · rintro owner ownerId _ rfl
    exact Follows.read fun position => follows_plainMember h (owner, ownerId) position
  rintro owner ownerId _ rfl
  refine Follows.read fun _ => ?_
  extract_lets afterArgs afterArgs'
  have hargs {args : List (Option Tree)} {args' : List (Option NodeId)} {made : List Held} (hmade : Slots args args' made) :
      Follows ((owner, ownerId) :: made) One (afterArgs args) (afterArgs' args') := by
    obtain ⟨hs, rfl, rfl, rfl⟩ := hmade
    exact follows_make (.newExpression (some (owner, ownerId)) hs) (congrArg ((owner, ownerId) :: ·) (List.append_nil _))
      rfl rfl trivial
  refine follows_ite (fun _ => ?_) fun _ => hargs ⟨[], rfl, rfl, rfl⟩
  exact Follows.then (follows_arguments h) fun _ _ _ hmade => hargs hmade

lemma follows_operandUpTo_headUpTo (h : RulesFollow rules rules') (n : Nat) :
    Follows [] One (Grammar.operandUpTo rules n) (operandUpTo rules' n) ∧
      Follows [] One (Grammar.headUpTo rules n) (headUpTo rules' n) := by
  induction n with
  | zero => exact ⟨follows_unexpected, follows_unexpected⟩
  | succ n ih =>
    constructor
    · refine Follows.read fun position => Follows.then ih.2 fun _ _ _ hhead => Follows.extend ?_ hhead
      rintro owner ownerId _ rfl
      exact follows_suffix h position (owner, ownerId)
    · refine Follows.read fun _ => follows_ite (fun _ => ?_) fun _ => ?_
      · exact follows_constructionWith h ih.2
      · exact follows_primary h ih.1

lemma follows_operand (h : RulesFollow rules rules') : Follows [] One (Grammar.operand rules) (operand rules') :=
  Follows.read fun n => (follows_operandUpTo_headUpTo h (2 * n)).1

/-! ### Expressions -/

lemma follows_postfixed (h : RulesFollow rules rules') : Follows [] One (Grammar.postfixed rules) (postfixed rules') := by
  refine Follows.read fun position => Follows.then (follows_operand h) ?_
  rintro operand operandId _ rfl
  refine Follows.read fun t => follows_ite (fun _ => ?_) fun _ => follows_pure rfl
  refine Follows.isTarget [] (follows_ite (fun _ => follows_fail_bind) fun _ => Follows.read fun _ => ?_)
  exact follows_make (.updateExpression t.text false (some (operand, operandId))) rfl rfl rfl trivial

lemma follows_unary (h : RulesFollow rules rules') : Follows [] One (Grammar.unary rules) (unary rules') := by
  refine Follows.read fun t => Follows.read fun context => Follows.read fun next => ?_
  refine follows_ite (fun _ => Follows.read fun _ => Follows.then (h _) ?_) fun _ => ?_
  · rintro operand operandId _ rfl
    exact follows_make (.unaryExpression t.text (some (operand, operandId))) rfl rfl rfl trivial
  refine follows_ite (fun _ => Follows.read fun _ => Follows.then (h _) ?_) fun _ => follows_postfixed h
  rintro operand operandId _ rfl
  refine Follows.isTarget [] (follows_ite (fun _ => follows_fail_bind) fun _ => ?_)
  exact follows_make (.updateExpression t.text true (some (operand, operandId))) rfl rfl rfl trivial

lemma follows_binaryUpTo (h : RulesFollow rules rules') (n least : Nat) (allowIn : Bool) :
    Follows [] One (Grammar.binaryUpTo rules n least allowIn) (binaryUpTo rules' n least allowIn) := by
  induction n generalizing least with
  | zero => exact follows_unexpected
  | succ n ih =>
    refine Follows.read fun position => Follows.then (h _) fun _ _ _ hfirst => Follows.extend ?_ hfirst
    rintro left leftId _ rfl
    refine Follows.read fun t => follows_ite (fun _ => follows_pure rfl) fun _ => Follows.read fun _ => ?_
    refine Follows.then (ih _) ?_
    rintro right rightId _ rfl
    exact Follows.make [] (.binaryExpression t.text (some (left, leftId)) (some (right, rightId))) rfl rfl rfl trivial
      fun id => follows_pure rfl

lemma follows_conditional (h : RulesFollow rules rules') (allowIn : Bool) :
    Follows [] One (Grammar.conditional rules allowIn) (conditional rules' allowIn) := by
  refine Follows.read fun position => Follows.then (Follows.read fun n => follows_binaryUpTo h n 1 allowIn) ?_
  rintro test testId _ rfl
  refine Follows.read fun _ => follows_ite (fun _ => follows_pure rfl) fun _ => Follows.then (h _) ?_
  rintro consequent consequentId _ rfl
  refine Follows.read fun _ => Follows.then (h _) ?_
  rintro alternate alternateId _ rfl
  exact follows_make (.conditionalExpression (some (test, testId)) (some (consequent, consequentId))
    (some (alternate, alternateId))) rfl rfl rfl trivial

lemma follows_yieldRest (h : RulesFollow rules rules') (allowIn : Bool) (position : Position) :
    Follows [] One (Grammar.yieldRest rules allowIn position) (yieldRest rules' allowIn position) := by
  refine Follows.read fun _ => ?_
  extract_lets op afterArgument afterArgument'
  refine Follows.read fun t => ?_
  have hargument (argument : Option Held) :
      Follows argument.toList One (afterArgument (argument.map Prod.fst)) (afterArgument' (argument.map Prod.snd)) :=
    follows_make (.unaryExpression op argument) (List.append_nil _) rfl rfl trivial
  refine follows_ite (fun _ => Follows.then (h _).mapSome ?_) fun _ => hargument none
  rintro _ _ _ ⟨argument, rfl, rfl, rfl⟩
  exact hargument argument

lemma follows_assignment (h : RulesFollow rules rules') (allowIn : Bool) :
    Follows [] One (Grammar.assignment rules allowIn) (assignment rules' allowIn) := by
  refine Follows.read fun s => Follows.read fun position => follows_ite (fun _ => Follows.read fun next => ?_) fun _ => ?_
  · extract_lets isAsync afterSkip afterSkip'
    exact follows_ite (fun _ => Follows.read fun _ => follows_arrowFunction h _) fun _ => follows_arrowFunction h _
  refine Follows.read fun context => Follows.read fun _ => follows_ite (fun _ => ?_) fun _ => ?_
  · exact Follows.read fun _ => follows_yieldRest h allowIn position
  refine Follows.then (follows_conditional h allowIn) ?_
  rintro left leftId _ rfl
  refine Follows.read fun t => follows_ite (fun _ => follows_pure rfl) fun _ => ?_
  refine Follows.isTarget [] (follows_ite (fun _ => follows_fail_bind) fun _ => Follows.read fun _ => ?_)
  refine Follows.then (h _) ?_
  rintro right rightId _ rfl
  exact follows_make (.assignmentExpression t.text (some (left, leftId)) (some (right, rightId))) rfl rfl rfl trivial

end PlainScript.Building
