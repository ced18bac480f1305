import PlainScript.Building.Member
import PlainScript.Proofs.Following

/-! The rules for lists of statements, functions, literals and classes, over an arena and over trees. -/
namespace PlainScript.Building

open Grammar (Parser State Rules ListEnd)
open Arena

variable {α : Type} {rules : Rules} {rules' : NodeRules}

lemma follows_identifierHere : Follows [] One Grammar.identifierHere identifierHere :=
  Follows.read fun _ => Follows.read fun t => follows_make (.identifier t.text) rfl rfl rfl trivial

/-! ### Lists of statements -/

lemma follows_recoverFrom {start : State} (hstart : start.Spelled) (ending : ListEnd) (e : ParseError) :
    Follows [] One (Grammar.recoverFrom start ending e) (recoverFrom start ending e) := by
  unfold Grammar.recoverFrom recoverFrom
  refine Follows.step (P := fun _ => True) (fun _ _ hs => ⟨trivial, hs⟩) fun _ _ => Follows.read fun context =>
    Follows.read fun s => ?_
  extract_lets tokens skipped next first stop afterCheck afterCheck'
  refine follows_ite (fun _ => follows_throw_bind) fun _ =>
    Follows.step (P := fun _ => True) (fun _ _ _ => ⟨trivial, hstart.drop skipped.length⟩) fun _ _ => ?_
  refine Follows.make [] (.rawStatement _) rfl rfl rfl trivial fun id => ?_
  refine Follows.lead [] (follows_pure ?_)
  simp [One, Tree.withLeading, Tree.of, Tree.node, Payload.map, Payload.traverse]

/-- A faulty statement leaves its nodes behind, and both rules go on with raw text. -/
lemma follows_listedStatement (h : RulesFollow rules rules') (ending : ListEnd) :
    Follows [] One (Grammar.listedStatement rules ending) (listedStatement rules' ending) := by
  refine Follows.state fun start hstart => Follows.tryCatch (h .statement) fun e => Follows.read fun context => ?_
  exact follows_ite (fun _ => follows_recoverFrom hstart ending e) fun _ => follows_throw

lemma follows_statementList (h : RulesFollow rules rules') (ending : ListEnd) :
    Follows [] Many (Grammar.statementList rules ending) (statementList rules' ending) :=
  (Follows.repeatUntil _ (follows_listedStatement h ending)).mono fun _ _ _ => Each.many

lemma follows_block (h : RulesFollow rules rules') : Follows [] One (Grammar.block rules) (block rules') := by
  refine Follows.read fun position => Follows.read fun _ => ?_
  refine Follows.then (follows_statementList h _) ?_
  rintro _ _ made ⟨rfl, rfl⟩
  refine Follows.read fun trailing => Follows.read fun _ => ?_
  exact Follows.make [] (.blockStatement (made.map some)) (Edit.children_blockStatement made)
    (by simp [Payload.map, Payload.traverse]) (by simp [Payload.map, Payload.traverse]) trivial
    fun id => Follows.trail [] (follows_pure rfl)

/-! ### Literals and functions -/

lemma follows_spreadOr {item : Parser Tree} {item' : Builder NodeId} (hitem : Follows [] One item item') :
    Follows [] One (Grammar.spreadOr item) (spreadOr item') := by
  refine Follows.read fun position => Follows.read fun spreads => follows_ite (fun _ => ?_) fun _ => hitem
  refine Follows.then hitem ?_
  rintro t id _ rfl
  exact follows_make (.spreadElement (some (t, id))) rfl rfl rfl trivial

lemma follows_arrayLiteral (h : RulesFollow rules rules') :
    Follows [] One (Grammar.arrayLiteral rules) (arrayLiteral rules') := by
  refine Follows.read fun position => Follows.read fun _ => ?_
  refine Follows.then (Follows.repeatUntil (R := Maybe) _ (Follows.read fun hole => ?_)) ?_
  · refine follows_ite (fun _ => follows_pure ⟨none, rfl, rfl, rfl⟩) fun _ => ?_
    refine Follows.then (follows_spreadOr (h _)) ?_
    rintro t id _ rfl
    refine Follows.read fun closes => follows_ite (fun _ => Follows.read fun _ => ?_) fun _ => ?_
    · exact follows_pure ⟨some (t, id), rfl, rfl, rfl⟩
    · exact follows_pure ⟨some (t, id), rfl, rfl, rfl⟩
  · intro _ _ made hmade
    obtain ⟨hs, rfl, rfl, rfl⟩ := hmade.slots
    exact Follows.read fun _ => follows_make (.arrayExpression hs) (List.append_nil _) rfl rfl trivial

lemma follows_objectLiteral {member : Parser Tree} {member' : Builder NodeId} (hmember : Follows [] One member member') :
    Follows [] One (Grammar.objectLiteral member) (objectLiteral member') := by
  refine Follows.read fun position => Follows.read fun _ => Follows.then (Follows.commaList _ hmember) ?_
  intro _ _ made hmade
  obtain ⟨rfl, rfl⟩ := hmade.many
  refine Follows.read fun _ => follows_make (.objectExpression (made.map some)) ?_ ?_ ?_ trivial
  · exact (List.append_nil _).trans (filterMap_somes made)
  all_goals simp [Payload.map, Payload.traverse]

section Objects

variable {object : Parser Tree} {object' : Builder NodeId} (hobject : Follows [] One object object')
include hobject

lemma follows_bindingTarget (h : RulesFollow rules rules') :
    Follows [] One (Grammar.bindingTarget rules object) (bindingTarget rules' object') := by
  refine Follows.read fun _ => follows_ite (fun _ => follows_arrayLiteral h) fun _ => ?_
  refine Follows.read fun _ => follows_ite (fun _ => hobject) fun _ => ?_
  exact Follows.read fun t => follows_ite (fun _ => follows_identifierHere) fun _ => follows_fail

lemma follows_parameter (h : RulesFollow rules rules') :
    Follows [] One (Grammar.parameter rules object) (parameter rules' object') := by
  refine Follows.read fun position => Follows.read fun spreads => follows_ite (fun _ => ?_) fun _ => ?_
  · refine Follows.then (follows_bindingTarget hobject h) ?_
    rintro t id _ rfl
    exact follows_make (.spreadElement (some (t, id))) rfl rfl rfl trivial
  · refine Follows.then (follows_bindingTarget hobject h) ?_
    rintro t id _ rfl
    refine Follows.read fun _ => follows_ite (fun _ => ?_) fun _ => follows_pure rfl
    refine Follows.then (h _) ?_
    rintro value valueId _ rfl
    exact follows_make (.assignmentExpression "=" (some (t, id)) (some (value, valueId))) rfl rfl rfl trivial

lemma follows_parameters (h : RulesFollow rules rules') :
    Follows [] Many (Grammar.parameters rules object) (parameters rules' object') := by
  refine Follows.read fun _ => Follows.then (Follows.commaList _ (follows_parameter hobject h)) ?_
  exact fun _ _ _ hmade => Follows.read fun _ => follows_pure hmade.many

/-- The parameters and the body of a function. -/
def Rest (rest : List (Option Tree) × Option Tree) (rest' : List (Option NodeId) × Option NodeId) (made : List Held) :
    Prop :=
  ∃ (params : List Held) (body : Held), rest = (params.map (some ∘ Prod.fst), some body.1) ∧
    rest' = (params.map (some ∘ Prod.snd), some body.2) ∧ made = params ++ [body]

lemma follows_functionRest (h : RulesFollow rules rules') (isAsync isGenerator : Bool) :
    Follows [] Rest (Grammar.functionRest rules object isAsync isGenerator)
      (functionRest rules' object' isAsync isGenerator) := by
  refine Follows.inFunction (Follows.then (follows_parameters hobject h) ?_) _ _
  rintro _ _ params ⟨rfl, rfl⟩
  refine Follows.then (follows_block h) ?_
  rintro body bodyId _ rfl
  exact follows_pure ⟨params, (body, bodyId), by simp, by simp, rfl⟩

end Objects

lemma follows_propertyKey (h : RulesFollow rules rules') :
    Follows [] (fun key key' made => One key.1 key'.1 made ∧ key.2 = key'.2) (Grammar.propertyKey rules)
      (propertyKey rules') := by
  refine Follows.read fun position => Follows.read fun computed => follows_ite (fun _ => ?_) fun _ => ?_
  · refine Follows.then (h _) ?_
    rintro t id _ rfl
    exact Follows.read fun _ => follows_pure ⟨rfl, rfl⟩
  · refine Follows.current fun t ht => ?_
    cases hkind : t.kind with
    | string value =>
      exact Follows.read fun _ => Follows.make [] (.stringLiteral value t.text) rfl rfl rfl
        (ht value hkind) fun id => follows_pure ⟨rfl, rfl⟩
    | number value isBigInt =>
      exact Follows.read fun _ => Follows.make [] (.numericLiteral value t.text isBigInt) rfl rfl rfl trivial
        fun id => follows_pure ⟨rfl, rfl⟩
    | identifier => exact Follows.then follows_identifierHere fun _ _ _ hname => follows_pure ⟨hname, rfl⟩
    | keyword => exact Follows.then follows_identifierHere fun _ _ _ hname => follows_pure ⟨hname, rfl⟩
    | _ => exact follows_fail

section Functions

variable {β : Type} {f : α → β} {name : Text} {params : List α} {body : α} {isAsync isGenerator : Bool}

lemma children_function {p : Payload α} {role role' : Role}
    (h : p.slots = [(role, .many (params.map some)), (role', .one (some body))]) : p.children = params ++ [body] := by
  simp [Payload.children, h, Slot.children]

lemma map_functionExpression : (Payload.functionExpression name (params.map some) (some body) isAsync isGenerator).map f =
    .functionExpression name (params.map (some ∘ f)) (some (f body)) isAsync isGenerator := by
  simp [Payload.map, Payload.traverse]

lemma map_functionDeclaration :
    (Payload.functionDeclaration name (params.map some) (some body) isAsync isGenerator).map f =
      .functionDeclaration name (params.map (some ∘ f)) (some (f body)) isAsync isGenerator := by
  simp [Payload.map, Payload.traverse]

end Functions

lemma follows_memberWith (h : RulesFollow rules rules') {object : Parser Tree} {object' : Builder NodeId}
    (hobject : Follows [] One object object') (inClass : Bool) :
    Follows [] One (Grammar.memberWith rules object inClass) (memberWith rules' object' inClass) := by
  refine Follows.read fun position => ?_
  extract_lets afterStatic afterSpread afterStatic' afterSpread'
  have hstatic (isStatic : Bool) : Follows [] One (afterStatic isStatic) (afterStatic' isStatic) := by
    refine Follows.read fun _ => follows_ite (fun _ => follows_fail_bind) fun _ => ?_
    refine Follows.read fun isAsync => Follows.read fun isGenerator => ?_
    extract_lets afterKind afterKind'
    have hkind (kind : PropertyKind) : Follows [] One (afterKind kind) (afterKind' kind) := by
      refine Follows.read fun first => Follows.then (follows_propertyKey h) ?_
      rintro ⟨key, computed⟩ ⟨keyId, _⟩ _ ⟨rfl, rfl⟩
      refine Follows.read fun _ => follows_ite (fun _ => ?_) fun _ => follows_ite (fun _ => follows_fail_bind) fun _ => ?_
      -- A method holds its function.
      · refine Follows.then (follows_functionRest hobject h _ _) ?_
        rintro _ _ _ ⟨params, body, rfl, rfl, rfl⟩
        refine Follows.make [(key, keyId)] _ (children_function rfl) map_functionExpression map_functionExpression trivial
          fun valueId => ?_
        exact follows_make (.property (some (key, keyId)) (some (_, valueId)) _ computed false isStatic) rfl rfl
          rfl trivial
      refine follows_ite (fun _ => ?_) fun _ => ?_
      · extract_lets afterField afterField'
        have hfield (value : Option Held) : Follows ([] ++ [(key, keyId)] ++ value.toList) One
            (afterField (value.map Prod.fst)) (afterField' (value.map Prod.snd)) := by
          refine Follows.read fun _ => follows_make (.property (some (key, keyId)) value _ computed false isStatic) ?_
            rfl rfl trivial
          cases value <;> rfl
        refine Follows.read fun _ => follows_ite (fun _ => ?_) fun _ => hfield none
        refine Follows.then (Follows.mapSome (h _)) ?_
        rintro _ _ _ ⟨value, rfl, rfl, rfl⟩
        exact hfield value
      refine Follows.read fun _ => follows_ite (fun _ => ?_) fun _ => follows_ite (fun _ => ?_) fun _ => follows_unexpected
      · refine Follows.then (h _) ?_
        rintro value valueId _ rfl
        exact follows_make (.property (some (key, keyId)) (some (value, valueId)) _ computed false isStatic) rfl
          rfl rfl trivial
      · refine Follows.make [(key, keyId)] (.identifier first.text) rfl rfl rfl trivial fun nameId => ?_
        extract_lets name afterValue afterValue'
        have hvalue (value : Held) : Follows [(key, keyId), value] One (afterValue value.1) (afterValue' value.2) :=
          follows_make (.property (some (key, keyId)) (some value) _ computed true isStatic) rfl rfl rfl trivial
        refine Follows.read fun _ => follows_ite (fun _ => ?_) fun _ => hvalue (_, nameId)
        refine Follows.then (h _) ?_
        rintro default defaultId _ rfl
        exact Follows.make [(key, keyId)] (.assignmentExpression "=" (some (_, nameId)) (some (default, defaultId)))
          rfl rfl rfl trivial fun valueId => hvalue (_, valueId)
    exact follows_ite (fun _ => hkind _) fun _ => Follows.read fun kind => hkind kind
  have hspread (isSpread : Bool) : Follows [] One (afterSpread isSpread) (afterSpread' isSpread) := by
    refine follows_ite (fun _ => ?_) fun _ => follows_ite (fun _ => Follows.read hstatic) fun _ => hstatic false
    refine Follows.then (h _) ?_
    rintro value valueId _ rfl
    exact follows_make (.property none (some (value, valueId)) .spread false false false) rfl rfl rfl trivial
  exact follows_ite (fun _ => hspread false) fun _ => Follows.read fun isSpread => hspread isSpread

lemma follows_member (h : RulesFollow rules rules') (n : Nat) (inClass : Bool) :
    Follows [] One (Grammar.member rules n inClass) (member rules' n inClass) := by
  induction n generalizing inClass with
  | zero => exact follows_unexpected
  | succ n ih => exact follows_memberWith h (follows_objectLiteral (ih false)) inClass

lemma follows_object (h : RulesFollow rules rules') : Follows [] One (Grammar.object rules) (object rules') :=
  Follows.read fun n => follows_objectLiteral (follows_member h n false)

lemma follows_functionDeclaration (h : RulesFollow rules rules') (isAsync : Bool) :
    Follows [] One (Grammar.functionDeclaration rules isAsync) (functionDeclaration rules' isAsync) := by
  refine Follows.read fun position => Follows.read fun _ => Follows.read fun isGenerator => Follows.read fun t => ?_
  refine follows_ite (fun _ => follows_fail_bind) fun _ => Follows.read fun name => ?_
  refine Follows.then (follows_functionRest (follows_object h) h _ _) ?_
  rintro _ _ _ ⟨params, body, rfl, rfl, rfl⟩
  exact follows_make _ (children_function rfl) map_functionDeclaration map_functionDeclaration trivial

lemma follows_functionExpression (h : RulesFollow rules rules') (isAsync : Bool) :
    Follows [] One (Grammar.functionExpression rules isAsync) (functionExpression rules' isAsync) := by
  refine Follows.read fun position => Follows.read fun _ => Follows.read fun isGenerator => Follows.read fun t => ?_
  extract_lets afterName afterName'
  have hname (name : Text) : Follows [] One (afterName name) (afterName' name) := by
    refine Follows.then (follows_functionRest (follows_object h) h _ _) ?_
    rintro _ _ _ ⟨params, body, rfl, rfl, rfl⟩
    exact follows_make _ (children_function rfl) map_functionExpression map_functionExpression trivial
  exact follows_ite (fun _ => Follows.read fun name => hname _) fun _ => hname _

lemma follows_arrowFunction (h : RulesFollow rules rules') (isAsync : Bool) :
    Follows [] One (Grammar.arrowFunction rules isAsync) (arrowFunction rules' isAsync) := by
  refine Follows.read fun position => Follows.read fun t => ?_
  extract_lets afterParams afterParams'
  have hparams (params : List Held) :
      Follows params One (afterParams (params.map Prod.fst)) (afterParams' (params.map Prod.snd)) := by
    have hbody := Follows.read (p := Grammar.atPunct openBrace) fun closes =>
      follows_ite (b := closes = true) (fun _ => follows_block h) fun _ => h (.assignment true)
    refine Follows.read fun _ => Follows.then (hbody.inFunction _ _) ?_
    rintro body bodyId _ rfl
    refine follows_make (.arrowFunctionExpression (params.map some) (some (body, bodyId)) isAsync)
      (children_function rfl) ?_ ?_ trivial
    all_goals simp [Payload.map, Payload.traverse]
  refine follows_ite (fun _ => Follows.then follows_identifierHere ?_) fun _ =>
    Follows.then (Follows.inFunction (follows_parameters (follows_object h) h) _ _) ?_
  · rintro t id _ rfl
    exact hparams [(t, id)]
  · rintro _ _ params ⟨rfl, rfl⟩
    exact hparams params

lemma follows_classLiteral (h : RulesFollow rules rules') {base : Parser Tree} {base' : Builder NodeId}
    (hbase : Follows [] One base base') (isDeclaration : Bool) :
    Follows [] One (Grammar.classLiteral rules base isDeclaration) (classLiteral rules' base' isDeclaration) := by
  refine Follows.read fun position => Follows.read fun _ => Follows.read fun t => ?_
  extract_lets afterName afterName'
  have hname (name : Text) : Follows [] One (afterName name) (afterName' name) := by
    refine Follows.read fun _ => ?_
    extract_lets afterBase afterBase'
    have hafter (superClass : Option Held) : Follows superClass.toList One (afterBase (superClass.map Prod.fst))
        (afterBase' (superClass.map Prod.snd)) := by
      refine Follows.read fun _ => ?_
      refine Follows.then (Follows.repeatUntil (R := Maybe) _ (Follows.read fun _ => ?_)) ?_
      · refine follows_ite (fun _ => follows_pure ⟨none, rfl, rfl, rfl⟩) fun _ => Follows.read fun n => ?_
        refine Follows.then (follows_member h n true) ?_
        rintro t id _ rfl
        exact follows_pure ⟨some (t, id), rfl, rfl, rfl⟩
      · intro _ _ made hmade
        obtain ⟨hs, hts, hids, rfl⟩ := hmade.slots.filter_isSome
        refine Follows.read fun _ => ?_
        rw [hts, hids]
        have hused := congrArg (superClass.toList ++ ·) (List.append_nil (hs.filterMap id))
        exact follows_ite (fun _ => follows_make (.classDeclaration name superClass hs) hused rfl rfl trivial)
          fun _ => follows_make (.classExpression name superClass hs) hused rfl rfl trivial
    refine follows_ite (fun _ => Follows.read fun _ => Follows.then (Follows.mapSome hbase) ?_) fun _ => hafter none
    rintro _ _ _ ⟨superClass, rfl, rfl, rfl⟩
    exact hafter superClass
  refine follows_ite (fun _ => Follows.read fun name => hname _) fun _ => ?_
  exact follows_ite (fun _ => follows_fail_bind) fun _ => hname _

end PlainScript.Building
