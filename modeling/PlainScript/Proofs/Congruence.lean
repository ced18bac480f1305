import PlainScript.Grammar.Script
import PlainScript.Proofs.Stream

/-! Two readers side by side. What the grammar does with its rules it does in few ways: it takes tokens, it sees what is
ahead, it fails, and in lists it recovers. A relation between readers that is kept in each of these ways is kept by all
rules, and so the scripts that two readers answer can be compared without another look at the grammar. -/
namespace PlainScript.Grammar

/-- The contexts differ in how errors are recovered from, and in nothing that a rule looks at. -/
def Context.Alike (c c' : Context) : Prop :=
  c' = { c with recover := c'.recover, maxRecoveredErrors := c'.maxRecoveredErrors }

/-- A relation between readers that each way of building a reader keeps. -/
structure Congruence (R : {α : Type} → Parser α → Parser α → Prop) : Prop where
  bind {α β : Type} {p p' : Parser α} {q q' : α → Parser β} (hp : R p p') (hq : ∀ a, R (q a) (q' a)) :
    R (p >>= q) (p' >>= q')
  read {α : Type} {q q' : Context → Parser α} (hq : ∀ c c', c.Alike c' → R (q c) (q' c')) :
    R (MonadReader.read >>= q) (MonadReader.read >>= q')
  inFunction {α : Type} {p p' : Parser α} {isAsync isGenerator : Bool} (hp : R p p') :
    R (inFunction isAsync isGenerator p) (inFunction isAsync isGenerator p')
  listedStatement {rules rules' : Rules} (ending : ListEnd) (hrules : R (rules .statement) (rules' .statement)) :
    R (listedStatement rules ending) (listedStatement rules' ending)
  fail {α : Type} (fault : ParseFault) : R (fail fault : Parser α) (fail fault)
  advance : R advance advance
  drainComments : R drainComments drainComments
  get : R (get : Parser State) get
  pure {α : Type} (a : α) : R (pure a) (pure a)

namespace Congruence

variable {R : {α : Type} → Parser α → Parser α → Prop} (h : Congruence @R)

/-! ### Tokens -/

section Tokens

variable {α β : Type} {p p' : Parser α}

lemma ite {b : Prop} [Decidable b] {q q' : Parser α} (hp : R p p') (hq : R q q') :
    R (if b then p else q) (if b then p' else q') := by
  split
  · exact hp
  · exact hq

include h

lemma here : R here here := h.bind h.get fun _ => h.pure _

lemma current : R current current := h.bind h.get fun _ => h.pure _

lemma ahead (n : Nat) : R (ahead n) (ahead n) := h.bind h.get fun _ => h.pure _

lemma tokensLeft : R tokensLeft tokensLeft := h.bind h.get fun _ => h.pure _

lemma atPunct (w : Text) : R (atPunct w) (atPunct w) := h.bind h.current fun _ => h.pure _

lemma atWord (w : Text) : R (atWord w) (atWord w) := h.bind h.current fun _ => h.pure _

lemma atName (w : Text) : R (atName w) (atName w) := h.bind h.current fun _ => h.pure _

lemma map (f : α → β) (hp : R p p') : R (f <$> p) (f <$> p') := by
  rw [← bind_pure_comp, ← bind_pure_comp]
  exact h.bind hp fun _ => h.pure _

lemma skip : R skip skip := h.map _ h.advance

lemma eat (w : Text) : R (eat w) (eat w) :=
  h.bind (h.atPunct w) fun _ => ite (h.bind h.skip fun _ => h.pure _) (h.pure _)

lemma fail_bind (fault : ParseFault) {q q' : β → Parser α} : R (Grammar.fail fault >>= q) (Grammar.fail fault >>= q') := by
  have hfail (q : β → Parser α) : Grammar.fail fault >>= q = Grammar.fail fault := rfl
  rw [hfail, hfail]
  exact h.fail fault

lemma unexpected : R (unexpected : Parser α) unexpected :=
  h.bind h.current fun _ => ite (h.fail _) (h.fail _)

lemma expect (w : Text) : R (expect w) (expect w) :=
  h.bind (h.eat w) fun _ => ite (h.bind h.current fun _ => h.fail _) (h.pure _)

lemma expectWord (w : Text) : R (expectWord w) (expectWord w) :=
  h.bind (h.atWord w) fun _ => ite (h.fail_bind _) h.skip

lemma semicolon : R semicolon semicolon :=
  h.bind (h.eat _) fun _ => ite (h.bind h.current fun _ => ite h.unexpected (h.pure _)) (h.pure _)

lemma identifierHere : R identifierHere identifierHere :=
  h.bind h.here fun _ => h.bind h.advance fun _ => h.pure _

lemma repeatUntil {stop : Parser Bool} (hstop : R stop stop) (hp : R p p') :
    R (repeatUntil stop p) (repeatUntil stop p') := by
  refine h.bind h.tokensLeft fun n => ?_
  generalize n + 1 = rounds
  induction rounds with
  | zero => exact h.unexpected
  | succ rounds ih =>
    exact h.bind hstop fun _ => ite (h.pure _) (h.bind hp fun _ => h.bind ih fun _ => h.pure _)

lemma extend {step step' : α → Parser (Option α)} (hstep : ∀ a, R (step a) (step' a)) (start : α) :
    R (extend step start) (extend step' start) := by
  refine h.bind h.tokensLeft fun n => ?_
  generalize n + 1 = rounds
  induction rounds generalizing start with
  | zero => exact h.unexpected
  | succ rounds ih =>
    refine h.bind (hstep start) fun next => ?_
    cases next with
    | none => exact h.pure _
    | some a => exact ih a

lemma commaList (closing : Text) (hp : R p p') : R (commaList closing p) (commaList closing p') :=
  h.repeatUntil (h.atPunct closing) <| h.bind hp fun _ => h.bind (h.atPunct closing) fun _ =>
    ite (h.bind (h.expect _) fun _ => h.pure _) (h.pure _)

end Tokens

variable {rules rules' : Rules} (hrules : ∀ rule, R (rules rule) (rules' rule))
include h hrules

/-! ### Lists of statements -/

lemma statementList (ending : ListEnd) : R (statementList rules ending) (statementList rules' ending) :=
  h.repeatUntil (h.bind h.current fun _ => h.pure _) (h.listedStatement ending (hrules .statement))

lemma block : R (block rules) (block rules') :=
  h.bind h.here fun _ => h.bind (h.expect _) fun _ => h.bind (h.statementList hrules _) fun _ =>
    h.bind h.drainComments fun _ => h.bind (h.expect _) fun _ => h.pure _

/-! ### Members -/

omit hrules in
lemma spreadOr {p p' : Parser Tree} (hp : R p p') : R (spreadOr p) (spreadOr p') :=
  h.bind h.here fun _ => h.bind (h.eat _) fun _ => ite (h.bind hp fun _ => h.pure _) hp

lemma arrayLiteral : R (arrayLiteral rules) (arrayLiteral rules') := by
  refine h.bind h.here fun _ => h.bind (h.expect _) fun _ => h.bind (h.repeatUntil (h.atPunct _) ?_) fun _ =>
    h.bind (h.expect _) fun _ => h.pure _
  refine h.bind (h.eat _) fun _ => ite (h.pure _) (h.bind (h.spreadOr (hrules _)) fun _ => ?_)
  exact h.bind (h.atPunct _) fun _ => ite (h.bind (h.expect _) fun _ => h.pure _) (h.pure _)

omit hrules in
lemma objectLiteral {p p' : Parser Tree} (hp : R p p') : R (objectLiteral p) (objectLiteral p') :=
  h.bind h.here fun _ => h.bind (h.expect _) fun _ => h.bind (h.commaList _ hp) fun _ =>
    h.bind (h.expect _) fun _ => h.pure _

section Objects

variable {object object' : Parser Tree} (hobject : R object object')
include hobject

lemma bindingTarget : R (bindingTarget rules object) (bindingTarget rules' object') :=
  h.bind (h.atPunct _) fun _ => ite (h.arrayLiteral hrules) <| h.bind (h.atPunct _) fun _ => ite hobject <|
    h.bind h.current fun _ => ite h.identifierHere (h.fail _)

lemma parameter : R (parameter rules object) (parameter rules' object') := by
  refine h.bind h.here fun _ => h.bind (h.eat _) fun _ => ite ?_ ?_
  · exact h.bind (h.bindingTarget hrules hobject) fun _ => h.pure _
  · refine h.bind (h.bindingTarget hrules hobject) fun _ => h.bind (h.eat _) fun _ => ite ?_ (h.pure _)
    exact h.bind (hrules _) fun _ => h.pure _

lemma parameters : R (parameters rules object) (parameters rules' object') :=
  h.bind (h.expect _) fun _ => h.bind (h.commaList _ (h.parameter hrules hobject)) fun _ =>
    h.bind (h.expect _) fun _ => h.pure _

lemma functionRest (isAsync isGenerator : Bool) :
    R (functionRest rules object isAsync isGenerator) (functionRest rules' object' isAsync isGenerator) :=
  h.inFunction <| h.bind (h.parameters hrules hobject) fun _ => h.bind (h.block hrules) fun _ => h.pure _

end Objects

lemma propertyKey : R (propertyKey rules) (propertyKey rules') := by
  refine h.bind h.here fun _ => h.bind (h.eat _) fun _ => ite ?_ (h.bind h.current fun t => ?_)
  · exact h.bind (hrules _) fun _ => h.bind (h.expect _) fun _ => h.pure _
  · cases t.kind with
    | string => exact h.bind h.skip fun _ => h.pure _
    | number => exact h.bind h.skip fun _ => h.pure _
    | identifier => exact h.bind h.identifierHere fun _ => h.pure _
    | keyword => exact h.bind h.identifierHere fun _ => h.pure _
    | _ => exact h.fail _

omit hrules in
lemma modifier (word : Text) : R (modifier word) (modifier word) :=
  h.bind (h.ahead 1) fun _ => h.bind (h.atName word) fun _ => ite (h.bind h.skip fun _ => h.pure _) (h.pure _)

omit hrules in
lemma accessor : R accessor accessor :=
  h.bind (h.modifier _) fun _ => ite (h.pure _) <| h.bind (h.modifier _) fun _ => ite (h.pure _) (h.pure _)

lemma memberWith {object object' : Parser Tree} (hobject : R object object') (inClass : Bool) :
    R (memberWith rules object inClass) (memberWith rules' object' inClass) := by
  refine h.bind h.here fun position => ?_
  extract_lets afterStatic afterSpread afterStatic' afterSpread'
  have hstatic (isStatic : Bool) : R (afterStatic isStatic) (afterStatic' isStatic) := by
    refine h.bind (h.atPunct _) fun _ => ite (h.fail_bind _) ?_
    refine h.bind (h.modifier _) fun isAsync => h.bind (h.eat _) fun isGenerator => ?_
    extract_lets afterKind afterKind'
    have hkind (kind : PropertyKind) : R (afterKind kind) (afterKind' kind) := by
      refine h.bind h.current fun first => h.bind (h.propertyKey hrules) ?_
      rintro ⟨key, computed⟩
      refine h.bind (h.atPunct _) fun _ => ite (h.bind (h.functionRest hrules hobject _ _) fun _ => h.pure _) ?_
      refine ite (h.fail_bind _) (ite ?_ ?_)
      · extract_lets afterField
        have hfield (value : Option Tree) : R (afterField value) (afterField value) :=
          h.bind h.semicolon fun _ => h.pure _
        exact h.bind (h.eat _) fun _ => ite (h.bind (h.map _ (hrules _)) hfield) (hfield none)
      refine h.bind (h.eat _) fun _ => ite (h.bind (hrules _) fun _ => h.pure _) (ite ?_ h.unexpected)
      exact h.bind (h.eat _) fun _ => ite (h.bind (hrules _) fun _ => h.pure _) (h.pure _)
    exact ite (hkind _) (h.bind h.accessor hkind)
  have hspread (isSpread : Bool) : R (afterSpread isSpread) (afterSpread' isSpread) :=
    ite (h.bind (hrules _) fun _ => h.pure _) (ite (h.bind (h.modifier _) hstatic) (hstatic false))
  exact ite (hspread false) (h.bind (h.eat _) hspread)

lemma member (n : Nat) (inClass : Bool) : R (member rules n inClass) (member rules' n inClass) := by
  induction n generalizing inClass with
  | zero => exact h.unexpected
  | succ n ih => exact h.memberWith hrules (h.objectLiteral (ih false)) inClass

lemma object : R (object rules) (object rules') :=
  h.bind h.tokensLeft fun _ => h.objectLiteral (h.member hrules _ false)

/-! ### Functions and classes -/

lemma functionDeclaration (isAsync : Bool) : R (functionDeclaration rules isAsync) (functionDeclaration rules' isAsync) := by
  refine h.bind h.here fun _ => h.bind (h.expectWord _) fun _ => h.bind (h.eat _) fun _ => h.bind h.current fun _ => ?_
  refine ite (h.fail_bind _) (h.bind h.advance fun _ => ?_)
  exact h.bind (h.functionRest hrules (h.object hrules) _ _) fun _ => h.pure _

lemma functionExpression (isAsync : Bool) : R (functionExpression rules isAsync) (functionExpression rules' isAsync) := by
  refine h.bind h.here fun _ => h.bind (h.expectWord _) fun _ => h.bind (h.eat _) fun _ => h.bind h.current fun _ => ?_
  extract_lets afterName afterName'
  have hname (name : Text) : R (afterName name) (afterName' name) :=
    h.bind (h.functionRest hrules (h.object hrules) _ _) fun _ => h.pure _
  exact ite (h.bind h.advance fun _ => hname _) (hname _)

lemma arrowFunction (isAsync : Bool) : R (arrowFunction rules isAsync) (arrowFunction rules' isAsync) := by
  refine h.bind h.here fun _ => h.bind h.current fun _ => ?_
  extract_lets afterParams afterParams'
  have hparams (params : List Tree) : R (afterParams params) (afterParams' params) := by
    refine h.bind (h.expect _) fun _ => h.bind (h.inFunction (h.bind (h.atPunct _) fun _ => ?_)) fun _ => h.pure _
    exact ite (h.block hrules) (hrules _)
  refine ite (h.bind h.identifierHere fun _ => hparams _) ?_
  exact h.bind (h.inFunction (h.parameters hrules (h.object hrules))) hparams

lemma classLiteral {base base' : Parser Tree} (hbase : R base base') (isDeclaration : Bool) :
    R (classLiteral rules base isDeclaration) (classLiteral rules' base' isDeclaration) := by
  refine h.bind h.here fun _ => h.bind (h.expectWord _) fun _ => h.bind h.current fun _ => ?_
  extract_lets afterName afterName'
  have hname (name : Text) : R (afterName name) (afterName' name) := by
    refine h.bind (h.atWord _) fun _ => ?_
    extract_lets afterBase afterBase'
    have hclass (superClass : Option Tree) : R (afterBase superClass) (afterBase' superClass) := by
      refine h.bind (h.expect _) fun _ => h.bind (h.repeatUntil (h.atPunct _) ?_) fun _ => ?_
      · refine h.bind (h.eat _) fun _ => ite (h.pure _) (h.bind h.tokensLeft fun _ => ?_)
        exact h.bind (h.member hrules _ true) fun _ => h.pure _
      · exact h.bind (h.expect _) fun _ => ite (h.pure _) (h.pure _)
    exact ite (h.bind h.skip fun _ => h.bind (h.map _ hbase) hclass) (hclass _)
  exact ite (h.bind h.advance fun _ => hname _) (ite (h.fail_bind _) (hname _))

/-! ### Operands -/

lemma expression (allowIn : Bool) : R (expression rules allowIn) (expression rules' allowIn) := by
  refine h.bind h.here fun _ => h.bind (hrules _) fun _ => h.bind (h.atPunct _) fun _ => ite (h.pure _) ?_
  refine h.bind (h.repeatUntil (h.bind (h.atPunct _) fun _ => h.pure _) ?_) fun _ => h.pure _
  exact h.bind h.skip fun _ => hrules _

omit hrules in
lemma memberName : R memberName memberName := by
  refine h.bind h.current fun t => ?_
  cases t.kind with
  | identifier => exact h.identifierHere
  | keyword => exact h.identifierHere
  | _ => exact h.fail _

lemma arguments : R (arguments rules) (arguments rules') :=
  h.bind (h.expect _) fun _ => h.bind (h.commaList _ (h.spreadOr (hrules _))) fun _ =>
    h.bind (h.expect _) fun _ => h.pure _

lemma indexRest : R (indexRest rules) (indexRest rules') :=
  h.bind (h.expression hrules _) fun _ => h.bind (h.expect _) fun _ => h.pure _

lemma primary {base base' : Parser Tree} (hbase : R base base') : R (primary rules base) (primary rules' base') := by
  refine h.bind h.here fun _ => h.bind h.current fun t => ?_
  extract_lets leaf
  have hleaf (payload : Payload Tree) : R (leaf payload) (leaf payload) := h.bind h.skip fun _ => h.pure _
  cases t.kind with
  | identifier =>
    refine h.bind (h.ahead 1) fun _ => ite ?_ h.identifierHere
    exact h.bind h.skip fun _ => h.functionExpression hrules true
  | keyword =>
    refine ite (hleaf _) (ite (hleaf _) (ite (hleaf _) (ite (hleaf _) ?_)))
    refine ite (h.functionExpression hrules false) (ite (h.classLiteral hrules hbase false) ?_)
    exact ite h.identifierHere h.unexpected
  | punctuator =>
    refine h.bind (h.eat _) fun _ => ite ?_ (ite (h.arrayLiteral hrules) (ite (h.object hrules) h.unexpected))
    exact h.bind (h.expression hrules _) fun _ => h.bind (h.expect _) fun _ => h.pure _
  | endOfFile => exact h.unexpected
  | _ => exact hleaf _

lemma plainMember (owner : Tree) (position : Position) :
    R (plainMember rules owner position) (plainMember rules' owner position) := by
  refine h.bind (h.eat _) fun _ => ite (h.bind h.memberName fun _ => h.pure _) ?_
  exact h.bind (h.eat _) fun _ => ite (h.bind (h.indexRest hrules) fun _ => h.pure _) (h.pure _)

lemma suffix (position : Position) (owner : Tree) : R (suffix rules position owner) (suffix rules' position owner) := by
  refine h.bind (h.plainMember hrules owner position) fun extended => ?_
  cases extended with
  | some t => exact h.pure _
  | none =>
  have hcall (isOptional : Bool) : R
      (do return some (Tree.of (.callExpression (some owner) (← Grammar.arguments rules) isOptional) position))
      (do return some (Tree.of (.callExpression (some owner) (← Grammar.arguments rules') isOptional) position)) :=
    h.bind (h.arguments hrules) fun _ => h.pure _
  refine h.bind (h.eat _) fun _ => ite (h.bind (h.atPunct _) fun _ => ite (hcall true) ?_) ?_
  · refine h.bind (h.eat _) fun _ => ite (h.bind (h.indexRest hrules) fun _ => h.pure _) ?_
    exact h.bind h.memberName fun _ => h.pure _
  · refine h.bind (h.atPunct _) fun _ => ite (hcall false) (h.bind h.current fun _ => ite ?_ (h.pure _))
    exact h.bind h.skip fun _ => h.pure _

lemma constructionWith {callee callee' : Parser Tree} (hcallee : R callee callee') :
    R (constructionWith rules callee) (constructionWith rules' callee') := by
  refine h.bind h.here fun _ => h.bind (h.expectWord _) fun _ => h.bind (h.eat _) fun _ => ite ?_ ?_
  · exact h.bind (h.atName _) fun _ => ite (h.fail_bind _) (h.bind h.skip fun _ => h.pure _)
  · refine h.bind hcallee fun start => h.bind (h.extend (fun owner => ?_) start) fun _ => ?_
    · exact h.bind h.here fun position => h.plainMember hrules owner position
    · exact h.bind (h.atPunct _) fun _ => ite (h.bind (h.arguments hrules) fun _ => h.pure _) (h.pure _)

lemma operandUpTo (n : Nat) :
    R (operandUpTo rules n) (operandUpTo rules' n) ∧ R (headUpTo rules n) (headUpTo rules' n) := by
  induction n with
  | zero => exact ⟨h.unexpected, h.unexpected⟩
  | succ n ih =>
    constructor
    · exact h.bind h.here fun position => h.bind ih.2 fun start => h.extend (h.suffix hrules position) start
    · exact h.bind (h.atWord _) fun _ => ite (h.constructionWith hrules ih.2) (h.primary hrules ih.1)

lemma operand : R (operand rules) (operand rules') := h.bind h.tokensLeft fun _ => (h.operandUpTo hrules _).1

/-! ### Operations -/

lemma postfixed : R (postfixed rules) (postfixed rules') := by
  refine h.bind h.here fun _ => h.bind (h.operand hrules) fun _ => h.bind h.current fun _ => ite ?_ (h.pure _)
  exact ite (h.fail_bind _) (h.bind h.skip fun _ => h.pure _)

lemma unary : R (unary rules) (unary rules') := by
  refine h.bind h.current fun t => h.read fun c c' hc => h.bind (h.ahead 1) fun next => ?_
  have hoperator : isUnaryOperator c' t next = isUnaryOperator c t next := by rw [hc]; rfl
  rw [hoperator]
  refine ite (h.bind h.skip fun _ => h.bind (hrules _) fun _ => h.pure _) (ite ?_ (h.postfixed hrules))
  exact h.bind h.skip fun _ => h.bind (hrules _) fun _ => ite (h.fail_bind _) (h.pure _)

lemma binaryUpTo (n least : Nat) (allowIn : Bool) :
    R (binaryUpTo rules n least allowIn) (binaryUpTo rules' n least allowIn) := by
  induction n generalizing least with
  | zero => exact h.unexpected
  | succ n ih =>
    refine h.bind h.here fun _ => h.bind (hrules _) fun first => h.extend (fun left => ?_) first
    refine h.bind h.current fun _ => ite (h.pure _) (h.bind h.skip fun _ => ?_)
    exact h.bind (ih _) fun _ => h.pure _

lemma conditional (allowIn : Bool) : R (conditional rules allowIn) (conditional rules' allowIn) := by
  refine h.bind h.here fun _ => h.bind (h.bind h.tokensLeft fun _ => h.binaryUpTo hrules _ 1 allowIn) fun _ => ?_
  refine h.bind (h.eat _) fun _ => ite (h.pure _) (h.bind (hrules _) fun _ => h.bind (h.expect _) fun _ => ?_)
  exact h.bind (hrules _) fun _ => h.pure _

lemma yieldRest (allowIn : Bool) (position : Position) :
    R (yieldRest rules allowIn position) (yieldRest rules' allowIn position) := by
  refine h.bind (h.eat _) fun _ => ?_
  extract_lets operator afterArgument
  exact h.bind h.current fun _ => ite (h.bind (h.map _ (hrules _)) fun _ => h.pure _) (h.pure _)

lemma assignment (allowIn : Bool) : R (assignment rules allowIn) (assignment rules' allowIn) := by
  refine h.bind h.get fun s => h.bind h.here fun position => ite (h.bind (h.ahead 1) fun _ => ?_) ?_
  · exact ite (h.bind h.skip fun _ => h.arrowFunction hrules _) (h.arrowFunction hrules _)
  refine h.read fun c c' hc => h.bind (h.atName _) fun _ => ?_
  have hgenerator : c'.inGenerator = c.inGenerator := by rw [hc]
  rw [hgenerator]
  refine ite (h.bind h.skip fun _ => h.yieldRest hrules allowIn position) ?_
  refine h.bind (h.conditional hrules allowIn) fun _ => h.bind h.current fun _ => ite (h.pure _) ?_
  exact ite (h.fail_bind _) (h.bind h.skip fun _ => h.bind (hrules _) fun _ => h.pure _)

/-! ### Statements -/

omit hrules in
lemma atLexicalDeclaration : R atLexicalDeclaration atLexicalDeclaration :=
  h.bind (h.atWord _) fun _ => ite (h.pure _) (h.bind (h.ahead 1) fun _ => h.bind (h.atName _) fun _ => h.pure _)

lemma variableDeclaration (allowIn : Bool) :
    R (variableDeclaration rules allowIn) (variableDeclaration rules' allowIn) := by
  refine h.bind h.here fun _ => h.bind h.advance fun _ => ?_
  extract_lets keyword declarator declarator'
  have hdeclarator : R declarator declarator' := by
    refine h.bind h.here fun _ => h.bind (h.bindingTarget hrules (h.object hrules)) fun _ => h.bind (h.eat _) fun _ => ?_
    exact ite (h.bind (h.map _ (hrules _)) fun _ => h.pure _) (h.pure _)
  refine h.bind hdeclarator fun _ => h.bind (h.repeatUntil (h.bind (h.atPunct _) fun _ => h.pure _) ?_) fun _ => h.pure _
  exact h.bind h.skip fun _ => hdeclarator

lemma condition : R (condition rules) (condition rules') :=
  h.bind (h.expect _) fun _ => h.bind (h.expression hrules _) fun _ => h.bind (h.expect _) fun _ => h.pure _

lemma ifStatement : R (ifStatement rules) (ifStatement rules') := by
  refine h.bind h.here fun _ => h.bind (h.expectWord _) fun _ => h.bind (h.condition hrules) fun _ => ?_
  refine h.bind (hrules _) fun _ => h.bind (h.atWord _) fun _ => ite (h.bind h.skip fun _ => ?_) (h.pure _)
  exact h.bind (h.map _ (hrules _)) fun _ => h.pure _

lemma optionalExpression (closing : Text) :
    R (optionalExpression rules closing) (optionalExpression rules' closing) := by
  refine h.bind (h.atPunct _) fun _ => ?_
  extract_lets afterExpression
  have hafter (e : Option Tree) : R (afterExpression e) (afterExpression e) := h.bind (h.expect _) fun _ => h.pure _
  exact ite (hafter none) (h.bind (h.map _ (h.expression hrules _)) hafter)

lemma forStatement : R (forStatement rules) (forStatement rules') := by
  refine h.bind h.here fun _ => h.bind (h.expectWord _) fun _ => h.bind (h.atName _) fun isAwait => ?_
  extract_lets afterInit afterAwait afterInit' afterAwait'
  have hinit (init : Option Tree) : R (afterInit init) (afterInit' init) := by
    refine h.bind (h.atName _) fun isOf => h.bind (h.atWord _) fun _ => ite (h.bind h.skip fun _ => ?_) ?_
    · extract_lets afterRight afterRight'
      have hright (right : Tree) : R (afterRight right) (afterRight' right) :=
        h.bind (h.expect _) fun _ => h.bind (hrules _) fun _ => h.pure _
      exact ite (h.bind (hrules _) hright) (h.bind (h.expression hrules _) hright)
    · refine ite (h.fail_bind _) (h.bind (h.expect _) fun _ => h.bind (h.optionalExpression hrules _) fun _ => ?_)
      exact h.bind (h.optionalExpression hrules _) fun _ => h.bind (hrules _) fun _ => h.pure _
  have hawait (u : Unit) : R (afterAwait u) (afterAwait' u) := by
    refine h.bind (h.expect _) fun _ => h.bind (h.atPunct _) fun _ => h.bind (h.atWord _) fun _ => ?_
    refine h.bind h.atLexicalDeclaration fun _ => ite (hinit none) (ite ?_ ?_)
    · exact h.bind (h.map _ (h.variableDeclaration hrules false)) hinit
    · exact h.bind (h.map _ (h.expression hrules false)) hinit
  exact ite (h.bind h.skip hawait) (hawait ())

lemma whileStatement : R (whileStatement rules) (whileStatement rules') :=
  h.bind h.here fun _ => h.bind (h.expectWord _) fun _ => h.bind (h.condition hrules) fun _ =>
    h.bind (hrules _) fun _ => h.pure _

lemma doWhileStatement : R (doWhileStatement rules) (doWhileStatement rules') :=
  h.bind h.here fun _ => h.bind (h.expectWord _) fun _ => h.bind (hrules _) fun _ => h.bind (h.expectWord _) fun _ =>
    h.bind (h.condition hrules) fun _ => h.bind (h.map _ (h.eat _)) fun _ => h.pure _

lemma returnStatement : R (returnStatement rules) (returnStatement rules') := by
  refine h.bind h.here fun _ => h.bind (h.expectWord _) fun _ => h.bind h.current fun _ => ?_
  extract_lets isBare afterArgument
  have hargument (argument : Option Tree) : R (afterArgument argument) (afterArgument argument) :=
    h.bind h.semicolon fun _ => h.pure _
  exact ite (hargument none) (h.bind (h.map _ (h.expression hrules _)) hargument)

omit hrules in
lemma jumpLabel : R jumpLabel jumpLabel := by
  refine h.bind h.skip fun _ => h.bind h.current fun _ => ?_
  extract_lets afterLabel
  have hlabel (label : Text) : R (afterLabel label) (afterLabel label) := h.bind h.semicolon fun _ => h.pure _
  exact ite (h.bind h.advance fun _ => hlabel _) (hlabel [])

lemma throwStatement : R (throwStatement rules) (throwStatement rules') := by
  refine h.bind h.here fun _ => h.bind (h.expectWord _) fun _ => h.bind h.current fun _ => ite (h.fail_bind _) ?_
  exact h.bind (h.expression hrules _) fun _ => h.bind h.semicolon fun _ => h.pure _

lemma tryStatement : R (tryStatement rules) (tryStatement rules') := by
  refine h.bind h.here fun _ => h.bind (h.expectWord _) fun _ => h.bind (h.block hrules) fun _ =>
    h.bind (h.atWord _) fun _ => ?_
  extract_lets afterHandler afterParam afterHandler' afterParam'
  have hhandler (handler : Option Tree × Option Tree) : R (afterHandler handler) (afterHandler' handler) := by
    refine h.bind (h.atWord _) fun _ => ite (h.bind h.skip fun _ => ?_) (ite (h.fail_bind _) (h.pure _))
    exact h.bind (h.map _ (h.block hrules)) fun _ => ite (h.fail_bind _) (h.pure _)
  have hparam (param : Option Tree) : R (afterParam param) (afterParam' param) :=
    h.bind (h.block hrules) fun handler => hhandler (param, some handler)
  refine ite (h.bind h.skip fun _ => h.bind (h.eat _) fun _ => ite ?_ (hparam none)) (hhandler (none, none))
  exact h.bind (h.bindingTarget hrules (h.object hrules)) fun _ => h.bind (h.expect _) fun _ => hparam _

lemma clause (defaultSeen : Bool) : R (clause rules defaultSeen) (clause rules' defaultSeen) := by
  refine h.bind h.drainComments fun _ => h.bind h.here fun _ => h.bind (h.atWord _) fun _ => ?_
  extract_lets afterTest afterDefault afterTest' afterDefault'
  have htest (test : Option Tree) : R (afterTest test) (afterTest' test) :=
    h.bind (h.expect _) fun _ => h.bind (h.statementList hrules _) fun _ => h.pure _
  have hdefault (u : Unit) : R (afterDefault u) (afterDefault' u) := h.bind h.skip fun _ => htest none
  refine h.bind (h.atWord _) fun _ => ite ?_ (ite (ite (h.fail_bind _) (hdefault ())) (h.bind h.unexpected htest))
  exact h.bind h.skip fun _ => h.bind (h.map _ (h.expression hrules _)) htest

lemma switchStatement : R (switchStatement rules) (switchStatement rules') := by
  refine h.bind h.here fun _ => h.bind (h.expectWord _) fun _ => h.bind (h.condition hrules) fun _ =>
    h.bind (h.expect _) fun _ => h.bind (h.extend (fun _ => ?_) _) fun _ => ?_
  · refine h.bind (h.atPunct _) fun _ => ite (h.pure _) ?_
    exact h.bind (h.clause hrules _) fun _ => h.pure _
  · exact h.bind h.drainComments fun _ => h.bind (h.expect _) fun _ => h.pure _

lemma labeledStatement : R (labeledStatement rules) (labeledStatement rules') :=
  h.bind h.here fun _ => h.bind h.advance fun _ => h.bind h.skip fun _ => h.bind (hrules _) fun _ => h.pure _

lemma expressionStatement : R (expressionStatement rules) (expressionStatement rules') :=
  h.bind h.here fun _ => h.bind (h.expression hrules _) fun _ => h.bind h.semicolon fun _ => h.pure _

omit hrules in
lemma debuggerStatement : R debuggerStatement debuggerStatement :=
  h.bind h.here fun _ => h.bind h.skip fun _ => h.bind h.semicolon fun _ => h.pure _

lemma bareStatement : R (bareStatement rules) (bareStatement rules') := by
  refine h.bind h.current fun t => h.bind (h.ahead 1) fun next => ?_
  extract_lets declaration isWord declaration'
  have hdeclaration : R declaration declaration' :=
    h.bind (h.variableDeclaration hrules true) fun _ => h.bind h.semicolon fun _ => h.pure _
  refine ite (h.block hrules) (ite (h.bind h.skip fun _ => h.pure _) (ite hdeclaration ?_))
  refine ite (h.functionDeclaration hrules false) (ite (h.classLiteral hrules (h.operand hrules) true) ?_)
  refine ite (h.ifStatement hrules) (ite (h.forStatement hrules) (ite (h.whileStatement hrules) ?_))
  refine ite (h.doWhileStatement hrules) (ite (h.returnStatement hrules) ?_)
  refine ite (h.bind h.jumpLabel fun _ => h.pure _) (ite (h.bind h.jumpLabel fun _ => h.pure _) ?_)
  refine ite (h.throwStatement hrules) (ite (h.tryStatement hrules) (ite (h.switchStatement hrules) ?_))
  refine ite h.debuggerStatement (ite (h.fail _) (ite (h.fail _) (ite (h.fail _) ?_)))
  refine h.bind h.atLexicalDeclaration fun _ => ite hdeclaration ?_
  refine ite (h.bind h.skip fun _ => h.functionDeclaration hrules true) ?_
  exact ite (h.labeledStatement hrules) (h.expressionStatement hrules)

lemma statement : R (statement rules) (statement rules') :=
  h.bind h.drainComments fun _ => h.bind (h.bareStatement hrules) fun _ => h.pure _

/-! ### Scripts -/

lemma rule (rule : Rule) : R (Grammar.read rules rule) (Grammar.read rules' rule) := by
  cases rule with
  | statement => exact h.statement hrules
  | assignment allowIn => exact h.assignment hrules allowIn
  | unary => exact h.unary hrules

lemma script : R (script rules) (script rules') :=
  h.bind h.here fun _ => h.bind (h.statementList hrules _) fun _ => h.bind h.drainComments fun _ => h.pure _

omit hrules in
/-- Rules that are related when no level is left to the first ones are related on every level. -/
theorem rulesUpTo {k : Nat} (hzero : ∀ rule, R (rulesUpTo 0 rule) (rulesUpTo k rule)) (d : Nat) (rule : Rule) :
    R (rulesUpTo d rule) (rulesUpTo (k + d) rule) := by
  induction d generalizing rule with
  | zero => exact hzero rule
  | succ d ih => exact h.rule ih rule

end Congruence

end PlainScript.Grammar
