import PlainScript.Proofs.Attachment
import PlainScript.Proofs.Lossless
import PlainScript.Proofs.Recovery
import PlainScript.Proofs.Adoption

/-! A script keeps its comments. Every rule attaches the comments that it passes, from left to right, so that the
comments of a script that was read without errors are those of its tokens. -/
namespace PlainScript

open Grammar

namespace Grammar

variable {rules : Rules} (h : ∀ rule, Collects (rules rule)) {before : List Text}
include h

/-! ### Lists of statements -/

/-- Where something was recovered, nothing is said of comments. -/
lemma collects_listedStatement (ending : ListEnd) : Collects (listedStatement rules ending) := by
  intro before
  refine asks_get.bind_attaches fun start => ?_
  intro c s
  refine meets_tryCatch ((h .statement before c s).mono (fun _ _ => id) fun e s' _ => ?_)
  refine meets_step run_read ?_
  split
  · exact (recoverFrom_recovered start ending e c s').mono (fun _ _ hne hnil => absurd hnil hne) fun _ _ => id
  · trivial

lemma attaches_statementList (ending : ListEnd) :
    Attaches before (fun ts => before ++ ts.flatMap Tree.comments) (statementList rules ending) :=
  attaches_repeatUntil (asks_current.bind fun _ => asks_pure _).silent (collects_listedStatement h ending)

lemma collects_block : Collects (block rules) := by
  intro before
  refine asks_here.bind_attaches fun position => (silent_expect _).bind fun _ => ?_
  refine (attaches_statementList h _).bind fun body => (attaches_drainComments _).bind fun trailing => ?_
  refine (silent_expect _).bind fun _ => attaches_pure ?_
  rw [Tree.comments_mk [.many (body.map some)] rfl]
  simp [Slot.comments, Tree.commentsIn_map_some]

/-! ### Members -/

omit h in
lemma collects_spreadOr {item : Parser Tree} (hitem : Collects item) : Collects (spreadOr item) := by
  intro before
  refine asks_here.bind_attaches fun position => (silent_eat _).bind fun spreads => attaches_ite ?_ (hitem before)
  exact (hitem before).bind fun t => attaches_node [.one (some t)] rfl (by simp [Slot.comments])

lemma collects_arrayLiteral : Collects (arrayLiteral rules) := by
  intro before
  refine asks_here.bind_attaches fun position => (silent_expect _).bind fun _ => ?_
  have hitem (before : List Text) : Attaches before (fun slot => before ++ Tree.commentsIn slot) (do
      if ← eat "," then return none
      let element ← spreadOr (rules (.assignment true))
      if !(← atPunct "]") then expect ","
      return some element) := by
    refine (silent_eat _).bind fun missing => attaches_ite (attaches_pure (by simp)) ?_
    refine (collects_spreadOr (h _) before).bind fun t => (asks_atPunct _).bind_attaches fun _ => ?_
    exact attaches_ite ((silent_expect _).bind fun _ => attaches_pure rfl) (attaches_pure rfl)
  refine (attaches_repeatUntil (asks_atPunct _).silent hitem).bind fun elements => (silent_expect _).bind fun _ => ?_
  exact attaches_node [.many elements] rfl (by simp [Slot.comments])

omit h in
lemma collects_objectLiteral {member : Parser Tree} (hmember : Collects member) : Collects (objectLiteral member) := by
  intro before
  refine asks_here.bind_attaches fun position => (silent_expect _).bind fun _ => ?_
  refine (attaches_commaList hmember).bind fun members => (silent_expect _).bind fun _ => ?_
  exact attaches_node [.many (members.map some)] rfl (by simp [Slot.comments, Tree.commentsIn_map_some])

section Objects

variable {object : Parser Tree} (hobject : Collects object)
include hobject

lemma collects_bindingTarget : Collects (bindingTarget rules object) := by
  intro before
  refine (asks_atPunct _).bind_attaches fun isArray => attaches_ite (collects_arrayLiteral h before) ?_
  refine (asks_atPunct _).bind_attaches fun isObject => attaches_ite (hobject before) ?_
  exact asks_current.bind_attaches fun t => attaches_ite (collects_identifierHere before) (attaches_fail _)

lemma collects_parameter : Collects (parameter rules object) := by
  intro before
  refine asks_here.bind_attaches fun position => (silent_eat _).bind fun isRest => attaches_ite ?_ ?_
  · refine (collects_bindingTarget h hobject before).bind fun t => ?_
    exact attaches_node [.one (some t)] rfl (by simp [Slot.comments])
  refine (collects_bindingTarget h hobject before).bind fun target => (silent_eat _).bind fun hasDefault => ?_
  refine attaches_ite ((h _ _).bind fun value => ?_) (attaches_pure rfl)
  exact attaches_node [.one (some target), .one (some value)] rfl (by simp [Slot.comments])

lemma attaches_parameters :
    Attaches before (fun ts => before ++ ts.flatMap Tree.comments) (parameters rules object) :=
  (silent_expect _).bind fun _ => (attaches_commaList (collects_parameter h hobject)).bind fun _ =>
  (silent_expect _).bind fun _ => attaches_pure rfl

lemma attaches_functionRest (isAsync isGenerator : Bool) :
    Attaches before (fun r => before ++ r.1.flatMap Tree.commentsIn ++ Tree.commentsIn r.2)
      (functionRest rules object isAsync isGenerator) :=
  attaches_inFunction <| (attaches_parameters h hobject).bind fun _ => (collects_block h _).bind fun body =>
    attaches_pure (by simp [Tree.commentsIn_map_some])

end Objects

lemma attaches_propertyKey : Attaches before (fun r => before ++ r.1.comments) (propertyKey rules) := by
  refine asks_here.bind_attaches fun position => (silent_eat _).bind fun computed => attaches_ite ?_ ?_
  · exact (h _ _).bind fun key => (silent_expect _).bind fun _ => attaches_pure rfl
  · refine asks_current.bind_attaches fun t => ?_
    split
    · exact silent_skip.bind fun _ => attaches_pure (by rw [Tree.comments_of [] rfl]; simp)
    · exact silent_skip.bind fun _ => attaches_pure (by rw [Tree.comments_of [] rfl]; simp)
    · exact (collects_identifierHere _).bind fun _ => attaches_pure rfl
    · exact (collects_identifierHere _).bind fun _ => attaches_pure rfl
    · exact attaches_fail _

omit h in
lemma silent_modifier (word : Text) : Silent (modifier word) := fun _ =>
  (asks_ahead 1).bind_attaches fun _ => (asks_atName _).bind_attaches fun _ =>
    attaches_ite (silent_skip.bind fun _ => attaches_pure rfl) (attaches_pure rfl)

omit h in
lemma silent_accessor : Silent accessor := fun _ =>
  (silent_modifier _).bind fun _ => attaches_ite (attaches_pure rfl) <|
  (silent_modifier _).bind fun _ => attaches_ite (attaches_pure rfl) (attaches_pure rfl)

lemma collects_memberWith {object : Parser Tree} (hobject : Collects object) (inClass : Bool) :
    Collects (memberWith rules object inClass) := by
  intro before
  refine asks_here.bind_attaches fun position => ?_
  extract_lets afterStatic afterSpread
  have hstatic (isStatic : Bool) : Attaches before (fun t => before ++ t.comments) (afterStatic isStatic) := by
    refine (asks_atPunct _).bind_attaches fun isBlock => ?_
    refine attaches_ite (attaches_fail_bind _) ?_
    refine (silent_modifier _).bind fun isAsync => (silent_eat _).bind fun isGenerator => ?_
    extract_lets afterKind
    have hkind (kind : PropertyKind) : Attaches before (fun t => before ++ t.comments) (afterKind kind) := by
      refine asks_current.bind_attaches fun first => (attaches_propertyKey h).bind ?_
      rintro ⟨key, computed⟩
      refine (asks_atPunct _).bind_attaches fun isMethod => attaches_ite ?_ ?_
      · refine (attaches_functionRest h hobject _ _).bind ?_
        rintro ⟨params, body⟩
        have hfunction : (Tree.of (.functionExpression [] params body isAsync isGenerator) first.position).comments =
            [Slot.many params, .one body].flatMap Slot.comments := Tree.comments_of _ rfl
        exact attaches_node [.one (some key), .one (some _)] rfl (by simp [Slot.comments, hfunction])
      extract_lets afterField name afterDefault afterMethod
      have hname : name.comments = [] := Tree.comments_of [] rfl
      have hvalue (value : Option Tree) : Attaches (before ++ key.comments ++ Tree.commentsIn value)
          (fun t => before ++ t.comments) (afterField value) :=
        silent_semicolon.bind fun _ => attaches_node [.one (some key), .one value] rfl (by simp [Slot.comments])
      have hdefault (value : Tree) : Attaches (before ++ key.comments ++ value.comments)
          (fun t => before ++ t.comments) (afterDefault value) :=
        attaches_node [.one (some key), .one (some value)] rfl (by simp [Slot.comments])
      refine attaches_ite (attaches_fail_bind _) (attaches_ite ?_ ?_)
      · exact (silent_eat _).bind fun _ => attaches_ite ((h _).some.bind hvalue) (attaches_none hvalue)
      refine (silent_eat _).bind fun _ => attaches_ite ?_ (attaches_ite ?_ attaches_unexpected)
      · refine (h _ _).bind fun value => ?_
        exact attaches_node [.one (some key), .one (some value)] rfl (by simp [Slot.comments])
      -- A key alone is the value too, and a default value is assigned to it.
      · refine (silent_eat _).bind fun _ => attaches_ite ((h _ _).bind fun value => ?_) ?_
        · have hassigned : (Tree.of (.assignmentExpression "=" (some name) (some value)) first.position).comments =
              [Slot.one (some name), .one (some value)].flatMap Slot.comments := Tree.comments_of _ rfl
          refine attaches_node [.one (some key), .one (some _)] rfl ?_
          simp [Slot.comments, hassigned, hname]
        · simpa [hname] using hdefault name
    exact attaches_ite (hkind .init) (silent_accessor.bind hkind)
  have hspread (isSpread : Bool) : Attaches before (fun t => before ++ t.comments) (afterSpread isSpread) := by
    refine attaches_ite ((h _ _).bind fun value => ?_) ?_
    · exact attaches_node [.one none, .one (some value)] rfl (by simp [Slot.comments])
    · exact attaches_ite ((silent_modifier _).bind hstatic) (hstatic false)
  exact attaches_ite (hspread false) ((silent_eat _).bind hspread)

lemma collects_member (n : Nat) (inClass : Bool) : Collects (member rules n inClass) := by
  induction n generalizing inClass with
  | zero => exact fun _ => attaches_unexpected
  | succ n ih => exact collects_memberWith h (collects_objectLiteral (ih false)) inClass

lemma collects_object : Collects (object rules) := fun before =>
  asks_tokensLeft.bind_attaches fun _ => collects_objectLiteral (collects_member h _ false) before

/-! ### Functions and classes -/

lemma collects_functionDeclaration (isAsync : Bool) : Collects (functionDeclaration rules isAsync) := by
  intro before
  refine asks_here.bind_attaches fun position => (silent_expectWord _).bind fun _ => (silent_eat _).bind fun _ => ?_
  refine asks_current.bind_attaches fun t => attaches_ite (attaches_fail_bind _) (silent_advance.bind fun name => ?_)
  refine (attaches_functionRest h (collects_object h) _ _).bind ?_
  rintro ⟨params, body⟩
  exact attaches_node [.many params, .one body] rfl (by simp [Slot.comments])

lemma collects_functionExpression (isAsync : Bool) : Collects (functionExpression rules isAsync) := by
  intro before
  refine asks_here.bind_attaches fun position => (silent_expectWord _).bind fun _ => (silent_eat _).bind fun _ => ?_
  refine asks_current.bind_attaches fun t => ?_
  extract_lets afterName
  have hname (name : Text) : Attaches before (fun t => before ++ t.comments) (afterName name) := by
    refine (attaches_functionRest h (collects_object h) _ _).bind ?_
    rintro ⟨params, body⟩
    exact attaches_node [.many params, .one body] rfl (by simp [Slot.comments])
  exact attaches_ite (silent_advance.bind fun _ => hname _) (hname _)

lemma collects_arrowFunction (isAsync : Bool) : Collects (arrowFunction rules isAsync) := by
  intro before
  refine asks_here.bind_attaches fun position => asks_current.bind_attaches fun t => ?_
  extract_lets afterParams
  have hparams (params : List Tree) : Attaches (before ++ params.flatMap Tree.comments)
      (fun t => before ++ t.comments) (afterParams params) := by
    refine (silent_expect _).bind fun _ => ?_
    refine (attaches_inFunction ((asks_atPunct _).bind_attaches fun _ =>
      attaches_ite (collects_block h _) (h _ _))).bind fun body => ?_
    exact attaches_node [.many (params.map some), .one (some body)] rfl
      (by simp [Slot.comments, Tree.commentsIn_map_some])
  refine attaches_ite ((collects_identifierHere before).bind fun name => ?_)
    ((attaches_inFunction (attaches_parameters h (collects_object h))).bind hparams)
  simpa using hparams [name]

/-- A semicolon between the members of a class is none of them. -/
lemma attaches_classMember : Attaches before (fun slot => before ++ Tree.commentsIn slot) (do
    if ← eat ";" then return none
    return some (← member rules (← tokensLeft) true)) := by
  refine (silent_eat _).bind fun _ => attaches_ite (attaches_pure (by simp)) ?_
  exact asks_tokensLeft.bind_attaches fun _ => (collects_member h _ true before).bind fun _ => attaches_pure rfl

lemma collects_classLiteral {base : Parser Tree} (hbase : Collects base) (isDeclaration : Bool) :
    Collects (classLiteral rules base isDeclaration) := by
  intro before
  refine asks_here.bind_attaches fun position => (silent_expectWord _).bind fun _ => ?_
  refine asks_current.bind_attaches fun t => ?_
  extract_lets afterName
  have hname (name : Text) : Attaches before (fun t => before ++ t.comments) (afterName name) := by
    refine (asks_atWord _).bind_attaches fun isDerived => ?_
    extract_lets afterBase
    have hclass (superClass : Option Tree) : Attaches (before ++ Tree.commentsIn superClass)
        (fun t => before ++ t.comments) (afterBase superClass) := by
      refine (silent_expect _).bind fun _ => ?_
      refine (attaches_repeatUntil (asks_atPunct _).silent fun _ => attaches_classMember h).bind fun members => ?_
      refine (silent_expect _).bind fun _ => attaches_ite ?_ ?_
      · exact attaches_node [.one superClass, .many (members.filter Option.isSome)] rfl
          (by simp [Slot.comments, Tree.commentsIn_filter_isSome])
      · exact attaches_node [.one superClass, .many (members.filter Option.isSome)] rfl
          (by simp [Slot.comments, Tree.commentsIn_filter_isSome])
    exact attaches_ite (silent_skip.bind fun _ => hbase.some.bind hclass) (attaches_none hclass)
  exact attaches_ite (silent_advance.bind fun _ => hname _) (attaches_ite (attaches_fail_bind _) (hname _))

/-! ### Operands -/

lemma collects_expression (allowIn : Bool) : Collects (expression rules allowIn) := by
  intro before
  refine asks_here.bind_attaches fun position => (h _ before).bind fun first => ?_
  refine (asks_atPunct _).bind_attaches fun _ => attaches_ite (attaches_pure rfl) ?_
  refine (attaches_repeatUntil ((asks_atPunct _).bind fun _ => asks_pure _).silent
    fun before => silent_skip.bind fun _ => h _ before).bind fun others => ?_
  exact attaches_node [.many (some first :: others.map some)] rfl (by simp [Slot.comments, Tree.commentsIn_map_some])

omit h in
lemma collects_memberName : Collects memberName := by
  intro before
  refine asks_current.bind_attaches fun t => ?_
  split
  · exact collects_identifierHere before
  · exact collects_identifierHere before
  · exact attaches_fail _

lemma attaches_arguments :
    Attaches before (fun args => before ++ args.flatMap Tree.commentsIn) (arguments rules) :=
  (silent_expect _).bind fun _ => (attaches_commaList (collects_spreadOr (h _))).bind fun args =>
  (silent_expect _).bind fun _ => attaches_pure (by rw [Tree.commentsIn_map_some])

lemma collects_indexRest : Collects (indexRest rules) := fun before =>
  (collects_expression h true before).bind fun _ => (silent_expect _).bind fun _ => attaches_pure rfl

lemma collects_primary {base : Parser Tree} (hbase : Collects base) : Collects (primary rules base) := by
  intro before
  refine asks_here.bind_attaches fun position => asks_current.bind_attaches fun t => ?_
  extract_lets leaf
  have hleaf (payload : Payload Tree) (hslots : payload.slots = []) :
      Attaches before (fun t => before ++ t.comments) (leaf payload) :=
    silent_skip.bind fun _ => attaches_leaf hslots
  split
  · refine (asks_ahead 1).bind_attaches fun next => attaches_ite ?_ (collects_identifierHere before)
    exact silent_skip.bind fun _ => collects_functionExpression h true before
  · exact hleaf _ rfl
  · exact hleaf _ rfl
  · exact hleaf _ rfl
  · exact hleaf _ rfl
  · refine attaches_ite (hleaf _ rfl) (attaches_ite (hleaf _ rfl) ?_)
    refine attaches_ite (hleaf _ rfl) (attaches_ite (hleaf _ rfl) ?_)
    refine attaches_ite (collects_functionExpression h false before) ?_
    refine attaches_ite (collects_classLiteral h hbase false before) ?_
    exact attaches_ite (collects_identifierHere before) attaches_unexpected
  · refine (silent_eat _).bind fun _ => attaches_ite ?_ (attaches_ite (collects_arrayLiteral h before)
      (attaches_ite (collects_object h before) attaches_unexpected))
    exact (collects_expression h true before).bind fun _ => (silent_expect _).bind fun _ => attaches_pure rfl
  · exact attaches_unexpected

/-- What an operand is extended by keeps the comments of the operand. -/
lemma attaches_plainMember (owner : Tree) (position : Position) :
    Attaches (before ++ owner.comments) (fun extended => before ++ (extended.getD owner).comments)
      (plainMember rules owner position) := by
  refine (silent_eat _).bind fun isNamed => attaches_ite ?_ ?_
  · refine (collects_memberName _).bind fun name => ?_
    exact attaches_extended [.one (some owner), .one (some name)] rfl (by simp [Slot.comments])
  refine (silent_eat _).bind fun isIndexed => attaches_ite ?_ (attaches_pure rfl)
  refine (collects_indexRest h _).bind fun index => ?_
  exact attaches_extended [.one (some owner), .one (some index)] rfl (by simp [Slot.comments])

lemma attaches_call (owner : Tree) (position : Position) (isOptional : Bool) :
    Attaches (before ++ owner.comments) (fun extended => before ++ (extended.getD owner).comments) (do
      let args ← arguments rules
      return some (.of (.callExpression (some owner) args isOptional) position)) := by
  refine (attaches_arguments h).bind fun args => ?_
  exact attaches_extended [.one (some owner), .many args] rfl (by simp [Slot.comments])

lemma attaches_suffix (owner : Tree) (position : Position) :
    Attaches (before ++ owner.comments) (fun extended => before ++ (extended.getD owner).comments)
      (suffix rules position owner) := by
  refine (attaches_plainMember h owner position).bind fun extended => ?_
  cases extended with
  | some t => exact attaches_pure rfl
  | none =>
  refine (silent_eat _).bind fun isOptional => attaches_ite ?_ ?_
  · refine (asks_atPunct _).bind_attaches fun isCall => attaches_ite (attaches_call h owner position true) ?_
    refine (silent_eat _).bind fun isIndexed => attaches_ite ?_ ?_
    · refine (collects_indexRest h _).bind fun index => ?_
      exact attaches_extended [.one (some owner), .one (some index)] rfl (by simp [Slot.comments])
    · refine (collects_memberName _).bind fun name => ?_
      exact attaches_extended [.one (some owner), .one (some name)] rfl (by simp [Slot.comments])
  refine (asks_atPunct _).bind_attaches fun isCall => attaches_ite (attaches_call h owner position false) ?_
  refine asks_current.bind_attaches fun t => attaches_ite (silent_skip.bind fun _ => ?_) (attaches_pure rfl)
  have hquasi : (Tree.of (.templateLiteral t.text) t.position).comments = [] := Tree.comments_of [] rfl
  exact attaches_extended [.one (some owner), .one (some _)] rfl (by simp [Slot.comments, hquasi])

lemma collects_constructionWith {callee : Parser Tree} (hcallee : Collects callee) :
    Collects (constructionWith rules callee) := by
  intro before
  refine asks_here.bind_attaches fun position => (silent_expectWord _).bind fun _ => ?_
  refine (silent_eat _).bind fun isTarget => attaches_ite ?_ ?_
  · refine (asks_atName _).bind_attaches fun isName => ?_
    exact attaches_ite (attaches_fail_bind _) (silent_skip.bind fun _ => attaches_leaf rfl)
  refine (hcallee before).bind fun start => ?_
  refine (attaches_extension fun owner => asks_here.bind_attaches fun position =>
    attaches_plainMember h owner position).bind fun callee => ?_
  refine (asks_atPunct _).bind_attaches fun hasArguments => ?_
  extract_lets afterArguments
  have hafter (args : List (Option Tree)) : Attaches (before ++ callee.comments ++ args.flatMap Tree.commentsIn)
      (fun t => before ++ t.comments) (afterArguments args) :=
    attaches_node [.one (some callee), .many args] rfl (by simp [Slot.comments])
  refine attaches_ite ((attaches_arguments h).bind hafter) ?_
  simpa using hafter []

lemma collects_operandUpTo (n : Nat) : Collects (operandUpTo rules n) ∧ Collects (headUpTo rules n) := by
  induction n with
  | zero => exact ⟨fun _ => attaches_unexpected, fun _ => attaches_unexpected⟩
  | succ n ih =>
    constructor
    · intro before
      refine asks_here.bind_attaches fun position => (ih.2 before).bind fun head => ?_
      exact attaches_extension fun owner => attaches_suffix h owner position
    · intro before
      refine (asks_atWord _).bind_attaches fun isNew => ?_
      exact attaches_ite (collects_constructionWith h ih.2 before) (collects_primary h ih.1 before)

lemma collects_operand : Collects (operand rules) := fun before =>
  asks_tokensLeft.bind_attaches fun _ => (collects_operandUpTo h _).1 before

/-! ### Operations -/

lemma collects_postfixed : Collects (postfixed rules) := by
  intro before
  refine asks_here.bind_attaches fun position => (collects_operand h before).bind fun operand => ?_
  refine asks_current.bind_attaches fun t => attaches_ite (attaches_ite (attaches_fail_bind _) ?_) (attaches_pure rfl)
  exact silent_skip.bind fun _ => attaches_node [.one (some operand)] rfl (by simp [Slot.comments])

lemma collects_unary : Collects (unary rules) := by
  intro before
  refine asks_current.bind_attaches fun t => asks_read.bind_attaches fun context => ?_
  refine (asks_ahead 1).bind_attaches fun next => attaches_ite ?_ (attaches_ite ?_ (collects_postfixed h before))
  · refine silent_skip.bind fun _ => (h .unary before).bind fun operand => ?_
    exact attaches_node [.one (some operand)] rfl (by simp [Slot.comments])
  · refine silent_skip.bind fun _ => (h .unary before).bind fun operand => attaches_ite (attaches_fail_bind _) ?_
    exact attaches_node [.one (some operand)] rfl (by simp [Slot.comments])

lemma collects_binaryUpTo (n least : Nat) (allowIn : Bool) : Collects (binaryUpTo rules n least allowIn) := by
  induction n generalizing least with
  | zero => exact fun _ => attaches_unexpected
  | succ n ih =>
    intro before
    refine asks_here.bind_attaches fun position => (h .unary before).bind fun first => attaches_extension fun left => ?_
    refine asks_current.bind_attaches fun t => attaches_ite (attaches_pure rfl) ?_
    refine silent_skip.bind fun _ => (ih _ _).bind fun right => ?_
    exact attaches_extended [.one (some left), .one (some right)] rfl (by simp [Slot.comments])

lemma collects_conditional (allowIn : Bool) : Collects (conditional rules allowIn) := by
  intro before
  refine asks_here.bind_attaches fun position => ?_
  refine Attaches.bind (asks_tokensLeft.bind_attaches fun _ => collects_binaryUpTo h _ 1 allowIn before) fun test => ?_
  refine (silent_eat _).bind fun isConditional => attaches_ite (attaches_pure rfl) ?_
  refine (h _ _).bind fun consequent => (silent_expect _).bind fun _ => (h _ _).bind fun alternate => ?_
  exact attaches_node [.one (some test), .one (some consequent), .one (some alternate)] rfl (by simp [Slot.comments])

lemma collects_yieldRest (allowIn : Bool) (position : Position) : Collects (yieldRest rules allowIn position) := by
  intro before
  refine (silent_eat _).bind fun isDelegation => ?_
  extract_lets operator afterArgument
  refine asks_current.bind_attaches fun t => ?_
  have hargument (argument : Option Tree) : Attaches (before ++ Tree.commentsIn argument)
      (fun t => before ++ t.comments) (afterArgument argument) :=
    attaches_node [.one argument] rfl (by simp [Slot.comments])
  exact attaches_ite ((h _).some.bind hargument) (attaches_none hargument)

lemma collects_assignment (allowIn : Bool) : Collects (assignment rules allowIn) := by
  intro before
  refine asks_get.bind_attaches fun s => asks_here.bind_attaches fun position => attaches_ite ?_ ?_
  · refine (asks_ahead 1).bind_attaches fun next => ?_
    extract_lets isAsync afterAsync
    have harrow (u : Unit) : Attaches before (fun t => before ++ t.comments) (afterAsync u) :=
      collects_arrowFunction h isAsync before
    exact attaches_ite (silent_skip.bind harrow) (harrow ())
  refine asks_read.bind_attaches fun context => (asks_atName _).bind_attaches fun isYield => attaches_ite ?_ ?_
  · exact silent_skip.bind fun _ => collects_yieldRest h allowIn position before
  refine (collects_conditional h allowIn before).bind fun left => asks_current.bind_attaches fun t => ?_
  refine attaches_ite (attaches_pure rfl) (attaches_ite (attaches_fail_bind _) ?_)
  refine silent_skip.bind fun _ => (h _ _).bind fun right => ?_
  exact attaches_node [.one (some left), .one (some right)] rfl (by simp [Slot.comments])

/-! ### Statements -/

lemma collects_declarator (allowIn : Bool) : Collects (do
    let position ← here
    let target ← bindingTarget rules (object rules)
    let init ← if ← eat "=" then some <$> rules (.assignment allowIn) else pure none
    return .of (.variableDeclarator (some target) init) position) := by
  intro before
  refine asks_here.bind_attaches fun position => ?_
  refine (collects_bindingTarget h (collects_object h) before).bind fun target => (silent_eat _).bind fun hasInit => ?_
  extract_lets afterInit
  have hinit (init : Option Tree) : Attaches (before ++ target.comments ++ Tree.commentsIn init)
      (fun t => before ++ t.comments) (afterInit init) :=
    attaches_node [.one (some target), .one init] rfl (by simp [Slot.comments])
  exact attaches_ite ((h _).some.bind hinit) (attaches_none hinit)

lemma collects_variableDeclaration (allowIn : Bool) : Collects (variableDeclaration rules allowIn) := by
  intro before
  refine asks_here.bind_attaches fun position => silent_advance.bind fun keyword => ?_
  refine (collects_declarator h allowIn before).bind fun first => ?_
  refine (attaches_repeatUntil ((asks_atPunct _).bind fun _ => asks_pure _).silent
    fun before => silent_skip.bind fun _ => collects_declarator h allowIn before).bind fun others => ?_
  exact attaches_node [.many (some first :: others.map some)] rfl (by simp [Slot.comments, Tree.commentsIn_map_some])

lemma collects_condition : Collects (condition rules) := fun before =>
  (silent_expect _).bind fun _ => (collects_expression h true before).bind fun _ =>
  (silent_expect _).bind fun _ => attaches_pure rfl

lemma collects_ifStatement : Collects (ifStatement rules) := by
  intro before
  refine asks_here.bind_attaches fun position => (silent_expectWord _).bind fun _ => ?_
  refine (collects_condition h before).bind fun test => (h _ _).bind fun consequent => ?_
  refine (asks_atWord _).bind_attaches fun hasElse => ?_
  extract_lets afterElse
  have helse (alternate : Option Tree) :
      Attaches (before ++ test.comments ++ consequent.comments ++ Tree.commentsIn alternate)
        (fun t => before ++ t.comments) (afterElse alternate) :=
    attaches_node [.one (some test), .one (some consequent), .one alternate] rfl (by simp [Slot.comments])
  exact attaches_ite (silent_skip.bind fun _ => (h _).some.bind helse) (attaches_none helse)

lemma attaches_optionalExpression (closing : Text) :
    Attaches before (fun slot => before ++ Tree.commentsIn slot) (optionalExpression rules closing) := by
  refine (asks_atPunct _).bind_attaches fun isMissing => ?_
  extract_lets afterExpression
  have hafter (e : Option Tree) : Attaches (before ++ Tree.commentsIn e)
      (fun slot => before ++ Tree.commentsIn slot) (afterExpression e) :=
    (silent_expect _).bind fun _ => attaches_pure rfl
  exact attaches_ite (attaches_none hafter) ((collects_expression h true).some.bind hafter)

lemma collects_forStatement : Collects (forStatement rules) := by
  intro before
  refine asks_here.bind_attaches fun position => (silent_expectWord _).bind fun _ => ?_
  refine (asks_atName _).bind_attaches fun isAwait => ?_
  extract_lets afterInit afterAwait
  have hinit (init : Option Tree) : Attaches (before ++ Tree.commentsIn init) (fun t => before ++ t.comments)
      (afterInit init) := by
    refine (asks_atName _).bind_attaches fun isOf => (asks_atWord _).bind_attaches fun isIn => attaches_ite ?_ ?_
    · refine silent_skip.bind fun _ => ?_
      extract_lets afterRight
      have hright (right : Tree) : Attaches (before ++ Tree.commentsIn init ++ right.comments)
          (fun t => before ++ t.comments) (afterRight right) := by
        refine (silent_expect _).bind fun _ => (h _ _).bind fun body => ?_
        exact attaches_node [.one init, .one (some right), .one (some body)] rfl (by simp [Slot.comments])
      exact attaches_ite ((h _ _).bind hright) ((collects_expression h true _).bind hright)
    refine attaches_ite (attaches_fail_bind _) ((silent_expect _).bind fun _ => ?_)
    refine (attaches_optionalExpression h _).bind fun test => (attaches_optionalExpression h _).bind fun update => ?_
    refine (h _ _).bind fun body => ?_
    exact attaches_node [.one init, .one test, .one update, .one (some body)] rfl (by simp [Slot.comments])
  have hawait (u : Unit) : Attaches before (fun t => before ++ t.comments) (afterAwait u) := by
    refine (silent_expect _).bind fun _ => (asks_atPunct _).bind_attaches fun isMissing => ?_
    refine (asks_atWord _).bind_attaches fun isVar => asks_atLexicalDeclaration.bind_attaches fun isLexical => ?_
    refine attaches_ite (attaches_none hinit) (attaches_ite ?_ ?_)
    · exact (collects_variableDeclaration h false).some.bind hinit
    · exact (collects_expression h false).some.bind hinit
  exact attaches_ite (silent_skip.bind hawait) (hawait ())

lemma collects_whileStatement : Collects (whileStatement rules) := by
  intro before
  refine asks_here.bind_attaches fun position => (silent_expectWord _).bind fun _ => ?_
  refine (collects_condition h before).bind fun test => (h _ _).bind fun body => ?_
  exact attaches_node [.one (some test), .one (some body)] rfl (by simp [Slot.comments])

lemma collects_doWhileStatement : Collects (doWhileStatement rules) := by
  intro before
  refine asks_here.bind_attaches fun position => (silent_expectWord _).bind fun _ => (h _ before).bind fun body => ?_
  refine (silent_expectWord _).bind fun _ => (collects_condition h _).bind fun test => ?_
  refine Silent.bind (fun _ => (silent_eat _ _).map fun _ => rfl) fun _ => ?_
  exact attaches_node [.one (some body), .one (some test)] rfl (by simp [Slot.comments])

lemma collects_returnStatement : Collects (returnStatement rules) := by
  intro before
  refine asks_here.bind_attaches fun position => (silent_expectWord _).bind fun _ => ?_
  refine asks_current.bind_attaches fun t => ?_
  extract_lets isBare afterArgument
  have hargument (argument : Option Tree) : Attaches (before ++ Tree.commentsIn argument)
      (fun t => before ++ t.comments) (afterArgument argument) :=
    silent_semicolon.bind fun _ => attaches_node [.one argument] rfl (by simp [Slot.comments])
  exact attaches_ite (attaches_none hargument) ((collects_expression h true).some.bind hargument)

omit h in
lemma silent_jumpLabel : Silent jumpLabel := fun _ => silent_skip.bind fun _ => asks_current.bind_attaches fun _ =>
  attaches_ite (silent_advance.bind fun _ => silent_semicolon.bind fun _ => attaches_pure rfl)
    (silent_semicolon.bind fun _ => attaches_pure rfl)

lemma collects_throwStatement : Collects (throwStatement rules) := by
  intro before
  refine asks_here.bind_attaches fun position => (silent_expectWord _).bind fun _ => ?_
  refine asks_current.bind_attaches fun t => attaches_ite (attaches_fail_bind _) ?_
  refine (collects_expression h true before).bind fun argument => silent_semicolon.bind fun _ => ?_
  exact attaches_node [.one (some argument)] rfl (by simp [Slot.comments])

lemma collects_tryStatement : Collects (tryStatement rules) := by
  intro before
  refine asks_here.bind_attaches fun position => (silent_expectWord _).bind fun _ => ?_
  refine (collects_block h before).bind fun body => (asks_atWord _).bind_attaches fun isCaught => ?_
  extract_lets afterHandler afterParam
  have hhandler (param handler : Option Tree) :
      Attaches (before ++ body.comments ++ Tree.commentsIn param ++ Tree.commentsIn handler)
        (fun t => before ++ t.comments) (afterHandler (param, handler)) := by
    refine (asks_atWord _).bind_attaches fun isFinal => ?_
    extract_lets afterFinalizer
    have hfinalizer (finalizer : Option Tree) :
        Attaches (before ++ body.comments ++ Tree.commentsIn param ++ Tree.commentsIn handler ++
          Tree.commentsIn finalizer) (fun t => before ++ t.comments) (afterFinalizer finalizer) := by
      refine attaches_ite (attaches_fail_bind _) ?_
      exact attaches_node [.one (some body), .one param, .one handler, .one finalizer] rfl (by simp [Slot.comments])
    exact attaches_ite (silent_skip.bind fun _ => (collects_block h).some.bind hfinalizer) (attaches_none hfinalizer)
  have hparam (param : Option Tree) : Attaches (before ++ body.comments ++ Tree.commentsIn param)
      (fun t => before ++ t.comments) (afterParam param) :=
    (collects_block h _).bind fun handler => hhandler param (some handler)
  refine attaches_ite (silent_skip.bind fun _ => (silent_eat _).bind fun hasParam => attaches_ite ?_ ?_) ?_
  · refine (collects_bindingTarget h (collects_object h) _).bind fun target => ?_
    exact (silent_expect _).bind fun _ => hparam (some target)
  · exact attaches_none hparam
  · exact attaches_none fun param => attaches_none fun handler => hhandler param handler

lemma collects_clause (defaultSeen : Bool) : Collects (clause rules defaultSeen) := by
  intro before
  refine (attaches_drainComments _).bind fun leading => asks_here.bind_attaches fun position => ?_
  refine (asks_atWord _).bind_attaches fun isCase => ?_
  extract_lets afterTest afterDefault
  have htest (test : Option Tree) : Attaches (before ++ leading ++ Tree.commentsIn test)
      (fun t => before ++ t.comments) (afterTest test) := by
    refine (silent_expect _).bind fun _ => (attaches_statementList h _).bind fun consequent => attaches_pure ?_
    rw [Tree.comments_mk [.one test, .many (consequent.map some)] rfl]
    simp [Slot.comments, Tree.commentsIn_map_some]
  have hdefault (u : Unit) : Attaches (before ++ leading) (fun t => before ++ t.comments) (afterDefault u) :=
    silent_skip.bind fun _ => attaches_none htest
  refine (asks_atWord _).bind_attaches fun isDefault => attaches_ite ?_ (attaches_ite (attaches_ite ?_ ?_) ?_)
  · exact silent_skip.bind fun _ => (collects_expression h true).some.bind htest
  · exact attaches_fail_bind _
  · exact hdefault ()
  · exact attaches_unexpected.bind htest

lemma collects_switchStatement : Collects (switchStatement rules) := by
  intro before
  refine asks_here.bind_attaches fun position => (silent_expectWord _).bind fun _ => ?_
  refine (collects_condition h before).bind fun discriminant => (silent_expect _).bind fun _ => ?_
  have hstart : before ++ discriminant.comments = before ++ discriminant.comments ++ [].flatMap Tree.comments := by simp
  rw [hstart]
  refine (attaches_extend (before ++ discriminant.comments ++ List.flatMap Tree.comments ·)
    fun clauses => ?_).bind fun clauses => ?_
  · refine (asks_atPunct _).bind_attaches fun isLast => attaches_ite (attaches_pure rfl) ?_
    refine (collects_clause h _ _).bind fun t => attaches_pure ?_
    simp
  refine (attaches_drainComments _).bind fun trailing => (silent_expect _).bind fun _ => attaches_pure ?_
  rw [Tree.comments_mk [.one (some discriminant), .many (clauses.map some)] rfl]
  simp [Slot.comments, Tree.commentsIn_map_some]

lemma collects_labeledStatement : Collects (labeledStatement rules) := by
  intro before
  refine asks_here.bind_attaches fun position => silent_advance.bind fun label => silent_skip.bind fun _ => ?_
  exact (h _ before).bind fun body => attaches_node [.one (some body)] rfl (by simp [Slot.comments])

lemma collects_expressionStatement : Collects (expressionStatement rules) := by
  intro before
  refine asks_here.bind_attaches fun position => (collects_expression h true before).bind fun e => ?_
  exact silent_semicolon.bind fun _ => attaches_node [.one (some e)] rfl (by simp [Slot.comments])

omit h in
lemma collects_debuggerStatement : Collects debuggerStatement := fun _ =>
  asks_here.bind_attaches fun _ => silent_skip.bind fun _ => silent_semicolon.bind fun _ => attaches_leaf rfl

lemma collects_bareStatement : Collects (bareStatement rules) := by
  intro before
  refine asks_current.bind_attaches fun t => (asks_ahead 1).bind_attaches fun next => ?_
  extract_lets declaration isWord
  have hdeclaration : Attaches before (fun t => before ++ t.comments) declaration :=
    (collects_variableDeclaration h true before).bind fun _ => silent_semicolon.bind fun _ => attaches_pure rfl
  have hjump (payload : Text → Payload Tree) (hleaf : ∀ label, (payload label).slots = []) :
      Attaches before (fun tree : Tree => before ++ tree.comments)
        (do return .of (payload (← jumpLabel)) t.position) :=
    silent_jumpLabel.bind fun label => attaches_leaf (hleaf label)
  refine attaches_ite (collects_block h before) ?_
  refine attaches_ite (silent_skip.bind fun _ => attaches_leaf rfl) ?_
  refine attaches_ite hdeclaration ?_
  refine attaches_ite (collects_functionDeclaration h false before) ?_
  refine attaches_ite (collects_classLiteral h (collects_operand h) true before) ?_
  refine attaches_ite (collects_ifStatement h before) ?_
  refine attaches_ite (collects_forStatement h before) ?_
  refine attaches_ite (collects_whileStatement h before) ?_
  refine attaches_ite (collects_doWhileStatement h before) ?_
  refine attaches_ite (collects_returnStatement h before) ?_
  refine attaches_ite (hjump .breakStatement fun _ => rfl) ?_
  refine attaches_ite (hjump .continueStatement fun _ => rfl) ?_
  refine attaches_ite (collects_throwStatement h before) ?_
  refine attaches_ite (collects_tryStatement h before) ?_
  refine attaches_ite (collects_switchStatement h before) ?_
  refine attaches_ite (collects_debuggerStatement before) ?_
  refine attaches_ite (attaches_fail _) (attaches_ite (attaches_fail _) (attaches_ite (attaches_fail _) ?_))
  refine asks_atLexicalDeclaration.bind_attaches fun isLexical => attaches_ite hdeclaration ?_
  refine attaches_ite (silent_skip.bind fun _ => collects_functionDeclaration h true before) ?_
  exact attaches_ite (collects_labeledStatement h before) (collects_expressionStatement h before)

lemma collects_statement : Collects (statement rules) := by
  intro before
  refine (attaches_drainComments before).bind fun comments => (collects_bareStatement h _).bind fun t => ?_
  exact attaches_pure (by rw [Tree.comments_withLeading, List.append_assoc])

/-! ### Scripts -/

omit h in
lemma collects_rulesUpTo (d : Nat) (rule : Rule) : Collects (rulesUpTo d rule) := by
  induction d generalizing rule with
  | zero => exact fun _ => attaches_fail _
  | succ d ih =>
    cases rule with
    | statement => exact collects_statement ih
    | assignment allowIn => exact collects_assignment ih allowIn
    | unary => exact collects_unary ih

omit h in
/-- Only the last token is the end of the file, so nothing is left behind it. -/
lemma later_eq_nil {s : State} {front : List Token} {last : Token} (h : s.tokens <:+ front ++ [last])
    (hfront : ∀ t ∈ front, t.isEnd = false) (hend : s.current.isEnd = true) : s.later = [] := by
  obtain ⟨passed, hpassed⟩ := h
  rw [State.tokens] at hpassed
  obtain hnil | ⟨between, u, hlater⟩ := List.eq_nil_or_concat s.later
  · exact hnil
  rw [hlater, List.concat_eq_append, ← List.cons_append, ← List.append_assoc] at hpassed
  have hmem : s.current ∈ front := (List.append_inj_left' hpassed rfl) ▸ by simp
  exact absurd hend (by simp [hfront _ hmem])

omit h in
/-- What is read without a recovery attaches all comments. -/
lemma script_comments (d : Nat) {c : Context} {s : State} (hs : s.Ended) {front : List Token} {last : Token}
    (htokens : s.tokens = front ++ [last]) (hfront : ∀ t ∈ front, t.isEnd = false) :
    Meets (script (rulesUpTo d)) c s (fun t s' => s'.recovered = [] → t.comments = s.comments) fun _ _ => True := by
  refine meets_step run_here (meets_bind ?_)
  have hlist : Attaches [] (fun ts => [] ++ ts.flatMap Tree.comments) (statementList (rulesUpTo d) .endOfFile) :=
    attaches_statementList (collects_rulesUpTo d) .endOfFile
  refine ((hlist c s).and (statementList_meets (rulesRead_rulesUpTo d) hs)).mono (fun body s' hbody => ?_)
    fun _ _ _ => trivial
  obtain ⟨hattached, -, -, hat⟩ := hbody
  refine meets_step (p := drainComments) rfl fun hrecovered => ?_
  obtain ⟨-, hsuffix, hcomments⟩ := hattached hrecovered
  have hend : s'.current.isEnd = true := by simpa [ListEnd.isAt] using hat
  have hlater : s'.later = [] := later_eq_nil (htokens ▸ hsuffix) hfront hend
  rw [Tree.comments_mk [.many (body.map some)] rfl]
  simpa [Slot.comments, Tree.commentsIn_map_some, State.comments, hlater] using hcomments.symm

end Grammar

/-- A script that is read without errors has the comments of its tokens, each of them once and in their order. -/
theorem parse_keeps_comments {source : Text} {options : ParseOptions} {script : Script}
    (h : parse source options = .ok script) (hclean : script.diagnostics = []) :
    ∃ tokens, tokenize source = .ok tokens ∧ script.tree.comments = tokens.flatMap (·.comments) := by
  obtain ⟨tokens, c, final, htokens, hrun, hdiagnostics⟩ := exists_run_of_parse h
  obtain ⟨front, last, hlast, hfront, -⟩ := (tokenize_laid htokens).exists_last
  have hstart : (startOf tokens).tokens = tokens := by
    rw [hlast]
    cases front <;> rfl
  have hcomments : (startOf tokens).comments = tokens.flatMap (·.comments) := by
    rw [hlast]
    cases front <;> rfl
  have hscript := script_comments options.maxDepth.toNat (c := c) (tokenize_ended htokens).1
    (hstart.trans hlast) hfront
  rw [Meets, hrun] at hscript
  have hrecovered : final.recovered = [] := List.reverse_eq_nil_iff.mp (hdiagnostics.symm.trans hclean)
  exact ⟨tokens, htokens, (hscript hrecovered).trans hcomments⟩

/-- A loop with a comment before its body. -/
def commentedBody : Text := "while (x) /*c*/ \x7b y(); \x7d"

/-- A comment before a body in braces is in the tree, but the code of the tree is without it. -/
theorem print_drops_comment : ∃ script, parse commentedBody {} = .ok script ∧
    script.tree.comments = [Text.ofString "/*c*/"] ∧
    (Arena.ofTree script.tree).print (Arena.ofTree script.tree).root {} = .ok "while (x) \x7b\n  y();\n\x7d" :=
  exists_of_parse (by decide +kernel)

end PlainScript
