import PlainScript.Proofs.Nesting

/-! How deep a script nests that was read with a limit. The limit is charged for statements, assignments and operands of
operators, and between two charges a reader builds a few levels of the tree at most. Only where it goes around without
a charge there is no bound: from operand to operand in a run of operators, of names and of calls, in `new` and in
`extends`, and from the parameters of a method to a method in them. -/
namespace PlainScript

namespace Grammar

variable {rules : Rules} {n : Nat} (h : ∀ rule, Answers (Tree.Shallow n) (rules rule))
include h

/-! ### Lists of statements -/

lemma answers_listedStatement (ending : ListEnd) : Answers (Tree.Shallow n) (listedStatement rules ending) := by
  have hraw (start : State) (e : ParseError) : Answers (Tree.Shallow n) (recoverFrom start ending e) :=
    answers_then fun _ => answers_then fun _ => answers_then fun _ => answers_ite (answers_throw _) <|
      answers_then fun _ => answers_pure (Tree.shallow_mk .nil)
  refine answers_then fun start c s => meets_tryCatch ((h .statement c s).mono (fun _ _ => id) fun e s' _ => ?_)
  have hhandle : Answers (Tree.Shallow n) (do
      if (← MonadReader.read).recover && e.isRecoverable then recoverFrom start ending e else throw e) :=
    answers_then fun context => answers_ite (hraw start e) (answers_throw e)
  exact hhandle c s'

lemma answers_statementList (ending : ListEnd) : Answers (∀ t ∈ ·, t.Shallow n) (statementList rules ending) :=
  answers_repeatUntil (answers_listedStatement h ending)

lemma answers_block : Answers (Tree.Shallow (n + 1)) (block rules) := by
  refine answers_then fun position => answers_then fun _ => (answers_statementList h _).bind fun body hbody => ?_
  refine answers_then fun trailing => answers_then fun _ => answers_pure (Tree.shallow_mk ?_)
  exact .deeper (Slot.shallow_map_some hbody) (Nat.lt_succ_self n) .nil

/-! ### Members -/

omit h in
lemma answers_spreadOr {item : Parser Tree} (hitem : Answers (Tree.Shallow n) item) :
    Answers (Tree.Shallow (n + 1)) (spreadOr item) := by
  refine answers_then fun position => answers_then fun _ => answers_ite ?_ (hitem.mono fun t ht => ht.mono (Nat.le_succ n))
  exact hitem.bind fun t ht => answers_pure (Tree.shallow_of (.deeper ht.one (Nat.lt_succ_self n) .nil))

lemma answers_arrayLiteral : Answers (Tree.Shallow (n + 2)) (arrayLiteral rules) := by
  refine answers_then fun position => answers_then fun _ => ?_
  have hitem : Answers (fun slot => (Slot.one slot).Shallow (n + 1)) (do
      if ← eat "," then return none
      let element ← spreadOr (rules (.assignment true))
      if !(← atPunct "]") then expect ","
      return some element) := by
    refine answers_then fun _ => answers_ite (answers_pure Slot.shallow_none) ?_
    refine (answers_spreadOr (h _)).bind fun t ht => answers_then fun _ => ?_
    exact answers_ite (answers_then fun _ => answers_pure ht.one) (answers_pure ht.one)
  refine (answers_repeatUntil hitem).bind fun elements helements => answers_then fun _ => answers_pure ?_
  exact Tree.shallow_of (.deeper (Slot.shallow_many.mpr helements) (Nat.lt_succ_self _) .nil)

omit h in
lemma answers_objectLiteral {member : Parser Tree} (hmember : Answers (Tree.Shallow n) member) :
    Answers (Tree.Shallow (n + 1)) (objectLiteral member) := by
  refine answers_then fun position => answers_then fun _ => (answers_commaList hmember).bind fun members hmembers => ?_
  exact answers_then fun _ => answers_pure <|
    Tree.shallow_of (.deeper (Slot.shallow_map_some hmembers) (Nat.lt_succ_self n) .nil)

section Objects

variable {object : Parser Tree} (hobject : Answers (Tree.Shallow (n + 4)) object)
include hobject

lemma answers_bindingTarget : Answers (Tree.Shallow (n + 4)) (bindingTarget rules object) := by
  refine answers_then fun _ => answers_ite ((answers_arrayLiteral h).mono fun t ht => ht.mono (by omega)) ?_
  refine answers_then fun _ => answers_ite hobject (answers_then fun _ => answers_ite answers_identifierHere ?_)
  exact answers_fail _

lemma answers_parameter : Answers (Tree.Shallow (n + 5)) (parameter rules object) := by
  refine answers_then fun position => answers_then fun _ => answers_ite ?_ ?_
  · refine (answers_bindingTarget h hobject).bind fun t ht => answers_pure ?_
    exact Tree.shallow_of (.deeper ht.one (Nat.lt_succ_self _) .nil)
  refine (answers_bindingTarget h hobject).bind fun target htarget => answers_then fun _ => answers_ite ?_ ?_
  · refine (h _).bind fun value hvalue => answers_pure ?_
    exact Tree.shallow_of (.deeper htarget.one (Nat.lt_succ_self _) (.deeper hvalue.one (by omega) .nil))
  · exact answers_pure (htarget.mono (Nat.le_succ _))

lemma answers_parameters : Answers (∀ t ∈ ·, t.Shallow (n + 5)) (parameters rules object) :=
  answers_then fun _ => (answers_commaList (answers_parameter h hobject)).bind fun _ hparams =>
    answers_then fun _ => answers_pure hparams

/-- The slots of a function. -/
lemma answers_functionRest (isAsync isGenerator : Bool) :
    Answers (fun rest => (Slot.many rest.1).Shallow (n + 5) ∧ (Slot.one rest.2).Shallow (n + 1))
      (functionRest rules object isAsync isGenerator) :=
  answers_inFunction <| (answers_parameters h hobject).bind fun _ hparams => (answers_block h).bind fun _ hbody =>
    answers_pure ⟨Slot.shallow_map_some hparams, hbody.one⟩

end Objects

lemma answers_propertyKey : Answers (fun key => key.1.Shallow n) (propertyKey rules) := by
  refine answers_then fun position => answers_then fun _ => answers_ite ?_ (answers_then fun t => ?_)
  · exact (h _).bind fun key hkey => answers_then fun _ => answers_pure hkey
  split
  · exact answers_then fun _ => answers_pure (Tree.shallow_of .nil)
  · exact answers_then fun _ => answers_pure (Tree.shallow_of .nil)
  · exact answers_identifierHere.bind fun _ hname => answers_pure hname
  · exact answers_identifierHere.bind fun _ hname => answers_pure hname
  · exact answers_fail _

lemma answers_memberWith {object : Parser Tree} (hobject : Answers (Tree.Shallow (n + 4)) object) (inClass : Bool) :
    Answers (Tree.Shallow (n + 3)) (memberWith rules object inClass) := by
  refine answers_then fun position => ?_
  extract_lets afterStatic afterSpread
  have hstatic (isStatic : Bool) : Answers (Tree.Shallow (n + 3)) (afterStatic isStatic) := by
    refine answers_then fun isBlock => answers_ite (answers_fail_bind _) ?_
    refine answers_then fun isAsync => answers_then fun isGenerator => ?_
    extract_lets afterKind
    have hkind (kind : PropertyKind) : Answers (Tree.Shallow (n + 3)) (afterKind kind) := by
      refine answers_then fun first => (answers_propertyKey h).bind ?_
      rintro ⟨key, computed⟩ hkey
      have hproperty {value : Option Tree} {kind : PropertyKind} {computed shorthand isStatic : Bool}
          (hvalue : (Slot.one value).Shallow (n + 2)) :
          (Tree.of (.property (some key) value kind computed shorthand isStatic) position).Shallow (n + 3) :=
        Tree.shallow_of (.deeper hkey.one (by omega) (.deeper hvalue (Nat.lt_succ_self _) .nil))
      have hsimple {t : Tree} (ht : t.Shallow n) : (Slot.one (some t)).Shallow (n + 2) := (ht.mono (by omega)).one
      refine answers_then fun isMethod => answers_ite ?_ ?_
      · refine (answers_functionRest h hobject _ _).bind ?_
        rintro ⟨params, body⟩ ⟨hparams, hbody⟩
        refine answers_pure (hproperty (Tree.Shallow.one ?_))
        exact Tree.shallow_of (.parameter hparams (by omega) (.deeper hbody (by omega) .nil))
      extract_lets afterField name afterDefault afterMethod
      have hfield (value : Option Tree) (hvalue : (Slot.one value).Shallow (n + 2)) :
          Answers (Tree.Shallow (n + 3)) (afterField value) :=
        answers_then fun _ => answers_pure (hproperty hvalue)
      refine answers_ite (answers_fail_bind _) (answers_ite ?_ ?_)
      · refine answers_then fun _ => answers_ite ?_ (hfield none Slot.shallow_none)
        exact ((h _).mono fun t ht => ht.mono (Nat.le_add_right n 2)).some.bind hfield
      refine answers_then fun _ => answers_ite ?_ (answers_ite ?_ answers_unexpected)
      · exact (h _).bind fun value hvalue => answers_pure (hproperty (hsimple hvalue))
      have hname : name.Shallow n := Tree.shallow_of .nil
      refine answers_then fun _ => answers_ite ((h _).bind fun value hvalue => answers_pure ?_) ?_
      · refine hproperty (Tree.Shallow.one ?_)
        exact Tree.shallow_of (.deeper hname.one (by omega) (.deeper hvalue.one (by omega) .nil))
      · exact answers_pure (hproperty (hsimple hname))
    exact answers_ite (hkind .init) (answers_then hkind)
  have hspread (isSpread : Bool) : Answers (Tree.Shallow (n + 3)) (afterSpread isSpread) := by
    refine answers_ite ((h _).bind fun value hvalue => answers_pure ?_) (answers_ite (answers_then hstatic) (hstatic false))
    exact Tree.shallow_of (.deeper Slot.shallow_none (Nat.succ_pos _) (.deeper hvalue.one (by omega) .nil))
  exact answers_ite (hspread false) (answers_then hspread)

/-- Where members nest without a charge, it is in the parameters of methods. -/
lemma answers_member (rounds : Nat) (inClass : Bool) : Answers (Tree.Shallow (n + 3)) (member rules rounds inClass) := by
  induction rounds generalizing inClass with
  | zero => exact answers_unexpected
  | succ rounds ih => exact answers_memberWith h (answers_objectLiteral (ih false)) inClass

lemma answers_object : Answers (Tree.Shallow (n + 4)) (object rules) :=
  answers_then fun _ => answers_objectLiteral (answers_member h _ false)

/-! ### Functions and classes -/

lemma answers_functionDeclaration (isAsync : Bool) : Answers (Tree.Shallow (n + 2)) (functionDeclaration rules isAsync) := by
  refine answers_then fun position => answers_then fun _ => answers_then fun isGenerator => answers_then fun t => ?_
  refine answers_ite (answers_fail_bind _) (answers_then fun name => ?_)
  refine (answers_functionRest h (answers_object h) _ _).bind ?_
  rintro ⟨params, body⟩ ⟨hparams, hbody⟩
  exact answers_pure (Tree.shallow_of (.parameter hparams (by omega) (.deeper hbody (Nat.lt_succ_self _) .nil)))

lemma answers_functionExpression (isAsync : Bool) : Answers (Tree.Shallow (n + 2)) (functionExpression rules isAsync) := by
  refine answers_then fun position => answers_then fun _ => answers_then fun isGenerator => answers_then fun t => ?_
  extract_lets afterName
  have hname (name : Text) : Answers (Tree.Shallow (n + 2)) (afterName name) := by
    refine (answers_functionRest h (answers_object h) _ _).bind ?_
    rintro ⟨params, body⟩ ⟨hparams, hbody⟩
    exact answers_pure (Tree.shallow_of (.parameter hparams (by omega) (.deeper hbody (Nat.lt_succ_self _) .nil)))
  exact answers_ite (answers_then fun _ => hname _) (hname _)

lemma answers_arrowFunction (isAsync : Bool) : Answers (Tree.Shallow (n + 2)) (arrowFunction rules isAsync) := by
  refine answers_then fun position => answers_then fun t => ?_
  extract_lets afterParams
  have hparams (params : List Tree) (hparams : ∀ t ∈ params, t.Shallow (n + 5)) :
      Answers (Tree.Shallow (n + 2)) (afterParams params) := by
    have hbody : Answers (Tree.Shallow (n + 1)) (inFunction isAsync false do
        if ← atPunct openBrace then block rules else rules (.assignment true)) :=
      answers_inFunction <| answers_then fun _ =>
        answers_ite (answers_block h) ((h _).mono fun t ht => ht.mono (Nat.le_succ n))
    refine answers_then fun _ => hbody.bind fun body hbody => answers_pure ?_
    exact Tree.shallow_of
      (.parameter (Slot.shallow_map_some hparams) (by omega) (.deeper hbody.one (Nat.lt_succ_self _) .nil))
  refine answers_ite (answers_identifierHere.bind fun name hname => hparams [name] (by simpa using hname)) ?_
  exact (answers_inFunction (answers_parameters h (answers_object h))).bind hparams

lemma answers_classLiteral {base : Parser Tree} (hbase : Answers (Tree.Shallow (n + 4)) base) (isDeclaration : Bool) :
    Answers (Tree.Shallow (n + 4)) (classLiteral rules base isDeclaration) := by
  refine answers_then fun position => answers_then fun _ => answers_then fun t => ?_
  extract_lets afterName
  have hname (name : Text) : Answers (Tree.Shallow (n + 4)) (afterName name) := by
    refine answers_then fun isDerived => ?_
    extract_lets afterBase
    have hclass (superClass : Option Tree) (hsuper : (Slot.one superClass).Shallow (n + 4)) :
        Answers (Tree.Shallow (n + 4)) (afterBase superClass) := by
      have hitem : Answers (fun slot => (Slot.one slot).Shallow (n + 3)) (do
          if ← eat ";" then return none
          return some (← member rules (← tokensLeft) true)) :=
        answers_then fun _ => answers_ite (answers_pure Slot.shallow_none) <| answers_then fun _ =>
          (answers_member h _ true).bind fun _ ht => answers_pure ht.one
      refine answers_then fun _ => (answers_repeatUntil hitem).bind fun members hmembers => ?_
      have hmembers' : (Slot.many (members.filter Option.isSome)).Shallow (n + 3) :=
        Slot.shallow_many.mpr fun slot hslot => hmembers slot (List.mem_of_mem_filter hslot)
      refine answers_then fun _ => answers_ite (answers_pure ?_) (answers_pure ?_)
      · exact Tree.shallow_of (.beside hsuper (Nat.le_refl _) (.deeper hmembers' (Nat.lt_succ_self _) .nil))
      · exact Tree.shallow_of (.beside hsuper (Nat.le_refl _) (.deeper hmembers' (Nat.lt_succ_self _) .nil))
    exact answers_ite (answers_then fun _ => hbase.some.bind hclass) (hclass none Slot.shallow_none)
  exact answers_ite (answers_then fun _ => hname _) (answers_ite (answers_fail_bind _) (hname _))

/-! ### Operands -/

lemma answers_expression (allowIn : Bool) : Answers (Tree.Shallow (n + 1)) (expression rules allowIn) := by
  refine answers_then fun position => (h _).bind fun first hfirst => answers_then fun _ => answers_ite ?_ ?_
  · exact answers_pure (hfirst.mono (Nat.le_succ n))
  refine (answers_repeatUntil (answers_then fun _ => h _)).bind fun others hothers => answers_pure ?_
  have hall : ∀ t ∈ first :: others, t.Shallow n := List.forall_mem_cons.mpr ⟨hfirst, hothers⟩
  exact Tree.shallow_of (.deeper (Slot.shallow_map_some hall) (Nat.lt_succ_self n) .nil)

omit h in
lemma answers_memberName : Answers (Tree.Shallow n) memberName := by
  refine answers_then fun t => ?_
  split
  · exact answers_identifierHere
  · exact answers_identifierHere
  · exact answers_fail _

lemma answers_arguments : Answers (fun args => (Slot.many args).Shallow (n + 1)) (arguments rules) :=
  answers_then fun _ => (answers_commaList (answers_spreadOr (h _))).bind fun _ hargs => answers_then fun _ =>
    answers_pure (Slot.shallow_map_some hargs)

lemma answers_indexRest : Answers (Tree.Shallow (n + 1)) (indexRest rules) :=
  (answers_expression h true).bind fun _ hindex => answers_then fun _ => answers_pure hindex

lemma answers_primary {base : Parser Tree} (hbase : Answers (Tree.Shallow (n + 4)) base) :
    Answers (Tree.Shallow (n + 4)) (primary rules base) := by
  refine answers_then fun position => answers_then fun t => ?_
  extract_lets leaf
  have hleaf (payload : Payload Tree) (hslots : payload.nestedSlots = []) : Answers (Tree.Shallow (n + 4)) (leaf payload) :=
    answers_then fun _ => answers_pure (Tree.shallow_of (hslots ▸ .nil))
  have hfunction (isAsync : Bool) : Answers (Tree.Shallow (n + 4)) (functionExpression rules isAsync) :=
    (answers_functionExpression h isAsync).mono fun t ht => ht.mono (by omega)
  split
  · exact answers_then fun next => answers_ite (answers_then fun _ => hfunction true) answers_identifierHere
  · exact hleaf _ rfl
  · exact hleaf _ rfl
  · exact hleaf _ rfl
  · exact hleaf _ rfl
  · refine answers_ite (hleaf _ rfl) (answers_ite (hleaf _ rfl) ?_)
    refine answers_ite (hleaf _ rfl) (answers_ite (hleaf _ rfl) ?_)
    refine answers_ite (hfunction false) (answers_ite (answers_classLiteral h hbase false) ?_)
    exact answers_ite answers_identifierHere answers_unexpected
  · refine answers_then fun _ => answers_ite ?_ (answers_ite ?_ (answers_ite (answers_object h) answers_unexpected))
    · refine (answers_expression h true).bind fun inner hinner => answers_then fun _ => answers_pure ?_
      exact hinner.mono (by omega)
    · exact (answers_arrayLiteral h).mono fun t ht => ht.mono (by omega)
  · exact answers_unexpected

omit h in
/-- What follows an operand is beside it. -/
lemma shallow_suffix {owner : Tree} (howner : owner.Shallow (n + 4)) {payload : Payload Tree} {position : Position}
    {slot : Slot Tree} (hslots : payload.nestedSlots = [(.beside, .one (some owner)), (.deeper, slot)])
    (hslot : slot.Shallow (n + 1)) : ∀ t ∈ some (Tree.of payload position), t.Shallow (n + 4) := by
  rintro _ ⟨⟩
  exact Tree.shallow_of (hslots ▸ .beside howner.one (Nat.le_refl _) (.deeper hslot (by omega) .nil))

lemma answers_plainMember {owner : Tree} (howner : owner.Shallow (n + 4)) (position : Position) :
    Answers (∀ t ∈ ·, t.Shallow (n + 4)) (plainMember rules owner position) := by
  refine answers_then fun _ => answers_ite ?_ (answers_then fun _ => answers_ite ?_ (answers_pure nofun))
  · exact answers_memberName.bind fun name hname => answers_pure (shallow_suffix howner rfl hname.one)
  · exact (answers_indexRest h).bind fun index hindex => answers_pure (shallow_suffix howner rfl hindex.one)

lemma answers_call {owner : Tree} (howner : owner.Shallow (n + 4)) (position : Position) (isOptional : Bool) :
    Answers (fun extended => ∀ t ∈ extended, Tree.Shallow (n + 4) t) (do
      let args ← arguments rules
      return some (.of (.callExpression (some owner) args isOptional) position)) :=
  (answers_arguments h).bind fun _ hargs => answers_pure (shallow_suffix howner rfl hargs)

lemma answers_suffix {owner : Tree} (howner : owner.Shallow (n + 4)) (position : Position) :
    Answers (∀ t ∈ ·, t.Shallow (n + 4)) (suffix rules position owner) := by
  refine (answers_plainMember h howner position).bind fun extended hextended => ?_
  cases extended with
  | some t => exact answers_pure hextended
  | none =>
  refine answers_then fun _ => answers_ite ?_ ?_
  · refine answers_then fun _ => answers_ite (answers_call h howner position true) (answers_then fun _ => ?_)
    refine answers_ite ?_ ?_
    · exact (answers_indexRest h).bind fun index hindex => answers_pure (shallow_suffix howner rfl hindex.one)
    · exact answers_memberName.bind fun name hname => answers_pure (shallow_suffix howner rfl hname.one)
  refine answers_then fun _ => answers_ite (answers_call h howner position false) (answers_then fun t => ?_)
  refine answers_ite (answers_then fun _ => answers_pure (shallow_suffix howner rfl ?_)) (answers_pure nofun)
  exact Tree.Shallow.one (Tree.shallow_of .nil)

lemma answers_constructionWith {callee : Parser Tree} (hcallee : Answers (Tree.Shallow (n + 4)) callee) :
    Answers (Tree.Shallow (n + 4)) (constructionWith rules callee) := by
  refine answers_then fun position => answers_then fun _ => answers_then fun _ => answers_ite ?_ ?_
  · refine answers_then fun _ => answers_ite (answers_fail_bind _) (answers_then fun _ => answers_pure ?_)
    exact Tree.shallow_of .nil
  refine hcallee.bind fun start hstart => ?_
  refine (answers_extend hstart fun owner howner => answers_then fun position =>
    answers_plainMember h howner position).bind fun callee hcallee => answers_then fun _ => ?_
  extract_lets afterArguments
  have hafter (args : List (Option Tree)) (hargs : (Slot.many args).Shallow (n + 1)) :
      Answers (Tree.Shallow (n + 4)) (afterArguments args) := by
    refine answers_pure (Tree.shallow_of ?_)
    exact .beside hcallee.one (Nat.le_refl _) (.deeper hargs (by omega) .nil)
  exact answers_ite ((answers_arguments h).bind hafter) (hafter [] nofun)

/-- Operands nest in `new` and in `extends` without a charge. -/
lemma answers_operandUpTo (rounds : Nat) :
    Answers (Tree.Shallow (n + 4)) (operandUpTo rules rounds) ∧
      Answers (Tree.Shallow (n + 4)) (headUpTo rules rounds) := by
  induction rounds with
  | zero => exact ⟨answers_unexpected, answers_unexpected⟩
  | succ rounds ih =>
    constructor
    · refine answers_then fun position => ih.2.bind fun head hhead => ?_
      exact answers_extend hhead fun owner howner => answers_suffix h howner position
    · exact answers_then fun isNew => answers_ite (answers_constructionWith h ih.2) (answers_primary h ih.1)

lemma answers_operand : Answers (Tree.Shallow (n + 4)) (operand rules) :=
  answers_then fun _ => (answers_operandUpTo h _).1

/-! ### Operations -/

lemma answers_unary : Answers (Tree.Shallow (n + 5)) (unary rules) := by
  have hoperand {t : Tree} (ht : t.Shallow n) : (Slot.one (some t)).Shallow (n + 4) := (ht.mono (by omega)).one
  refine answers_then fun t => answers_then fun context => answers_then fun next => answers_ite ?_ (answers_ite ?_ ?_)
  · refine answers_then fun _ => (h .unary).bind fun operand ht => answers_pure ?_
    exact Tree.shallow_of (.deeper (hoperand ht) (Nat.lt_succ_self _) .nil)
  · refine answers_then fun _ => (h .unary).bind fun operand ht => answers_ite (answers_fail_bind _) (answers_pure ?_)
    exact Tree.shallow_of (.deeper (hoperand ht) (Nat.lt_succ_self _) .nil)
  refine answers_then fun position => (answers_operand h).bind fun operand ht => answers_then fun t => ?_
  refine answers_ite (answers_ite (answers_fail_bind _) ?_) (answers_pure (ht.mono (Nat.le_succ _)))
  exact answers_then fun _ => answers_pure (Tree.shallow_of (.deeper ht.one (Nat.lt_succ_self _) .nil))

omit h in
lemma binaryLevel_le (allowIn : Bool) (t : Token) : binaryLevel allowIn t ≤ 12 := by
  have hite {b : Prop} [Decidable b] {x y : Nat} (hx : x ≤ 12) (hy : y ≤ 12) : (if b then x else y) ≤ 12 := by
    split <;> assumption
  unfold binaryLevel
  dsimp only
  split
  · exact hite (by decide) (hite (by decide) (by decide))
  · iterate 12 refine hite (by decide) ?_
    decide
  · decide

/-- The right operand of an operator nests one level deeper for each level that its operators bind more tightly, but
with `**` it goes on without a charge. -/
lemma answers_binaryUpTo (rounds least k : Nat) (allowIn : Bool) (hk : 12 < least + k) :
    Answers (Tree.Shallow (n + k)) (binaryUpTo rules rounds least allowIn) := by
  induction rounds generalizing least k with
  | zero => exact answers_unexpected
  | succ rounds ih =>
    refine answers_then fun position => (h .unary).bind fun first hfirst => ?_
    refine answers_extend (hfirst.mono (Nat.le_add_right n k)) fun left hleft => answers_then fun t => ?_
    extract_lets level
    have hlevel : level ≤ 12 := binaryLevel_le allowIn t
    split
    · exact answers_pure nofun
    next hlow =>
    have hleast : least ≤ level := by
      simp only [Bool.or_eq_true, decide_eq_true_eq, not_or, not_lt] at hlow
      exact hlow.2
    have hextended {right : Tree} (hfits : Nests (n + k)
        (Payload.binaryExpression t.text (some left) (some right)).nestedSlots) :
        ∀ b ∈ some (Tree.of (.binaryExpression t.text (some left) (some right)) position), b.Shallow (n + k) := by
      rintro _ ⟨⟩
      exact Tree.shallow_of hfits
    refine answers_then fun _ => ?_
    by_cases hpower : t.text == "**"
    · rw [if_pos hpower]
      refine (ih level k (by omega)).bind fun right hright => answers_pure (hextended ?_)
      rw [Payload.nestedSlots, Payload.nestings, if_pos hpower]
      exact .beside hleft.one (Nat.le_refl _) (.beside hright.one (Nat.le_refl _) .nil)
    · rw [if_neg hpower]
      refine (ih (level + 1) (k - 1) (by omega)).bind fun right hright => answers_pure (hextended ?_)
      rw [Payload.nestedSlots, Payload.nestings, if_neg hpower]
      exact .beside hleft.one (Nat.le_refl _) (.deeper hright.one (by omega) .nil)

lemma answers_conditional (allowIn : Bool) : Answers (Tree.Shallow (n + 13)) (conditional rules allowIn) := by
  have htest : Answers (Tree.Shallow (n + 12)) (binary rules allowIn) :=
    answers_then fun rounds => answers_binaryUpTo h rounds 1 12 allowIn (by decide)
  refine answers_then fun position => htest.bind fun test htest => answers_then fun _ => answers_ite ?_ ?_
  · exact answers_pure (htest.mono (Nat.le_succ _))
  refine (h _).bind fun consequent hconsequent => answers_then fun _ => (h _).bind fun alternate halternate => ?_
  exact answers_pure <| Tree.shallow_of <| .deeper htest.one (by omega) <| .deeper hconsequent.one (by omega) <|
    .deeper halternate.one (by omega) .nil

lemma answers_yieldRest (allowIn : Bool) (position : Position) :
    Answers (Tree.Shallow (n + 1)) (yieldRest rules allowIn position) := by
  refine answers_then fun isDelegation => ?_
  extract_lets operator afterArgument
  have hargument (argument : Option Tree) (ht : (Slot.one argument).Shallow n) :
      Answers (Tree.Shallow (n + 1)) (afterArgument argument) :=
    answers_pure (Tree.shallow_of (.deeper ht (Nat.lt_succ_self n) .nil))
  exact answers_then fun t => answers_ite ((h _).some.bind hargument) (hargument none Slot.shallow_none)

lemma answers_assignment (allowIn : Bool) : Answers (Tree.Shallow (n + 14)) (assignment rules allowIn) := by
  refine answers_then fun s => answers_then fun position => answers_ite ?_ ?_
  · refine answers_then fun next => ?_
    extract_lets isAsync afterAsync
    have harrow (u : Unit) : Answers (Tree.Shallow (n + 14)) (afterAsync u) :=
      (answers_arrowFunction h isAsync).mono fun t ht => ht.mono (by omega)
    exact answers_ite (answers_then harrow) (harrow ())
  refine answers_then fun context => answers_then fun isYield => answers_ite (answers_then fun _ => ?_) ?_
  · exact (answers_yieldRest h allowIn position).mono fun t ht => ht.mono (by omega)
  refine (answers_conditional h allowIn).bind fun left hleft => answers_then fun t => answers_ite ?_ ?_
  · exact answers_pure (hleft.mono (Nat.le_succ _))
  refine answers_ite (answers_fail_bind _) (answers_then fun _ => (h _).bind fun right hright => answers_pure ?_)
  exact Tree.shallow_of (.deeper hleft.one (Nat.lt_succ_self _) (.deeper hright.one (by omega) .nil))

/-! ### Statements -/

lemma answers_declarator (allowIn : Bool) : Answers (Tree.Shallow (n + 5)) (do
    let position ← here
    let target ← bindingTarget rules (object rules)
    let init ← if ← eat "=" then some <$> rules (.assignment allowIn) else pure none
    return .of (.variableDeclarator (some target) init) position) := by
  refine answers_then fun position => (answers_bindingTarget h (answers_object h)).bind fun target htarget => ?_
  refine answers_then fun hasInit => ?_
  extract_lets afterInit
  have hinit (init : Option Tree) (ht : (Slot.one init).Shallow n) : Answers (Tree.Shallow (n + 5)) (afterInit init) :=
    answers_pure (Tree.shallow_of (.deeper htarget.one (Nat.lt_succ_self _) (.deeper ht (by omega) .nil)))
  exact answers_ite ((h _).some.bind hinit) (hinit none Slot.shallow_none)

lemma answers_variableDeclaration (allowIn : Bool) :
    Answers (Tree.Shallow (n + 6)) (variableDeclaration rules allowIn) := by
  refine answers_then fun position => answers_then fun keyword => (answers_declarator h allowIn).bind fun first hfirst => ?_
  refine (answers_repeatUntil (answers_then fun _ => answers_declarator h allowIn)).bind fun others hothers => ?_
  have hall : ∀ t ∈ first :: others, t.Shallow (n + 5) := List.forall_mem_cons.mpr ⟨hfirst, hothers⟩
  exact answers_pure (Tree.shallow_of (.deeper (Slot.shallow_map_some hall) (Nat.lt_succ_self _) .nil))

lemma answers_condition : Answers (Tree.Shallow (n + 1)) (condition rules) :=
  answers_then fun _ => (answers_expression h true).bind fun _ ht => answers_then fun _ => answers_pure ht

lemma answers_ifStatement : Answers (Tree.Shallow (n + 7)) (ifStatement rules) := by
  refine answers_then fun position => answers_then fun _ => (answers_condition h).bind fun test htest => ?_
  refine (h _).bind fun consequent hconsequent => answers_then fun hasElse => ?_
  extract_lets afterElse
  have helse (alternate : Option Tree) (ht : (Slot.one alternate).Shallow n) :
      Answers (Tree.Shallow (n + 7)) (afterElse alternate) :=
    answers_pure <| Tree.shallow_of <| .deeper htest.one (by omega) <| .deeper hconsequent.one (by omega) <|
      .deeper ht (by omega) .nil
  exact answers_ite (answers_then fun _ => (h _).some.bind helse) (helse none Slot.shallow_none)

lemma answers_optionalExpression (closing : Text) :
    Answers (fun slot => (Slot.one slot).Shallow (n + 1)) (optionalExpression rules closing) := by
  refine answers_then fun isMissing => ?_
  extract_lets afterExpression
  have hafter (e : Option Tree) (ht : (Slot.one e).Shallow (n + 1)) :
      Answers (fun slot => (Slot.one slot).Shallow (n + 1)) (afterExpression e) :=
    answers_then fun _ => answers_pure ht
  exact answers_ite (hafter none Slot.shallow_none) ((answers_expression h true).some.bind hafter)

lemma answers_forStatement : Answers (Tree.Shallow (n + 7)) (forStatement rules) := by
  refine answers_then fun position => answers_then fun _ => answers_then fun isAwait => ?_
  extract_lets afterInit afterAwait
  have hinit (init : Option Tree) (ht : (Slot.one init).Shallow (n + 6)) :
      Answers (Tree.Shallow (n + 7)) (afterInit init) := by
    refine answers_then fun isOf => answers_then fun isIn => answers_ite (answers_then fun _ => ?_) ?_
    · extract_lets afterRight
      have hright (right : Tree) (hright : right.Shallow (n + 1)) : Answers (Tree.Shallow (n + 7)) (afterRight right) := by
        refine answers_then fun _ => (h _).bind fun body hbody => answers_pure <| Tree.shallow_of ?_
        exact .deeper ht (Nat.lt_succ_self _) <| .deeper hright.one (by omega) <| .deeper hbody.one (by omega) .nil
      refine answers_ite ?_ ((answers_expression h true).bind hright)
      exact ((h _).mono fun t ht => ht.mono (Nat.le_succ n)).bind hright
    refine answers_ite (answers_fail_bind _) (answers_then fun _ => ?_)
    refine (answers_optionalExpression h _).bind fun test htest => ?_
    refine (answers_optionalExpression h _).bind fun update hupdate => (h _).bind fun body hbody => answers_pure ?_
    exact Tree.shallow_of <| .deeper ht (Nat.lt_succ_self _) <| .deeper htest (by omega) <|
      .deeper hupdate (by omega) <| .deeper hbody.one (by omega) .nil
  have hawait (u : Unit) : Answers (Tree.Shallow (n + 7)) (afterAwait u) := by
    refine answers_then fun _ => answers_then fun isMissing => answers_then fun isVar => answers_then fun isLexical => ?_
    refine answers_ite (hinit none Slot.shallow_none) (answers_ite ?_ ?_)
    · exact (answers_variableDeclaration h false).some.bind hinit
    · exact ((answers_expression h false).mono fun t ht => ht.mono (by omega)).some.bind hinit
  exact answers_ite (answers_then hawait) (hawait ())

lemma answers_whileStatement : Answers (Tree.Shallow (n + 7)) (whileStatement rules) := by
  refine answers_then fun position => answers_then fun _ => (answers_condition h).bind fun test htest => ?_
  refine (h _).bind fun body hbody => answers_pure ?_
  exact Tree.shallow_of (.deeper htest.one (by omega) (.deeper hbody.one (by omega) .nil))

lemma answers_doWhileStatement : Answers (Tree.Shallow (n + 7)) (doWhileStatement rules) := by
  refine answers_then fun position => answers_then fun _ => (h _).bind fun body hbody => answers_then fun _ => ?_
  refine (answers_condition h).bind fun test htest => answers_then fun _ => answers_pure ?_
  exact Tree.shallow_of (.deeper hbody.one (by omega) (.deeper htest.one (by omega) .nil))

lemma answers_returnStatement : Answers (Tree.Shallow (n + 7)) (returnStatement rules) := by
  refine answers_then fun position => answers_then fun _ => answers_then fun t => ?_
  extract_lets isBare afterArgument
  have hargument (argument : Option Tree) (ht : (Slot.one argument).Shallow (n + 1)) :
      Answers (Tree.Shallow (n + 7)) (afterArgument argument) :=
    answers_then fun _ => answers_pure (Tree.shallow_of (.deeper ht (by omega) .nil))
  exact answers_ite (hargument none Slot.shallow_none) ((answers_expression h true).some.bind hargument)

lemma answers_throwStatement : Answers (Tree.Shallow (n + 7)) (throwStatement rules) := by
  refine answers_then fun position => answers_then fun _ => answers_then fun t => answers_ite (answers_fail_bind _) ?_
  refine (answers_expression h true).bind fun argument ht => answers_then fun _ => answers_pure ?_
  exact Tree.shallow_of (.deeper ht.one (by omega) .nil)

lemma answers_tryStatement : Answers (Tree.Shallow (n + 7)) (tryStatement rules) := by
  refine answers_then fun position => answers_then fun _ => (answers_block h).bind fun body hbody => ?_
  refine answers_then fun isCaught => ?_
  extract_lets afterHandler afterParam
  have hhandler (param handler : Option Tree) (hparam : (Slot.one param).Shallow (n + 4))
      (hhandler : (Slot.one handler).Shallow (n + 1)) : Answers (Tree.Shallow (n + 7)) (afterHandler (param, handler)) := by
    refine answers_then fun isFinal => ?_
    extract_lets afterFinalizer
    have hfinalizer (finalizer : Option Tree) (ht : (Slot.one finalizer).Shallow (n + 1)) :
        Answers (Tree.Shallow (n + 7)) (afterFinalizer finalizer) := by
      refine answers_ite (answers_fail_bind _) (answers_pure (Tree.shallow_of ?_))
      exact .deeper hbody.one (by omega) <| .deeper hparam (by omega) <| .deeper hhandler (by omega) <|
        .deeper ht (by omega) .nil
    exact answers_ite (answers_then fun _ => (answers_block h).some.bind hfinalizer) (hfinalizer none Slot.shallow_none)
  have hparam (param : Option Tree) (hparam : (Slot.one param).Shallow (n + 4)) :
      Answers (Tree.Shallow (n + 7)) (afterParam param) :=
    (answers_block h).bind fun handler ht => hhandler param (some handler) hparam ht.one
  refine answers_ite (answers_then fun _ => answers_then fun hasParam => answers_ite ?_ ?_) ?_
  · refine (answers_bindingTarget h (answers_object h)).bind fun target htarget => answers_then fun _ => ?_
    exact hparam (some target) htarget.one
  · exact hparam none Slot.shallow_none
  · exact hhandler none none Slot.shallow_none Slot.shallow_none

lemma answers_clause (defaultSeen : Bool) : Answers (Tree.Shallow (n + 2)) (clause rules defaultSeen) := by
  refine answers_then fun leading => answers_then fun position => answers_then fun isCase => ?_
  extract_lets afterTest afterDefault
  have htest (test : Option Tree) (ht : (Slot.one test).Shallow (n + 1)) :
      Answers (Tree.Shallow (n + 2)) (afterTest test) := by
    refine answers_then fun _ => (answers_statementList h _).bind fun consequent hconsequent => answers_pure ?_
    exact Tree.shallow_mk (.deeper ht (Nat.lt_succ_self _) (.deeper (Slot.shallow_map_some hconsequent) (by omega) .nil))
  have hdefault (u : Unit) : Answers (Tree.Shallow (n + 2)) (afterDefault u) :=
    answers_then fun _ => htest none Slot.shallow_none
  refine answers_then fun isDefault => answers_ite (answers_then fun _ => ?_) (answers_ite ?_ ?_)
  · exact (answers_expression h true).some.bind htest
  · exact answers_ite (answers_fail_bind _) (hdefault ())
  · exact answers_unexpected.bind htest

lemma answers_switchStatement : Answers (Tree.Shallow (n + 7)) (switchStatement rules) := by
  refine answers_then fun position => answers_then fun _ => (answers_condition h).bind fun discriminant ht => ?_
  refine answers_then fun _ => Answers.bind (P := fun clauses => ∀ t ∈ clauses, t.Shallow (n + 2)) ?_ fun clauses hall => ?_
  · refine answers_extend nofun fun clauses hall => answers_then fun isLast => answers_ite (answers_pure nofun) ?_
    refine (answers_clause h _).bind fun t ht => answers_pure ?_
    rintro _ ⟨⟩
    simpa [or_imp, forall_and] using ⟨hall, ht⟩
  refine answers_then fun trailing => answers_then fun _ => answers_pure ?_
  exact Tree.shallow_mk (.deeper ht.one (by omega) (.deeper (Slot.shallow_map_some hall) (by omega) .nil))

lemma answers_labeledStatement : Answers (Tree.Shallow (n + 7)) (labeledStatement rules) := by
  refine answers_then fun position => answers_then fun label => answers_then fun _ => (h _).bind fun body hbody => ?_
  exact answers_pure (Tree.shallow_of (.deeper hbody.one (by omega) .nil))

lemma answers_expressionStatement : Answers (Tree.Shallow (n + 7)) (expressionStatement rules) := by
  refine answers_then fun position => (answers_expression h true).bind fun e he => answers_then fun _ => answers_pure ?_
  exact Tree.shallow_of (.deeper he.one (by omega) .nil)

lemma answers_bareStatement : Answers (Tree.Shallow (n + 7)) (bareStatement rules) := by
  refine answers_then fun t => answers_then fun next => ?_
  extract_lets declaration isWord
  have hdeclaration : Answers (Tree.Shallow (n + 7)) declaration :=
    (answers_variableDeclaration h true).bind fun _ ht => answers_then fun _ => answers_pure (ht.mono (Nat.le_succ _))
  have hfunction (isAsync : Bool) : Answers (Tree.Shallow (n + 7)) (functionDeclaration rules isAsync) :=
    (answers_functionDeclaration h isAsync).mono fun t ht => ht.mono (by omega)
  have hleaf {payload : Payload Tree} {position : Position} (hslots : payload.nestedSlots = []) :
      Answers (Tree.Shallow (n + 7)) (pure (Tree.of payload position)) :=
    answers_pure (Tree.shallow_of (hslots ▸ .nil))
  refine answers_ite ((answers_block h).mono fun t ht => ht.mono (by omega)) ?_
  refine answers_ite (answers_then fun _ => hleaf rfl) ?_
  refine answers_ite hdeclaration ?_
  refine answers_ite (hfunction false) ?_
  refine answers_ite ((answers_classLiteral h (answers_operand h) true).mono fun t ht => ht.mono (by omega)) ?_
  refine answers_ite (answers_ifStatement h) ?_
  refine answers_ite (answers_forStatement h) ?_
  refine answers_ite (answers_whileStatement h) ?_
  refine answers_ite (answers_doWhileStatement h) ?_
  refine answers_ite (answers_returnStatement h) ?_
  refine answers_ite (answers_then fun _ => hleaf rfl) ?_
  refine answers_ite (answers_then fun _ => hleaf rfl) ?_
  refine answers_ite (answers_throwStatement h) ?_
  refine answers_ite (answers_tryStatement h) ?_
  refine answers_ite (answers_switchStatement h) ?_
  have hdebugger : Answers (Tree.Shallow (n + 7)) debuggerStatement :=
    answers_then fun _ => answers_then fun _ => answers_then fun _ => hleaf rfl
  refine answers_ite hdebugger ?_
  refine answers_ite (answers_fail _) (answers_ite (answers_fail _) (answers_ite (answers_fail _) ?_))
  refine answers_then fun isLexical => answers_ite hdeclaration (answers_ite (answers_then fun _ => hfunction true) ?_)
  exact answers_ite (answers_labeledStatement h) (answers_expressionStatement h)

/-! ### Scripts -/

/-- Fourteen levels for each charge: an assignment, a condition and the levels of operators. -/
lemma answers_read (rule : Rule) : Answers (Tree.Shallow (n + 14)) (read rules rule) := by
  cases rule with
  | statement =>
    refine answers_then fun comments => (answers_bareStatement h).bind fun t ht => answers_pure ?_
    exact (ht.withLeading comments).mono (by omega)
  | assignment allowIn => exact answers_assignment h allowIn
  | unary => exact (answers_unary h).mono fun t ht => ht.mono (by omega)

omit h in
lemma answers_rulesUpTo (d : Nat) (rule : Rule) : Answers (Tree.Shallow (14 * d)) (rulesUpTo d rule) := by
  induction d generalizing rule with
  | zero => exact answers_fail _
  | succ d ih => exact answers_read ih rule

lemma answers_script : Answers (Tree.Shallow (n + 1)) (script rules) := by
  refine answers_then fun position => (answers_statementList h _).bind fun body hbody => answers_then fun trailing => ?_
  exact answers_pure (Tree.shallow_mk (.deeper (Slot.shallow_map_some hbody) (Nat.lt_succ_self n) .nil))

end Grammar

/-- A limit bounds how many levels a way down the tree goes deeper, apart from the operands that are beside their node
and from what the parameters of functions add. -/
theorem parse_shallow {source : Text} {options : ParseOptions} {script : Script}
    (hparse : parse source options = .ok script) : script.tree.Shallow (14 * options.maxDepth.toNat + 1) := by
  obtain ⟨tokens, c, final, -, hrun, -⟩ := exists_run_of_parse hparse
  have hscript := Grammar.answers_script (Grammar.answers_rulesUpTo options.maxDepth.toNat) c (Grammar.startOf tokens)
  rwa [Grammar.Meets, hrun] at hscript

/-- A row of `new` without arguments. -/
def newChain (n : Nat) : Text := (List.replicate n "new ").foldr (· ++ ·) "a"

/-- No limit bounds what is beside its node: all of a row of `new` is read at one level. -/
theorem parse_shallow_not_height : ∃ script, parse (newChain 159) { maxDepth := 4 } = .ok script ∧
    32 * (4 + 1) < script.tree.height - 1 := exists_of_parse (by decide +kernel)

end PlainScript
