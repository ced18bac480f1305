import PlainScript.Proofs.Ways

/-! The printer gives a text to what has a way to be printed, and to nothing else. -/
namespace PlainScript

open Print

section IsOk

variable {ε α β : Type} {x : Except ε α} {f : α → Except ε β}

@[simp] lemma isOk_ok (v : α) : (Except.ok v : Except ε α).isOk = true := rfl
@[simp] lemma isOk_pure (v : α) : (pure v : Except ε α).isOk = true := rfl
@[simp] lemma isOk_error (e : ε) : (Except.error e : Except ε α).isOk = false := rfl
@[simp] lemma isOk_throw (e : ε) : (throw e : Except ε α).isOk = false := rfl

lemma isOk_iff : x.isOk = true ↔ ∃ v, x = .ok v := by cases x <;> simp

lemma isOk_bind : (x >>= f).isOk = true ↔ ∃ v, x = .ok v ∧ (f v).isOk = true := by
  cases x with
  | ok v => simp [bind, Except.bind]
  | error e => simp [bind, Except.bind]

/-- An action succeeds after another if it does whatever the other gives. -/
lemma isOk_bind_of {Q : Prop} (hf : ∀ v, (f v).isOk = true ↔ Q) : (x >>= f).isOk = true ↔ x.isOk = true ∧ Q := by
  rw [isOk_bind, isOk_iff, ← exists_and_right]
  simp only [hf]

@[simp] lemma isOk_map {g : α → β} : (g <$> x).isOk = x.isOk := by cases x <;> rfl

lemma isOk_bind_pure {g : α → β} : (x >>= fun v => pure (g v)).isOk = true ↔ x.isOk = true := by simp

lemma isOk_mapM {xs : List α} : (xs.mapM f).isOk = true ↔ ∀ a ∈ xs, (f a).isOk = true := by
  induction xs with
  | nil => simp
  | cons a rest ih =>
    rw [List.mapM_cons, isOk_bind_of (Q := (rest.mapM f).isOk = true) fun _ => by simp, ih, List.forall_mem_cons]

end IsOk

variable {α : Type} {source : NodeSource α} {inner : Part → α → Except PrintError Text} {n : Nat} {indent : Nat}
  {slot : Option α}

/-- What is needed in a slot is printed in a way if that is so for what is there. -/
lemma isOk_need_and {β : Type} {what : Text} {f : α × Node α → Except PrintError β} {w : Way} {Q : Prop}
    (hf : ∀ x node, slot = some x → source.node? x = some node →
      ((f (x, node)).isOk = true ↔ Printable source n w x ∧ Q)) :
    (source.need what slot >>= f).isOk = true ↔ Fills (Printable source n) w slot ∧ Q := by
  cases slot with
  | none => simp [NodeSource.need, bind, Except.bind]
  | some x =>
    rw [fills_some]
    cases hnode : source.node? x with
    | none =>
      have hnot : ¬ Printable source n w x := fun h => by
        obtain ⟨node, hnode'⟩ := h.exists_node
        cases hnode.symm.trans hnode'
      simp [NodeSource.need, hnode, bind, Except.bind, hnot]
    | some node => simpa [NodeSource.need, hnode, bind, Except.bind] using hf x node rfl hnode

lemma isOk_need {β : Type} {what : Text} {f : α × Node α → Except PrintError β} {w : Way}
    (hf : ∀ x node, slot = some x → source.node? x = some node → ((f (x, node)).isOk = true ↔ Printable source n w x)) :
    (source.need what slot >>= f).isOk = true ↔ Fills (Printable source n) w slot := by
  rw [isOk_need_and (Q := True) fun x node hslot hnode => by rw [hf x node hslot hnode, and_true], and_true]

lemma isOk_bind_true {β γ : Type} {x : Except PrintError β} {f : β → Except PrintError γ}
    (hf : ∀ v, (f v).isOk = true) : (x >>= f).isOk = true ↔ x.isOk = true := by
  rw [isOk_bind_of (Q := True) fun v => by simp [hf v], and_true]

/-- A way down the source is not longer than its size. -/
def NodeSource.IsBounded (source : NodeSource α) : Prop :=
  ∀ way : List α, way.IsChain (fun x y => ∃ node, source.node? y = some node ∧ x ∈ node.payload.children) →
    (∀ x ∈ way, ∃ node, source.node? x = some node) → way.length ≤ source.size

section Chains

variable {opLevel : Nat} {left : Option α} {links : List (Text × Option α)}

/-- A run of operators has a text if the operand before it and those behind the operators have. -/
def ChainFits (source : NodeSource α) (n opLevel steps : Nat) (left : Option α)
    (links : List (Text × Option α)) : Prop :=
  ∃ head rest, leftChain source opLevel steps left links = .ok (head, rest) ∧ Printable source n .expression head ∧
    ∀ link ∈ rest, Fills (Printable source n) .expression link.2

lemma leftChain_eq {x : α} {node : Node α} {steps : Nat} (hnode : source.node? x = some node) :
    leftChain source opLevel (steps + 1) (some x) links =
      match node.payload with
      | .binaryExpression op left right =>
        if op != "**" && operatorLevel op == opLevel then leftChain source opLevel steps left ((op, right) :: links)
        else .ok (x, links)
      | _ => .ok (x, links) := by
  simp only [leftChain, NodeSource.need, hnode]
  rfl

lemma leftChain_of_not_link {x : α} {node : Node α} {steps : Nat} (hnode : source.node? x = some node)
    (hnot : ∀ op left right, node.payload = .binaryExpression op left right →
      (op != "**" && operatorLevel op == opLevel) = false) :
    leftChain source opLevel (steps + 1) (some x) links = .ok (x, links) := by
  rw [leftChain_eq hnode]
  split
  next op left right hp => rw [hnot op left right hp]; rfl
  next => rfl

lemma isLink_cases (node : Node α) (opLevel : Nat) :
    (∃ op left right, node.payload = .binaryExpression op left right ∧
      (op != "**" && operatorLevel op == opLevel) = true) ∨
    ∀ op left right, node.payload = .binaryExpression op left right →
      (op != "**" && operatorLevel op == opLevel) = false := by
  by_cases h : ∃ op left right, node.payload = .binaryExpression op left right ∧
      (op != "**" && operatorLevel op == opLevel) = true
  · exact .inl h
  · exact .inr fun op left right hp => Bool.eq_false_iff.mpr fun hop => h ⟨op, left, right, hp, hop⟩

/-- What is found on the way to the left is printed. -/
lemma ChainFits.fills {steps : Nat} (hchain : ChainFits source n opLevel steps left links) :
    Fills (Printable source n) (.chain opLevel) left ∧ ∀ link ∈ links, Fills (Printable source n) .expression link.2 := by
  obtain ⟨head, rest, hrun, hhead, hrest⟩ := hchain
  induction steps generalizing left links with
  | zero =>
    rw [leftChain] at hrun
    cases left with
    | none => cases hrun
    | some x =>
      cases hnode : source.node? x with
      | none => simp [NodeSource.need, hnode, bind, Except.bind] at hrun
      | some node =>
        obtain ⟨rfl, rfl⟩ : x = head ∧ links = rest := by
          simpa [NodeSource.need, hnode, bind, Except.bind, pure, Except.pure] using hrun
        exact ⟨fills_some.mpr (hhead.chain opLevel), hrest⟩
  | succ steps ih =>
    cases left with
    | none => cases hrun
    | some x =>
      cases hnode : source.node? x with
      | none => simp [leftChain, NodeSource.need, hnode, bind, Except.bind] at hrun
      | some node =>
        rw [fills_some]
        obtain ⟨op, left', right, hp, hlink⟩ | hnot := isLink_cases node opLevel
        · rw [leftChain_eq hnode, hp] at hrun
          obtain ⟨hleft, hlinks⟩ := ih ((if_pos hlink).symm.trans hrun)
          rw [Printable.iff_chain_of_link hnode hp hlink]
          exact ⟨⟨hleft, hlinks _ List.mem_cons_self⟩, fun link hm => hlinks link (List.mem_cons_of_mem _ hm)⟩
        · rw [leftChain_of_not_link hnode hnot] at hrun
          obtain ⟨rfl, rfl⟩ := Prod.mk.inj (Except.ok.inj hrun)
          exact ⟨hhead.chain opLevel, hrest⟩

/-- What is printed is found on the way to the left, where no way is longer than the source. -/
lemma chainFits_of_fills (hbounded : source.IsBounded) (above : List α) {steps : Nat} {x : α}
    (hway : (x :: above).IsChain fun x y => ∃ node, source.node? y = some node ∧ x ∈ node.payload.children)
    (hnodes : ∀ y ∈ above, ∃ node, source.node? y = some node) (hsteps : source.size ≤ steps + above.length)
    (hleft : Printable source n (.chain opLevel) x) (hlinks : ∀ link ∈ links, Fills (Printable source n) .expression link.2) :
    ChainFits source n opLevel steps (some x) links := by
  induction steps generalizing x links above with
  | zero =>
    have hlength := hbounded _ hway (List.forall_mem_cons.mpr ⟨hleft.exists_node, hnodes⟩)
    rw [List.length_cons] at hlength
    omega
  | succ steps ih =>
    obtain ⟨node, hnode⟩ := hleft.exists_node
    obtain ⟨op, left, right, hp, hlink⟩ | hnot := isLink_cases node opLevel
    · rw [Printable.iff_chain_of_link hnode hp hlink] at hleft
      obtain ⟨⟨y, rfl, hy⟩, hright⟩ := hleft
      have hchild : y ∈ node.payload.children := by
        rw [hp]
        exact List.mem_flatMap.mpr ⟨_, .head _, .head _⟩
      have hlinks' : ∀ link ∈ (op, right) :: links, Fills (Printable source n) .expression link.2 :=
        List.forall_mem_cons.mpr ⟨hright, hlinks⟩
      obtain ⟨head, rest, hrun, hprints⟩ := ih (x :: above)
        (List.isChain_cons_cons.mpr ⟨⟨node, hnode, hchild⟩, hway⟩) (List.forall_mem_cons.mpr ⟨⟨node, hnode⟩, hnodes⟩)
        (by rw [List.length_cons]; omega) hy hlinks'
      refine ⟨head, rest, ?_, hprints⟩
      rw [leftChain_eq hnode, hp]
      exact (if_pos hlink).trans hrun
    · rw [Printable.iff_chain_of_not_link hnode hnot] at hleft
      exact ⟨x, links, leftChain_of_not_link hnode hnot, hleft, hlinks⟩

end Chains

/-- What is printed inside a node is what there is room for. -/
structure Fits (source : NodeSource α) (n : Nat) (inner : Part → α → Except PrintError Text) : Prop where
  statement : ∀ indent x, (inner (.statement indent) x).isOk = true ↔ Printable source n .statement x
  expression : ∀ indent least x, (inner (.expression indent least) x).isOk = true ↔ Printable source n .expression x

namespace Fits

variable (h : Fits source n inner)
include h

lemma isOk_expression {least : Nat} {what : Text} :
    (Print.expression source inner indent least what slot).isOk = true ↔ Fills (Printable source n) .expression slot :=
  isOk_need fun _ _ _ _ => h.expression ..

lemma isOk_statementLine :
    (statementLine source inner indent slot).isOk = true ↔ Fills (Printable source n) .statement slot :=
  isOk_need fun _ _ _ _ => by rw [isOk_bind_pure, h.statement]

lemma isOk_statementLines {body : List (Option α)} {trailing : List Text} :
    (statementLines source inner indent body trailing).isOk = true ↔
      ∀ slot ∈ body, Fills (Printable source n) .statement slot := by
  rw [statementLines, isOk_bind_pure, isOk_mapM]
  simp only [h.isOk_statementLine]

lemma isOk_block : (Print.block source inner indent slot).isOk = true ↔ Fills (Printable source n) .block slot := by
  refine isOk_need fun x node hslot hnode => ?_
  dsimp only
  split
  next body hp =>
    rw [Printable.iff_parts hnode rfl (body.map (Way.statement, ·) ++ []) (by rw [hp]; rfl)]
    split
    next hempty =>
      obtain rfl : body = [] := List.isEmpty_iff.mp (Bool.and_eq_true_iff.mp hempty).1
      simp
    next => rw [isOk_bind_pure, h.isOk_statementLines]; simp
  next hnot =>
    have hps : Way.block.parts node.payload = none := by
      cases hp : node.payload <;> first | rfl | exact absurd hp (hnot _)
    simp [Printable.not_of_none hnode rfl hps]

lemma isOk_nested : (Print.nested source inner indent slot).isOk = true ↔ Fills (Printable source n) .nested slot := by
  refine isOk_need fun x node hslot hnode => ?_
  dsimp only
  split
  next body hp =>
    rw [isOk_bind_pure, h.isOk_block, hslot, fills_some,
      Printable.iff_resolve hnode .block (w := .nested) (by simp [Way.resolve, hp, Payload.kind])]
  next hnot =>
    have hkind : node.payload.kind ≠ .blockStatement := by
      cases hp : node.payload <;> first | exact absurd hp (hnot _) | simp [Payload.kind]
    rw [isOk_bind_true fun _ => by split <;> rfl, h.statement, Printable.nested_iff_statement hnode hkind]

lemma isOk_declarator :
    (Print.declarator source inner indent slot).isOk = true ↔ Fills (Printable source n) .declarator slot := by
  refine isOk_need fun x node hslot hnode => ?_
  dsimp only
  split
  next id init hp =>
    rw [Printable.iff_parts hnode rfl ((.expression, id) :: init.toList.map fun c => (Way.expression, some c))
      (by rw [hp]; cases init <;> rfl)]
    cases init with
    | none => simp [h.isOk_expression]
    | some value =>
      rw [isOk_bind_of (Q := Printable source n .expression value) fun _ => by rw [isOk_bind_pure, h.expression]]
      simp [h.isOk_expression]
  next hnot =>
    have hps : Way.declarator.parts node.payload = none := by
      cases hp : node.payload <;> first | rfl | exact absurd hp (hnot _ _)
    simp [Printable.not_of_none hnode rfl hps]

lemma isOk_variableDeclaration {keyword : Text} {declarations : List (Option α)} :
    (Print.variableDeclaration source inner indent keyword declarations).isOk = true ↔
      declarations.isEmpty = false ∧ ∀ slot ∈ declarations, Fills (Printable source n) .declarator slot := by
  unfold Print.variableDeclaration
  cases hempty : declarations.isEmpty with
  | true => simp [isOk_bind]
  | false =>
    simp only [Bool.false_eq_true, if_false]
    rw [isOk_bind_pure, isOk_mapM]
    simp [h.isOk_declarator]

lemma isOk_forHead {x : α} : (forHead source inner indent x).isOk = true ↔ Printable source n .head x := by
  cases hnode : source.node? x with
  | none =>
    have hnot (w : Way) : ¬ Printable source n w x := fun h => by
      obtain ⟨node, hnode'⟩ := h.exists_node
      cases hnode.symm.trans hnode'
    simp [forHead, NodeSource.payload?, hnode, h.expression, hnot]
  | some node =>
    unfold forHead
    simp only [NodeSource.payload?, hnode, Option.map_some]
    split
    next keyword declarations hp =>
      replace hp : node.payload = .variableDeclaration keyword declarations := Option.some.inj hp
      rw [h.isOk_variableDeclaration, Printable.iff_resolve hnode .declaration (w := .head)
        (by simp [Way.resolve, hp, Payload.kind])]
      cases hempty : declarations.isEmpty with
      | true =>
        have hps : Way.declaration.parts node.payload = none := by
          simp [Way.parts, hp, Way.needs, Way.declarationNeeds, hempty]
        simp [Printable.not_of_none hnode rfl hps]
      | false =>
        rw [Printable.iff_parts hnode rfl [declarations.map fun c => (Way.declarator, c)].flatten
          (by rw [hp, Way.parts, Way.needs, Way.declarationNeeds, hempty]; rfl)]
        simp
    next hnot =>
      have hkind : node.payload.kind ≠ .variableDeclaration := by
        cases hp : node.payload <;> first | exact absurd (congrArg some hp) (hnot _ _) | simp [Payload.kind]
      rw [h.expression, Printable.iff_resolve hnode .expression (w := .head) (by simp [Way.resolve, hkind])]

lemma isOk_parameters {params : List (Option α)} :
    (parameters source inner indent params).isOk = true ↔ ∀ slot ∈ params, Fills (Printable source n) .expression slot := by
  rw [parameters, isOk_bind_pure, isOk_mapM]
  simp only [h.isOk_expression]

lemma isOk_functionRest {params : List (Option α)} {body : Option α} :
    (functionRest source inner indent params body).isOk = true ↔
      (∀ slot ∈ params, Fills (Printable source n) .expression slot) ∧ Fills (Printable source n) .block body := by
  rw [functionRest, isOk_bind_of fun _ => by rw [isOk_bind_pure, h.isOk_block], h.isOk_parameters]

lemma isOk_propertyKey {computed : Bool} :
    (propertyKey source inner indent slot computed).isOk = true ↔ Fills (Printable source n) .expression slot := by
  cases computed <;> simp [propertyKey, h.isOk_expression]

lemma isOk_method {key value : Option α} {kind : PropertyKind} {computed : Bool} :
    (Print.method source inner indent key value kind computed).isOk = true ↔
      Fills (Printable source n) .method value ∧ Fills (Printable source n) .expression key := by
  refine isOk_need_and fun x node hslot hnode => ?_
  dsimp only
  split
  next name params body isAsync isGenerator hp =>
    rw [Printable.iff_parts hnode rfl [params.map fun c => (Way.expression, c), [(.block, body)]].flatten
      (by rw [hp]; rfl), isOk_bind_of fun _ => by rw [isOk_bind_pure, h.isOk_propertyKey], h.isOk_functionRest]
    simp
  next hnot =>
    have hps : Way.method.parts node.payload = none := by
      cases hp : node.payload <;> first | rfl | exact absurd hp (hnot _ _ _ _ _)
    simp [Printable.not_of_none hnode rfl hps]

/-- What is printed of a property. -/
lemma isOk_property {key value : Option α} {kind : PropertyKind} {computed shorthand isStatic : Bool} :
    (Print.property source inner indent key value kind computed shorthand isStatic).isOk = true ↔
      Fulfills (Printable source n) (List.zipWith (fun need slot => need.parts slot.2) (Way.propertyNeeds kind shorthand)
        (Payload.property key value kind computed shorthand isStatic).slots).flatten := by
  have hslots : (Payload.property key value kind computed shorthand isStatic).slots =
    [(.optionalExpression, .one key), (.optionalExpression, .one value)] := rfl
  rw [hslots]
  cases kind with
  | spread => simp [Print.property, Way.propertyNeeds, Need.parts, h.isOk_expression]
  | init =>
    cases shorthand with
    | true => simp [Print.property, Way.propertyNeeds, Need.parts, h.isOk_expression]
    | false =>
      simp only [Print.property, Bool.false_eq_true, if_false]
      rw [isOk_bind_of fun _ => by rw [isOk_bind_pure, h.isOk_propertyKey], h.isOk_expression]
      simp [Way.propertyNeeds, Need.parts, and_comm]
  | field =>
    simp only [Print.property]
    cases value with
    | none => simp [Way.propertyNeeds, Need.parts, h.isOk_propertyKey]
    | some x =>
      rw [isOk_bind_of fun _ => by rw [isOk_bind_pure, h.expression], h.isOk_propertyKey]
      simp [Way.propertyNeeds, Need.parts]
  | get | set | method =>
    simp only [Print.property]
    rw [isOk_bind_pure, h.isOk_method]
    simp [Way.propertyNeeds, Need.parts, and_comm]

lemma isOk_classMember :
    (classMember source inner indent slot).isOk = true ↔ Fills (Printable source n) .member slot := by
  refine isOk_need fun x node hslot hnode => ?_
  dsimp only
  split
  next key value kind computed shorthand isStatic hp =>
    rw [isOk_bind_pure, h.isOk_property, Printable.iff_parts hnode rfl _ (by rw [hp]; rfl)]
  next hnot =>
    have hps : Way.member.parts node.payload = none := by
      cases hp : node.payload <;> first | rfl | exact absurd hp (hnot _ _ _ _ _ _)
    simp [Printable.not_of_none hnode rfl hps]

lemma isOk_objectProperty :
    (objectProperty source inner indent slot).isOk = true ↔ Fills (Printable source n) .member slot := by
  refine isOk_need fun x node hslot hnode => ?_
  dsimp only
  split
  next key value kind computed shorthand isStatic hp =>
    rw [h.isOk_property, Printable.iff_parts hnode rfl _ (by rw [hp]; rfl)]
  next hnot =>
    have hps : Way.member.parts node.payload = none := by
      cases hp : node.payload <;> first | rfl | exact absurd hp (hnot _ _ _ _ _ _)
    simp [Printable.not_of_none hnode rfl hps]

lemma isOk_classText {name : Text} {superClass : Option α} {members : List (Option α)} :
    (classText source inner indent name superClass members).isOk = true ↔
      (∀ x ∈ superClass, Printable source n .expression x) ∧ ∀ slot ∈ members, Fills (Printable source n) .member slot := by
  have hmembers {head : Text} : (if members.isEmpty = true then pure (head ++ emptyBraces)
      else (return head ++ braced indent (← members.mapM (classMember source inner (indent + 1))) :
        Except PrintError Text)).isOk = true ↔ ∀ slot ∈ members, Fills (Printable source n) .member slot := by
    split
    next hempty => simp [List.isEmpty_iff.mp hempty]
    next =>
      rw [isOk_bind_pure, isOk_mapM]
      simp only [h.isOk_classMember]
  unfold classText
  cases superClass with
  | none =>
    dsimp only
    rw [pure_bind, hmembers]
    simp
  | some x =>
    dsimp only
    rw [isOk_bind_of fun _ => by rw [pure_bind]; exact hmembers, h.expression]
    simp

lemma isOk_switchClause :
    (switchClause source inner indent slot).isOk = true ↔ Fills (Printable source n) .clause slot := by
  refine isOk_need fun x node hslot hnode => ?_
  dsimp only
  split
  next test consequent hp =>
    rw [Printable.iff_parts hnode rfl [test.toList.map fun c => (Way.expression, some c),
      consequent.map fun c => (Way.statement, c)].flatten (by rw [hp]; rfl)]
    cases test with
    | none =>
      dsimp only
      rw [pure_bind, isOk_bind_pure, h.isOk_statementLines]
      simp
    | some x =>
      dsimp only
      rw [isOk_bind_of fun _ => by rw [pure_bind, isOk_bind_pure, h.isOk_statementLines], h.expression]
      simp
  next hnot =>
    have hps : Way.clause.parts node.payload = none := by
      cases hp : node.payload <;> first | rfl | exact absurd hp (hnot _ _)
    simp [Printable.not_of_none hnode rfl hps]

lemma isOk_switchText {discriminant : Option α} {cases : List (Option α)} {trailing : List Text} :
    (switchText source inner indent discriminant cases trailing).isOk = true ↔
      Fills (Printable source n) .expression discriminant ∧ ∀ slot ∈ cases, Fills (Printable source n) .clause slot := by
  rw [switchText, isOk_bind_of fun _ => ?_, h.isOk_expression]
  split
  next hempty => simp [List.isEmpty_iff.mp (Bool.and_eq_true_iff.mp hempty).1]
  next =>
    rw [isOk_bind_pure, isOk_mapM]
    simp only [h.isOk_switchClause]

lemma isOk_optionalPart : (optionalPart inner indent slot).isOk = true ↔ ∀ x ∈ slot, Printable source n .expression x := by
  cases slot with
  | none => simp [optionalPart]
  | some x =>
    rw [optionalPart, isOk_bind_pure, h.expression]
    simp

lemma isOk_tryText {body param handler finalizer : Option α} :
    (tryText source inner indent body param handler finalizer).isOk = true ↔
      (handler.isNone && finalizer.isNone) = false ∧ Fills (Printable source n) .block body ∧
        (handler.isSome = true → ∀ x ∈ param, Printable source n .expression x) ∧
        (∀ x ∈ handler, Printable source n .block x) ∧ ∀ x ∈ finalizer, Printable source n .block x := by
  unfold tryText
  cases handler <;> cases param <;> cases finalizer <;>
    simp [isOk_bind, ← isOk_iff, h.isOk_block, h.expression]

lemma isOk_ifText {test consequent alternate : Option α} :
    (ifText source inner indent test consequent alternate).isOk = true ↔
      Fills (Printable source n) .expression test ∧ Fills (Printable source n) .nested consequent ∧
        ∀ x ∈ alternate, Printable source n .nested x := by
  have hnested {x : α} {k : Kind} (hk : k ≠ .blockStatement) (hkind : source.payload? x |>.any (·.kind == k)) :
      Printable source n .nested x ↔ Printable source n .statement x := by
    cases hnode : source.node? x with
    | none => simp [NodeSource.payload?, hnode] at hkind
    | some node =>
      simp only [NodeSource.payload?, hnode, Option.map_some, Option.any_some, beq_iff_eq] at hkind
      exact Printable.nested_iff_statement hnode (hkind ▸ hk)
  have helse {x : α} (hx : takesElse source x = true) :
      Printable source n .nested x ↔ Printable source n .statement x := by
    refine hnested (k := .ifStatement) (by decide) ?_
    unfold takesElse at hx
    split at hx
    next hp => simp [hp, Payload.kind]
    next => cases hx
  have hchains {x : α}
      (hx : ((source.node? x).any fun n => n.payload.kind == .ifStatement && n.leading.isEmpty) = true) :
      Printable source n .nested x ↔ Printable source n .statement x := by
    refine hnested (k := .ifStatement) (by decide) ?_
    cases hnode : source.node? x <;> simp_all [NodeSource.payload?]
  unfold ifText
  rw [isOk_bind_of fun _ => isOk_need_and fun x node hslot hnode => ?_, h.isOk_expression]
  subst hslot
  dsimp only
  cases alternate with
  | none => simp [h.isOk_nested]
  | some y =>
    by_cases hx : takesElse source x = true <;>
      by_cases hy : ((source.node? y).any fun n => n.payload.kind == .ifStatement && n.leading.isEmpty) = true
    · simp [hx, hy, isOk_bind, ← isOk_iff, h.statement, helse hx, hchains hy]
    · simp [hx, hy, isOk_bind, ← isOk_iff, h.statement, h.isOk_nested, helse hx]
    · simp [hx, hy, isOk_bind, ← isOk_iff, h.statement, h.isOk_nested, hchains hy]
    · simp [hx, hy, isOk_bind, ← isOk_iff, h.isOk_nested]

section Kinds

variable {x : α} {node : Node α} (hnode : source.node? x = some node)
  {init test update body left right param handler finalizer : Option α} {declarations : List (Option α)}

include hnode

lemma isOk_declarationText {keyword : Text} (hp : node.payload = .variableDeclaration keyword declarations) :
    (statementText source inner indent x node).isOk = true ↔ Printable source (n + 1) .statement x := by
  rw [statementText, hp]
  dsimp only
  rw [isOk_bind_pure, h.isOk_variableDeclaration]
  cases hempty : declarations.isEmpty with
  | true =>
    have hps : Way.statement.parts node.payload = none := by
      simp [Way.parts, hp, Way.needs, Way.statementNeeds, Way.declarationNeeds, hempty]
    simp [Printable.not_of_none hnode rfl hps]
  | false =>
    rw [Printable.iff_statement hnode [declarations.map fun c => (Way.declarator, c)].flatten
      (by rw [hp, Way.parts, Way.needs, Way.statementNeeds, Way.declarationNeeds, hempty]; rfl)]
    simp

lemma isOk_forText (hp : node.payload = .forStatement init test update body) :
    (statementText source inner indent x node).isOk = true ↔ Printable source (n + 1) .statement x := by
  rw [statementText, hp, Printable.iff_statement hnode [init.toList.map fun c => (Way.head, some c),
    test.toList.map fun c => (Way.expression, some c), update.toList.map fun c => (Way.expression, some c),
    [(.nested, body)]].flatten (by rw [hp]; rfl)]
  cases init <;>
    simp [isOk_bind, ← isOk_iff, h.isOk_forHead, h.isOk_optionalPart, h.isOk_nested]

lemma isOk_forInText {isOf : Bool} (hp : node.payload = .forInStatement left right body isOf) :
    (statementText source inner indent x node).isOk = true ↔ Printable source (n + 1) .statement x := by
  rw [statementText, hp]
  dsimp only
  rw [isOk_need_and fun y node' hslot hnode' => by
    rw [isOk_bind_of fun _ => isOk_bind_of fun _ => by rw [isOk_bind_pure, h.isOk_nested], h.isOk_forHead,
      h.isOk_expression], Printable.iff_statement hnode
    [[(.head, left)], [(.expression, right)], [(.nested, body)]].flatten (by rw [hp]; rfl)]
  simp

lemma isOk_tryStatement (hp : node.payload = .tryStatement body param handler finalizer) :
    (tryText source inner indent body param handler finalizer).isOk = true ↔ Printable source (n + 1) .statement x := by
  rw [h.isOk_tryText]
  cases hboth : (handler.isNone && finalizer.isNone) with
  | true =>
    have hps : Way.statement.parts node.payload = none := by
      simp [Way.parts, hp, Way.needs, Way.statementNeeds, hboth]
    simp [Printable.not_of_none hnode rfl hps]
  | false =>
    rw [Printable.iff_statement hnode [[(.block, body)], (if handler.isSome then Need.optional .expression
      else .unused).parts (.one param), handler.toList.map fun c => (Way.block, some c),
      finalizer.toList.map fun c => (Way.block, some c)].flatten
      (by rw [hp, Way.parts, Way.needs, Way.statementNeeds, hboth]; rfl)]
    cases handler <;> simp [Need.parts]

lemma isOk_labeledText {label : Text} (hp : node.payload = .labeledStatement label body) :
    (statementText source inner indent x node).isOk = true ↔ Printable source (n + 1) .statement x := by
  rw [statementText, hp]
  dsimp only
  refine (isOk_need (n := n) (w := .labeled) fun y node' hslot hnode' => ?_).trans ?_
  · split
    next hleading =>
      rw [isOk_bind_pure, h.statement, Printable.iff_resolve hnode' .statement (w := .labeled)
        (by simp only [Way.resolve, if_pos hleading])]
    next hleading =>
      rw [isOk_bind_pure, h.isOk_nested, hslot, fills_some, Printable.iff_resolve hnode' .nested (w := .labeled)
        (by simp only [Way.resolve, if_neg hleading])]
  · rw [Printable.iff_statement hnode [[(.labeled, body)]].flatten (by rw [hp]; rfl)]
    simp

end Kinds

lemma isOk_statementText (indent : Nat) {x : α} {node : Node α} (hnode : source.node? x = some node) :
    (statementText source inner indent x node).isOk = true ↔ Printable source (n + 1) .statement x := by
  have hnot (hps : Way.statement.parts node.payload = none) : ¬ Printable source (n + 1) .statement x :=
    Printable.not_of_none hnode rfl hps
  cases hp : node.payload
  case variableDeclaration => exact h.isOk_declarationText hnode hp
  case forStatement => exact h.isOk_forText hnode hp
  case forInStatement => exact h.isOk_forInText hnode hp
  case labeledStatement => exact h.isOk_labeledText hnode hp
  all_goals
    unfold statementText
    rw [hp]
    dsimp only
  case functionDeclaration name params body isAsync isGenerator =>
    rw [isOk_bind_pure, h.isOk_functionRest, Printable.iff_statement hnode
      [params.map fun c => (Way.expression, c), [(.block, body)]].flatten (by rw [hp]; rfl)]
    simp
  case classDeclaration name superClass members =>
    rw [h.isOk_classText, Printable.iff_statement hnode
      [superClass.toList.map fun c => (Way.expression, some c), members.map fun c => (Way.member, c)].flatten
      (by rw [hp]; rfl)]
    simp
  case returnStatement argument =>
    rw [isOk_bind_pure, h.isOk_optionalPart, Printable.iff_statement hnode
      [argument.toList.map fun c => (Way.expression, some c)].flatten (by rw [hp]; rfl)]
    simp
  case ifStatement test consequent alternate =>
    rw [h.isOk_ifText, Printable.iff_statement hnode
      [[(.expression, test)], [(.nested, consequent)], alternate.toList.map fun c => (Way.nested, some c)].flatten
      (by rw [hp]; rfl)]
    simp
  case whileStatement test body =>
    rw [isOk_bind_of fun _ => by rw [isOk_bind_pure, h.isOk_expression], h.isOk_nested, Printable.iff_statement hnode
      [[(.expression, test)], [(.nested, body)]].flatten (by rw [hp]; rfl)]
    simp [and_comm]
  case doWhileStatement body test =>
    rw [isOk_bind_of fun _ => by rw [isOk_bind_pure, h.isOk_nested], h.isOk_expression, Printable.iff_statement hnode
      [[(.nested, body)], [(.expression, test)]].flatten (by rw [hp]; rfl)]
    simp [and_comm]
  case blockStatement body =>
    rw [h.isOk_block, fills_some, Printable.iff_parts hnode rfl [body.map fun c => (Way.statement, c)].flatten
      (by rw [hp]; rfl), Printable.iff_statement hnode [body.map fun c => (Way.statement, c)].flatten (by rw [hp]; rfl)]
  case expressionStatement e =>
    rw [isOk_bind_pure, h.isOk_expression, Printable.iff_statement hnode [[(.expression, e)]].flatten (by rw [hp]; rfl)]
    simp
  case switchStatement discriminant cases =>
    rw [h.isOk_switchText, Printable.iff_statement hnode
      [[(.expression, discriminant)], cases.map fun c => (Way.clause, c)].flatten (by rw [hp]; rfl)]
    simp
  case throwStatement argument =>
    rw [isOk_bind_pure, h.isOk_expression, Printable.iff_statement hnode [[(.expression, argument)]].flatten
      (by rw [hp]; rfl)]
    simp
  case tryStatement => exact h.isOk_tryStatement hnode hp
  case breakStatement | continueStatement | debuggerStatement | emptyStatement | rawStatement =>
    rw [Printable.iff_statement hnode [] (by rw [hp]; rfl)]
    simp
  all_goals simp [hnot (by rw [hp]; rfl)]

lemma isOk_arrayText {elements : List (Option α)} :
    (arrayText inner indent elements).isOk = true ↔ ∀ x, some x ∈ elements → Printable source n .expression x := by
  rw [arrayText, isOk_bind_pure, isOk_mapM]
  constructor
  · exact fun hall x hx => (h.expression ..).mp (hall (some x) hx)
  · rintro hall (_ | x) hx
    · rfl
    · exact (h.expression ..).mpr (hall x hx)

lemma isOk_arrowText {params : List (Option α)} {body : Option α} {isAsync : Bool} :
    (arrowText source inner indent params body isAsync).isOk = true ↔
      (∀ slot ∈ params, Fills (Printable source n) .expression slot) ∧ Fills (Printable source n) .arrowBody body := by
  rw [arrowText, isOk_bind_of fun _ => isOk_need (w := .arrowBody) fun x node hslot hnode => ?_, h.isOk_parameters]
  dsimp only
  split
  next body' hp =>
    rw [isOk_bind_pure, h.isOk_block, hslot, fills_some,
      Printable.iff_resolve hnode .block (w := .arrowBody) (by simp [Way.resolve, hp, Payload.kind])]
  next hnot =>
    have hkind : node.payload.kind ≠ .blockStatement := by
      cases hp : node.payload <;> first | exact absurd hp (hnot _) | simp [Payload.kind]
    rw [isOk_bind_true fun _ => rfl, h.expression,
      Printable.iff_resolve hnode .expression (w := .arrowBody) (by simp [Way.resolve, hkind])]

lemma isOk_unaryText {op : Text} {argument : Option α} :
    (unaryText source inner indent op argument).isOk = true ↔
      if (isWordOperator op && argument.isNone) = true then (op == "yield") = true
      else Fills (Printable source n) .expression argument := by
  unfold unaryText
  split
  next hword =>
    cases argument with
    | none => cases hyield : op == "yield" <;> simp [hword]
    | some x => simp [hword, h.expression]
  next hword => rw [isOk_bind_pure, h.isOk_expression]; simp [hword]

lemma isOk_chainLink {opLevel : Nat} {link : Text × Option α} :
    (chainLink source inner indent opLevel link).isOk = true ↔ Fills (Printable source n) .expression link.2 := by
  unfold chainLink
  exact isOk_need fun x node _ _ => by rw [isOk_bind_pure, h.expression]

lemma isOk_argumentsText {args : List (Option α)} :
    (argumentsText source inner indent args).isOk = true ↔ ∀ slot ∈ args, Fills (Printable source n) .expression slot := by
  rw [argumentsText, isOk_bind_pure, isOk_mapM]
  simp only [h.isOk_expression]

lemma isOk_newText {callee : Option α} {args : List (Option α)} :
    (newText source inner indent callee args).isOk = true ↔
      Fills (Printable source n) .expression callee ∧ ∀ slot ∈ args, Fills (Printable source n) .expression slot := by
  refine isOk_need_and fun x node _ _ => ?_
  rw [isOk_bind_of fun _ => by rw [isOk_bind_pure, h.expression], h.isOk_argumentsText, and_comm]

lemma isOk_memberText {object name : Option α} {computed optional : Bool} :
    (memberText source inner indent object name computed optional).isOk = true ↔
      Fills (Printable source n) .expression object ∧
        Fills (Printable source n) (if computed then .expression else .name) name := by
  refine isOk_need_and fun x node _ _ => ?_
  rw [isOk_bind_of fun text => isOk_need fun y nameNode _ hname => ?_, h.expression]
  dsimp only
  cases computed with
  | true =>
    simp only [if_true]
    rw [isOk_bind_pure, h.expression]
  | false =>
    simp only [Bool.false_eq_true, if_false]
    split
    next hp => simp [Printable.iff_parts (w := .name) hname rfl [] (by rw [hp]; rfl)]
    next hnot =>
      have hps : Way.name.parts nameNode.payload = none := by
        cases hp : nameNode.payload <;> first | rfl | exact absurd hp (hnot _)
      simp [Printable.not_of_none hname rfl hps]

lemma isOk_binaryText {x : α} {node : Node α} {op : Text} {left right : Option α} (hbounded : source.IsBounded)
    (hnode : source.node? x = some node) (hp : node.payload = .binaryExpression op left right) :
    (binaryText source inner indent op left right).isOk = true ↔ Printable source (n + 1) .expression x := by
  unfold binaryText
  dsimp only
  by_cases hlevel : operatorLevel op = 0
  · have hps : Way.expression.parts node.payload = none := by
      rw [hp, Way.parts, Way.needs, Way.expressionNeeds, if_pos hlevel]
      rfl
    rw [if_pos hlevel, isOk_bind]
    simp [Printable.not_of_none hnode rfl hps]
  rw [if_neg hlevel]
  split_ifs with hpower
  · rw [Printable.iff_binary hnode hp hlevel, if_pos hpower,
      isOk_bind_of fun _ => by rw [isOk_bind_pure, h.isOk_expression], h.isOk_expression, and_comm]
  · rw [Printable.iff_binary hnode hp hlevel, if_neg hpower]
    have hrest (head : α) (rest : List (Text × Option α)) :
        (do
          let text ← inner (.expression indent (operandLevel source (rest.headD (op, right)).1 (operatorLevel op) head)) head
          return text ++ (← rest.mapM (chainLink source inner indent (operatorLevel op))).flatten :
            Except PrintError Text).isOk = true ↔
          Printable source n .expression head ∧ ∀ link ∈ rest, Fills (Printable source n) .expression link.2 := by
      rw [isOk_bind_of fun _ => by rw [isOk_bind_pure, isOk_mapM], h.expression]
      simp only [h.isOk_chainLink]
    rw [isOk_bind]
    constructor
    · rintro ⟨⟨head, rest⟩, hrun, hok⟩
      obtain ⟨hhead, hlinks⟩ := (hrest head rest).mp hok
      obtain ⟨hleft, hright⟩ := ChainFits.fills ⟨head, rest, hrun, hhead, hlinks⟩
      exact ⟨hleft, hright _ List.mem_cons_self⟩
    · rintro ⟨⟨y, rfl, hy⟩, hright⟩
      have hlinks : ∀ link ∈ [(op, right)], Fills (Printable source n) .expression link.2 := by simpa using hright
      obtain ⟨head, rest, hrun, hprints⟩ := chainFits_of_fills hbounded [] (.singleton y) (by simp)
        (Nat.le_add_right ..) hy hlinks
      exact ⟨(head, rest), hrun, (hrest head rest).mpr hprints⟩

section Kinds

variable {x : α} {node : Node α} (hnode : source.node? x = some node) {op name : Text}
  {test consequent alternate body argument callee : Option α} {args params properties expressions : List (Option α)}

include hnode

lemma isOk_objectText (hp : node.payload = .objectExpression properties) :
    (expressionText source inner indent node).isOk = true ↔ Printable source (n + 1) .expression x := by
  rw [expressionText, hp, Printable.iff_expression hnode [properties.map fun c => (Way.member, c)].flatten
    (by rw [hp]; rfl)]
  dsimp only
  rw [isOk_bind_pure, isOk_mapM]
  simp [h.isOk_objectProperty]

lemma isOk_functionText {isAsync isGenerator : Bool}
    (hp : node.payload = .functionExpression name params body isAsync isGenerator) :
    (expressionText source inner indent node).isOk = true ↔ Printable source (n + 1) .expression x := by
  rw [expressionText, hp, Printable.iff_expression hnode
    [params.map fun c => (Way.expression, c), [(.block, body)]].flatten (by rw [hp]; rfl)]
  dsimp only
  rw [isOk_bind_pure, h.isOk_functionRest]
  simp

lemma isOk_unary (hp : node.payload = .unaryExpression op argument) :
    (unaryText source inner indent op argument).isOk = true ↔ Printable source (n + 1) .expression x := by
  rw [h.isOk_unaryText]
  split_ifs with hword
  · by_cases hyield : (op == "yield") = true
    · rw [Printable.iff_expression hnode [] (by
        rw [hp, Way.parts, Way.needs, Way.expressionNeeds, if_pos hword, if_pos hyield]; rfl)]
      simp [hyield]
    · have hps : Way.expression.parts node.payload = none := by
        rw [hp, Way.parts, Way.needs, Way.expressionNeeds, if_pos hword, if_neg hyield]
        rfl
      simp [hyield, Printable.not_of_none hnode rfl hps]
  · rw [Printable.iff_expression hnode [[(.expression, argument)]].flatten (by
      rw [hp, Way.parts, Way.needs, Way.expressionNeeds, if_neg hword]; rfl)]
    simp

lemma isOk_conditionalText (hp : node.payload = .conditionalExpression test consequent alternate) :
    (expressionText source inner indent node).isOk = true ↔ Printable source (n + 1) .expression x := by
  rw [expressionText, hp, Printable.iff_expression hnode
    [[(.expression, test)], [(.expression, consequent)], [(.expression, alternate)]].flatten (by rw [hp]; rfl)]
  dsimp only
  rw [isOk_bind_of fun _ => isOk_bind_of fun _ => by rw [isOk_bind_pure, h.isOk_expression], h.isOk_expression,
    h.isOk_expression]
  simp only [List.flatten_cons, fulfills_append, fulfills_cons, List.flatten_nil, fulfills_nil, and_true]
  tauto

lemma isOk_callText {optional : Bool} (hp : node.payload = .callExpression callee args optional) :
    (expressionText source inner indent node).isOk = true ↔ Printable source (n + 1) .expression x := by
  rw [expressionText, hp, Printable.iff_expression hnode
    [[(.expression, callee)], args.map fun c => (Way.expression, c)].flatten (by rw [hp]; rfl)]
  dsimp only
  rw [isOk_bind_of fun _ => by rw [isOk_bind_pure, h.isOk_argumentsText], h.isOk_expression]
  simp

lemma isOk_sequenceText (hp : node.payload = .sequenceExpression expressions) :
    (expressionText source inner indent node).isOk = true ↔ Printable source (n + 1) .expression x := by
  rw [expressionText, hp]
  dsimp only
  cases hempty : expressions.isEmpty with
  | true =>
    have hps : Way.expression.parts node.payload = none := by
      rw [hp, Way.parts, Way.needs, Way.expressionNeeds, if_pos hempty]
      rfl
    simp [isOk_bind, Printable.not_of_none hnode rfl hps]
  | false =>
    rw [Printable.iff_expression hnode [expressions.map fun c => (Way.expression, c)].flatten (by
      rw [hp, Way.parts, Way.needs, Way.expressionNeeds, hempty]; rfl)]
    simp only [Bool.false_eq_true, if_false]
    rw [isOk_bind_pure, isOk_mapM]
    simp [h.isOk_expression]

end Kinds

lemma isOk_expressionText (indent : Nat) {x : α} {node : Node α} (hbounded : source.IsBounded)
    (hnode : source.node? x = some node) :
    (expressionText source inner indent node).isOk = true ↔ Printable source (n + 1) .expression x := by
  have hnot (hps : Way.expression.parts node.payload = none) : ¬ Printable source (n + 1) .expression x :=
    Printable.not_of_none hnode rfl hps
  cases hp : node.payload
  case objectExpression => exact h.isOk_objectText hnode hp
  case functionExpression => exact h.isOk_functionText hnode hp
  case conditionalExpression => exact h.isOk_conditionalText hnode hp
  case callExpression => exact h.isOk_callText hnode hp
  case sequenceExpression => exact h.isOk_sequenceText hnode hp
  all_goals
    unfold expressionText
    rw [hp]
    dsimp only
  case identifier | nullLiteral | regExpLiteral | templateLiteral | thisExpression | booleanLiteral | stringLiteral =>
    rw [Printable.iff_expression hnode [] (by rw [hp]; rfl)]
    simp
  case numericLiteral value raw isBigInt =>
    rw [Printable.iff_expression hnode [] (by rw [hp]; rfl)]
    split <;> simp
  case taggedTemplateExpression tag quasi =>
    rw [isOk_bind_of fun _ => by rw [isOk_bind_pure, h.isOk_expression], h.isOk_expression, Printable.iff_expression hnode
      [[(.expression, tag)], [(.expression, quasi)]].flatten (by rw [hp]; rfl)]
    simp [and_comm]
  case arrayExpression elements =>
    rw [h.isOk_arrayText, Printable.iff_expression hnode
      [(elements.filterMap id).map fun c => (Way.expression, some c)].flatten (by rw [hp]; rfl)]
    simp
  case property key value kind computed shorthand isStatic =>
    rw [h.isOk_property, Printable.iff_expression hnode _ (by rw [hp]; rfl)]
  case arrowFunctionExpression params body isAsync =>
    rw [h.isOk_arrowText, Printable.iff_expression hnode
      [params.map fun c => (Way.expression, c), [(.arrowBody, body)]].flatten (by rw [hp]; rfl)]
    simp
  case classExpression name superClass members =>
    rw [h.isOk_classText, Printable.iff_expression hnode
      [superClass.toList.map fun c => (Way.expression, some c), members.map fun c => (Way.member, c)].flatten
      (by rw [hp]; rfl)]
    simp
  case unaryExpression op argument => exact h.isOk_unary hnode hp
  case updateExpression op isPrefixed argument =>
    rw [Printable.iff_expression hnode [[(.expression, argument)]].flatten (by rw [hp]; rfl)]
    cases isPrefixed <;> simp [h.isOk_expression]
  case binaryExpression op left right => exact h.isOk_binaryText hbounded hnode hp
  case assignmentExpression op left right =>
    rw [isOk_bind_of fun _ => by rw [isOk_bind_pure, h.isOk_expression], h.isOk_expression, Printable.iff_expression hnode
      [[(.expression, left)], [(.expression, right)]].flatten (by rw [hp]; rfl)]
    simp [and_comm]
  case newExpression callee args =>
    rw [h.isOk_newText, Printable.iff_expression hnode
      [[(.expression, callee)], args.map fun c => (Way.expression, c)].flatten (by rw [hp]; rfl)]
    simp
  case memberExpression object name computed optional =>
    rw [h.isOk_memberText, Printable.iff_expression hnode
      [[(.expression, object)], [(if computed then .expression else .name, name)]].flatten (by rw [hp]; rfl)]
    simp
  case spreadElement argument =>
    rw [isOk_bind_pure, h.isOk_expression, Printable.iff_expression hnode [[(.expression, argument)]].flatten
      (by rw [hp]; rfl)]
    simp
  all_goals simp [hnot (by rw [hp]; rfl)]

end Fits

/-- The printer fits the ways, however deep it goes. -/
theorem fits_partUpTo (hbounded : source.IsBounded) (limit : Int) (n : Nat) :
    Fits source n (partUpTo source limit n) := by
  have hnone {w : Way} {x : α} {room : Nat} (hnode : source.node? x = none) : ¬ Printable source room w x := fun h => by
    obtain ⟨node, hnode'⟩ := h.exists_node
    cases hnode.symm.trans hnode'
  induction n with
  | zero =>
    have hnot {w : Way} {x : α} (hw : w.cost = 1) (hway : ∀ node : Node α, w.resolve node = none) :
        ¬ Printable source 0 w x := fun h => by
      obtain ⟨node, -, ⟨m, ps, hroom, -⟩ | ⟨w', hway', -⟩⟩ := h.cases_room
      · omega
      · cases (hway node).symm.trans hway'
    exact ⟨fun indent x => by simp [partUpTo, hnot (w := .statement) rfl fun _ => rfl],
      fun indent least x => by simp [partUpTo, hnot (w := .expression) rfl fun _ => rfl]⟩
  | succ n ih =>
    constructor
    · intro indent x
      cases hnode : source.node? x with
      | none => simp [partUpTo, partText, NodeSource.need, hnode, bind, Except.bind, hnone hnode]
      | some node =>
        rw [← ih.isOk_statementText indent hnode]
        simp [partUpTo, partText, NodeSource.need, hnode, bind, Except.bind]
    · intro indent least x
      cases hnode : source.node? x with
      | none => simp [partUpTo, partText, NodeSource.need, hnode, bind, Except.bind, hnone hnode]
      | some node =>
        rw [← ih.isOk_expressionText indent hbounded hnode]
        simp only [partUpTo, partText, NodeSource.need, hnode, bind, Except.bind]
        cases expressionText source (partUpTo source limit n) indent node <;> simp

/-- A script has a text if its statements are printed in the room that the options leave. -/
theorem isOk_print_program (hbounded : source.IsBounded) {options : PrintOptions} {x : α} {node : Node α}
    {body : List (Option α)} (hnode : source.node? x = some node) (hp : node.payload = .program body) :
    (source.print (some x) options).isOk = true ↔ Printable source options.maxDepth.toNat .script x := by
  have hprint : source.print (some x) options = statementLines source
      (partUpTo source options.maxDepth options.maxDepth.toNat) 0 body node.trailing >>= fun lines =>
        pure (Text.join "\n" lines) := by
    simp only [NodeSource.print, NodeSource.need, hnode, bind, Except.bind]
    rw [hp]
  rw [hprint, isOk_bind_pure, (fits_partUpTo hbounded options.maxDepth options.maxDepth.toNat).isOk_statementLines,
    Printable.iff_parts hnode rfl [body.map fun c => (Way.statement, c)].flatten (by rw [hp]; rfl)]
  simp

end PlainScript
