import PlainScript.Print.Printer
import PlainScript.Proofs.Places

/-! What a node needs to be printed. A node is printed in one of several ways, and then its slots have to hold nodes
that are printed in ways of their own. Statements and expressions take room each time, and so a node with some way
to be printed in a room has it in a larger one too. -/
namespace PlainScript

open Print

/-- What a node is printed as. -/
inductive Way
  | script
  | statement
  | expression
  | block
  | nested
  | labeled
  | declaration
  | declarator
  | head
  | clause
  | member
  | method
  | arrowBody
  | name
  | chain (opLevel : Nat)
  deriving DecidableEq, Repr

/-- How what is in a slot is printed: all of it has to be there, or only what is there is printed, or nothing. -/
inductive Need
  | required (way : Way)
  | optional (way : Way)
  | unused
  deriving DecidableEq, Repr

variable {α : Type}

/-- What is printed of a slot. -/
def Need.parts : Need → Slot α → List (Way × Option α)
  | required w, .one c => [(w, c)]
  | required w, .many cs => cs.map fun c => (w, c)
  | optional w, slot => slot.children.map fun c => (w, some c)
  | unused, _ => []

namespace Way

open Need

/-- The ways of a function's slots. -/
def functionNeeds : List Need := [required expression, required block]

def propertyNeeds (kind : PropertyKind) (shorthand : Bool) : List Need :=
  match kind with
  | .spread => [unused, required expression]
  | .init => [if shorthand then unused else required expression, required expression]
  | .field => [required expression, optional expression]
  | .get | .set | .method => [required expression, required method]

def declarationNeeds (declarations : List (Option α)) : Option (List Need) :=
  if declarations.isEmpty then none else some [required declarator]

def statementNeeds : Payload α → Option (List Need)
  | .variableDeclaration _ declarations => declarationNeeds declarations
  | .functionDeclaration .. => some functionNeeds
  | .classDeclaration .. => some [optional expression, required member]
  | .returnStatement _ => some [optional expression]
  | .ifStatement .. => some [required expression, required nested, optional nested]
  | .whileStatement .. => some [required expression, required nested]
  | .doWhileStatement .. => some [required nested, required expression]
  | .forStatement .. => some [optional head, optional expression, optional expression, required nested]
  | .forInStatement .. => some [required head, required expression, required nested]
  | .blockStatement _ => some [required statement]
  | .expressionStatement _ => some [required expression]
  | .switchStatement .. => some [required expression, required clause]
  | .breakStatement _ | .continueStatement _ | .debuggerStatement | .emptyStatement | .rawStatement _ => some []
  | .throwStatement _ => some [required expression]
  | .tryStatement _ _ handler finalizer =>
    if handler.isNone && finalizer.isNone then none
    else some [required block, if handler.isSome then optional expression else unused, optional block, optional block]
  | .labeledStatement .. => some [required labeled]
  | _ => none

def expressionNeeds : Payload α → Option (List Need)
  | .identifier _ | .numericLiteral .. | .stringLiteral .. | .booleanLiteral _ | .nullLiteral | .regExpLiteral _
  | .templateLiteral _ | .thisExpression => some []
  | .taggedTemplateExpression .. => some [required expression, required expression]
  | .arrayExpression _ => some [optional expression]
  | .objectExpression _ => some [required member]
  | .functionExpression .. => some functionNeeds
  | .arrowFunctionExpression .. => some [required expression, required arrowBody]
  | .classExpression .. => some [optional expression, required member]
  | .unaryExpression op argument =>
    if isWordOperator op && argument.isNone then if op == "yield" then some [unused] else none
    else some [required expression]
  | .updateExpression .. => some [required expression]
  | .binaryExpression op .. =>
    if operatorLevel op = 0 then none
    else some [if op == "**" then required expression else required (chain (operatorLevel op)), required expression]
  | .assignmentExpression .. => some [required expression, required expression]
  | .conditionalExpression .. => some [required expression, required expression, required expression]
  | .callExpression .. | .newExpression .. => some [required expression, required expression]
  | .memberExpression _ _ computed _ => some [required expression, required (if computed then expression else name)]
  | .sequenceExpression expressions => if expressions.isEmpty then none else some [required expression]
  | .spreadElement _ => some [required expression]
  | .property _ _ kind _ shorthand _ => some (propertyNeeds kind shorthand)
  | _ => none

/-- The ways of the slots of a node that is printed in a way, if it can be. -/
def needs : Way → Payload α → Option (List Need)
  | script, .program _ => some [required statement]
  | statement, p => statementNeeds p
  | expression, p => expressionNeeds p
  | block, .blockStatement _ => some [required statement]
  | declaration, .variableDeclaration _ declarations => declarationNeeds declarations
  | declarator, .variableDeclarator .. => some [required expression, optional expression]
  | clause, .switchCase .. => some [optional expression, required statement]
  | member, .property _ _ kind _ shorthand _ => some (propertyNeeds kind shorthand)
  | method, .functionExpression .. => some functionNeeds
  | name, .identifier _ => some []
  | chain opLevel, .binaryExpression op _ _ =>
    if op != "**" && operatorLevel op == opLevel then some [required (chain opLevel), required expression] else none
  | _, _ => none

/-- What is printed of a node. -/
def parts (w : Way) (p : Payload α) : Option (List (Way × Option α)) :=
  (w.needs p).map fun needs => (List.zipWith (fun need slot => need.parts slot.2) needs p.slots).flatten

/-- Some ways depend on the node: a body is printed as a block if it is one. -/
def resolve : Way → Node α → Option Way
  | nested, node => some (if node.payload.kind = .blockStatement then block else statement)
  | labeled, node => some (if node.leading.isEmpty then statement else nested)
  | head, node => some (if node.payload.kind = .variableDeclaration then declaration else expression)
  | arrowBody, node => some (if node.payload.kind = .blockStatement then block else expression)
  | chain opLevel, node => if ((chain opLevel).needs node.payload).isSome then none else some expression
  | _, _ => none

lemma parts_of_resolve {w w' : Way} {node : Node α} (h : w.resolve node = some w') : w.parts node.payload = none := by
  cases w with
  | chain opLevel =>
    rw [resolve] at h
    split_ifs at h with hneeds
    rw [parts, Option.not_isSome_iff_eq_none.mp hneeds, Option.map_none]
  | _ => first | rfl | cases h

/-- The room that the way takes. -/
def cost : Way → Nat
  | statement | expression => 1
  | _ => 0

end Way

/-- The node is printed in a way, with some room for what is in it. -/
inductive Printable (source : NodeSource α) : Nat → Way → α → Prop
  | parts {n room : Nat} {w : Way} {x : α} {node : Node α} {parts : List (Way × Option α)}
      (hnode : source.node? x = some node) (hroom : room = n + w.cost) (hparts : w.parts node.payload = some parts)
      (hfull : ∀ w', (w', none) ∉ parts) (h : ∀ w' y, (w', some y) ∈ parts → Printable source n w' y) :
      Printable source room w x
  | resolve {n : Nat} {w w' : Way} {x : α} {node : Node α} (hnode : source.node? x = some node)
      (hway : w.resolve node = some w') (h : Printable source n w' x) : Printable source n w x

/-- What is in a slot is printed in a way. -/
def Fills (P : Way → α → Prop) (w : Way) (slot : Option α) : Prop := ∃ x, slot = some x ∧ P w x

/-- All parts are there and are printed. -/
def Fulfills (P : Way → α → Prop) (parts : List (Way × Option α)) : Prop :=
  ∀ w slot, (w, slot) ∈ parts → Fills P w slot

section Fulfills

variable {P : Way → α → Prop} {w : Way} {slot : Option α} {ps qs : List (Way × Option α)}

@[simp] lemma fills_none : ¬ Fills P w none := nofun
@[simp] lemma fills_some {x : α} : Fills P w (some x) ↔ P w x := by simp [Fills]

@[simp] lemma fulfills_nil : Fulfills P [] := nofun

@[simp] lemma fulfills_cons : Fulfills P ((w, slot) :: ps) ↔ Fills P w slot ∧ Fulfills P ps := by
  simp [Fulfills, or_imp, forall_and]

@[simp] lemma fulfills_append : Fulfills P (ps ++ qs) ↔ Fulfills P ps ∧ Fulfills P qs := by
  simp [Fulfills, or_imp, forall_and]

@[simp] lemma fulfills_map {slots : List (Option α)} :
    Fulfills P (slots.map fun slot => (w, slot)) ↔ ∀ slot ∈ slots, Fills P w slot := by
  simp only [Fulfills, List.mem_map, Prod.mk.injEq, forall_exists_index, and_imp]
  exact ⟨fun h slot hs => h w slot slot hs rfl rfl, fun h _ _ slot hs hw hslot => hw ▸ hslot ▸ h slot hs⟩

@[simp] lemma fulfills_map_some {xs : List α} : Fulfills P (xs.map fun x => (w, some x)) ↔ ∀ x ∈ xs, P w x := by
  simp only [Fulfills, List.mem_map, Prod.mk.injEq, forall_exists_index, and_imp]
  exact ⟨fun h x hx => by simpa using h w (some x) x hx rfl rfl, fun h _ _ x hx hw hs => hw ▸ hs ▸ by simpa using h x hx⟩

end Fulfills

namespace Printable

variable {source : NodeSource α} {n m : Nat} {w w' : Way} {x : α} {node : Node α} {ps : List (Way × Option α)}

lemma exists_node (h : Printable source n w x) : ∃ node, source.node? x = some node := by
  cases h with
  | parts hnode => exact ⟨_, hnode⟩
  | resolve hnode => exact ⟨_, hnode⟩

lemma of_fulfills (hnode : source.node? x = some node) (hps : w.parts node.payload = some ps)
    (h : Fulfills (Printable source n) ps) : Printable source (n + w.cost) w x := by
  refine .parts hnode rfl hps (fun w' hm => ?_) fun w' y hm => ?_
  · exact fills_none (h w' none hm)
  · exact fills_some.mp (h w' (some y) hm)

/-- A node is printed in a way if its parts are, or if it is printed as what it is. -/
lemma cases_room (h : Printable source m w x) : ∃ node, source.node? x = some node ∧
    ((∃ n ps, m = n + w.cost ∧ w.parts node.payload = some ps ∧ Fulfills (Printable source n) ps) ∨
      ∃ w', w.resolve node = some w' ∧ Printable source m w' x) := by
  cases h with
  | @parts n _ _ _ node ps hnode hroom hps hfull h =>
    refine ⟨node, hnode, .inl ⟨n, ps, hroom, hps, fun w' slot hm => ?_⟩⟩
    cases slot with
    | none => exact absurd hm (hfull w')
    | some y => exact fills_some.mpr (h w' y hm)
  | resolve hnode hway h => exact ⟨_, hnode, .inr ⟨_, hway, h⟩⟩

lemma iff_resolve (hnode : source.node? x = some node) (v : Way) (hway : w.resolve node = some v) :
    Printable source n w x ↔ Printable source n v x := by
  refine ⟨fun h => ?_, fun h => .resolve hnode hway h⟩
  obtain ⟨node', hnode', ⟨n', ps, -, hps, -⟩ | ⟨v', hway', h⟩⟩ := h.cases_room
  all_goals obtain rfl := Option.some.inj (hnode.symm.trans hnode')
  · cases (Way.parts_of_resolve hway).symm.trans hps
  · exact Option.some.inj (hway'.symm.trans hway) ▸ h

lemma iff_fulfills (hnode : source.node? x = some node) (hps : w.parts node.payload = some ps) :
    Printable source (n + w.cost) w x ↔ Fulfills (Printable source n) ps := by
  refine ⟨fun h => ?_, of_fulfills hnode hps⟩
  obtain ⟨node', hnode', ⟨n', ps', hroom, hps', h⟩ | ⟨w', hway, -⟩⟩ := h.cases_room
  all_goals obtain rfl := Option.some.inj (hnode.symm.trans hnode')
  · obtain rfl := Nat.add_right_cancel hroom
    exact Option.some.inj (hps'.symm.trans hps) ▸ h
  · cases (Way.parts_of_resolve hway).symm.trans hps

lemma iff_parts (hnode : source.node? x = some node) (hcost : w.cost = 0) (ps : List (Way × Option α))
    (hps : w.parts node.payload = some ps) :
    Printable source n w x ↔ Fulfills (Printable source n) ps := by
  simpa [hcost] using iff_fulfills (n := n) hnode hps

lemma iff_statement (hnode : source.node? x = some node) (ps : List (Way × Option α))
    (hps : Way.statement.parts node.payload = some ps) :
    Printable source (n + 1) .statement x ↔ Fulfills (Printable source n) ps := iff_fulfills hnode hps

lemma iff_expression (hnode : source.node? x = some node) (ps : List (Way × Option α))
    (hps : Way.expression.parts node.payload = some ps) :
    Printable source (n + 1) .expression x ↔ Fulfills (Printable source n) ps := iff_fulfills hnode hps

lemma not_of_none (hnode : source.node? x = some node) (hway : w.resolve node = none)
    (hps : w.parts node.payload = none) : ¬ Printable source n w x := fun h => by
  obtain ⟨node', hnode', ⟨_, _, -, hps', -⟩ | ⟨w', hway', -⟩⟩ := h.cases_room <;>
    obtain rfl := Option.some.inj (hnode.symm.trans hnode')
  · cases hps.symm.trans hps'
  · cases hway.symm.trans hway'

lemma nested_iff_statement (hnode : source.node? x = some node) (hkind : node.payload.kind ≠ .blockStatement) :
    Printable source n .nested x ↔ Printable source n .statement x :=
  iff_resolve hnode .statement (by simp [Way.resolve, hkind])

/-- More room does no harm. -/
lemma mono (h : Printable source n w x) (hle : n ≤ m) : Printable source m w x := by
  induction h generalizing m with
  | @parts n room w x node ps hnode hroom hps hfull _ ih =>
    obtain ⟨k, rfl⟩ := Nat.exists_eq_add_of_le hle
    exact .parts hnode (n := n + k) (by omega) hps hfull fun w' y hm => ih w' y hm (by omega)
  | resolve hnode hway _ ih => exact .resolve hnode hway (ih hle)

section Chains

variable {op : Text} {opLevel : Nat} {left right : Option α}

lemma iff_chain_of_link (hnode : source.node? x = some node) (hp : node.payload = .binaryExpression op left right)
    (hlink : (op != "**" && operatorLevel op == opLevel) = true) :
    Printable source n (.chain opLevel) x ↔
      Fills (Printable source n) (.chain opLevel) left ∧ Fills (Printable source n) .expression right := by
  rw [iff_parts hnode rfl [[(.chain opLevel, left)], [(.expression, right)]].flatten
    (by rw [hp, Way.parts, Way.needs, if_pos hlink]; rfl)]
  simp

lemma iff_chain_of_not_link (hnode : source.node? x = some node)
    (hnot : ∀ op left right, node.payload = .binaryExpression op left right →
      (op != "**" && operatorLevel op == opLevel) = false) :
    Printable source n (.chain opLevel) x ↔ Printable source n .expression x := by
  have hneeds : (Way.chain opLevel).needs node.payload = none := by
    cases hp : node.payload <;> first | rfl | rw [Way.needs, hnot _ _ _ hp]; rfl
  exact iff_resolve hnode .expression (by simp [Way.resolve, hneeds])

/-- What is printed of an operator expression. -/
lemma iff_binary (hnode : source.node? x = some node) (hp : node.payload = .binaryExpression op left right)
    (hlevel : operatorLevel op ≠ 0) : Printable source (n + 1) .expression x ↔
      Fills (Printable source n) (if op == "**" then .expression else .chain (operatorLevel op)) left ∧
        Fills (Printable source n) .expression right := by
  rw [iff_expression hnode [[(if op == "**" then .expression else .chain (operatorLevel op), left)],
    [(.expression, right)]].flatten]
  · simp
  · rw [hp, Way.parts, Way.needs, Way.expressionNeeds, if_neg hlevel]
    split <;> rfl

lemma exists_room (h : Printable source n .expression x) : ∃ m, n = m + 1 := by
  obtain ⟨node, hnode, ⟨m, ps, rfl, -⟩ | ⟨w', hway, -⟩⟩ := h.cases_room
  · exact ⟨m, rfl⟩
  · cases hway

/-- What is printed as an expression of its own can be printed in a run of operators. -/
lemma chain (h : Printable source n .expression x) (opLevel : Nat) : Printable source n (.chain opLevel) x := by
  obtain ⟨m, rfl⟩ := h.exists_room
  obtain ⟨node, hnode⟩ := h.exists_node
  by_cases hlink : ∃ op left right, node.payload = .binaryExpression op left right ∧
      (op != "**" && operatorLevel op == opLevel) = true
  · obtain ⟨op, left, right, hp, hop⟩ := hlink
    have hlevel : operatorLevel op ≠ 0 := fun hzero => by
      refine not_of_none (w := .expression) hnode rfl ?_ h
      rw [hp, Way.parts, Way.needs, Way.expressionNeeds, if_pos hzero]
      rfl
    obtain ⟨hne, hsame⟩ := Bool.and_eq_true_iff.mp hop
    have hnot : ¬ (op == "**") = true := by simpa using hne
    rw [iff_binary hnode hp hlevel, if_neg hnot, eq_of_beq hsame] at h
    obtain ⟨⟨y, rfl, hy⟩, z, rfl, hz⟩ := h
    rw [iff_chain_of_link hnode hp hop]
    exact ⟨fills_some.mpr (hy.mono (Nat.le_succ m)), fills_some.mpr (hz.mono (Nat.le_succ m))⟩
  · rw [iff_chain_of_not_link hnode fun op left right hp => ?_]
    · exact h
    · exact Bool.eq_false_iff.mpr fun hop => hlink ⟨op, left, right, hp, hop⟩

end Chains

end Printable

end PlainScript
