import PlainScript.Print.Operator
import PlainScript.Proofs.TreeInduction

/-! What may stand in which slot of a node. Statements stand in lists and bodies, functions have blocks
for bodies, and every slot that a text cannot leave out is filled. -/
namespace PlainScript

/-- The kinds of expressions, and of the spread elements that stand among them. -/
def Kind.isExpression (k : Kind) : Bool :=
  !k.isStatement && (k ∉ [.program, .variableDeclarator, .switchCase, .property] : Bool)

/-- The head of a loop: an expression or declarations. -/
def Kind.isLoopHead (k : Kind) : Bool := k.isExpression || k == .variableDeclaration

/-- The body of an arrow function: an expression or a block. -/
def Kind.isArrowBody (k : Kind) : Bool := k.isExpression || k == .blockStatement

/-- The statements that stand nowhere but where any statement may stand. A block may also be the body of a
function, and declarations the head of a loop. -/
def Kind.isPlainStatement (k : Kind) : Bool :=
  k.isStatement && (k ∉ [.blockStatement, .variableDeclaration] : Bool)

lemma Kind.isPlainStatement_of_isLoop {k : Kind} (h : k.isLoop = true) : k.isPlainStatement = true := by
  cases k <;> first | rfl | cases h

/-- The roles of slots for statements. -/
def Role.takesStatement : Role → Bool
  | statement | optionalStatement | statementList => true
  | _ => false

namespace Payload

variable {α β : Type} (kindOf : α → Option Kind)

/-- A slot holds a child of a kind that is wanted there. -/
def holds (want : Kind → Bool) (slot : Option α) : Bool := (slot.bind kindOf).any want

/-- A slot is empty or holds a child of a kind that is wanted there. -/
def mayHold (want : Kind → Bool) (slot : Option α) : Bool := slot.isNone || holds kindOf want slot

def listHolds (want : Kind → Bool) (slots : List (Option α)) : Bool := slots.all (holds kindOf want)

/-- Every slot of a node holds what belongs there. -/
def isFormed : Payload α → Bool
  | program body | blockStatement body => listHolds kindOf Kind.isStatement body
  | variableDeclaration _ declarations =>
    !declarations.isEmpty && listHolds kindOf (· == .variableDeclarator) declarations
  | variableDeclarator id init =>
    holds kindOf Kind.isExpression id && mayHold kindOf Kind.isExpression init
  | functionDeclaration _ params body _ _ | functionExpression _ params body _ _ =>
    listHolds kindOf Kind.isExpression params && holds kindOf (· == .blockStatement) body
  | classDeclaration _ superClass members | classExpression _ superClass members =>
    mayHold kindOf Kind.isExpression superClass && listHolds kindOf (· == .property) members
  | returnStatement argument => mayHold kindOf Kind.isExpression argument
  | ifStatement test consequent alternate =>
    holds kindOf Kind.isExpression test && holds kindOf Kind.isStatement consequent
      && mayHold kindOf Kind.isStatement alternate
  | whileStatement test body | doWhileStatement body test =>
    holds kindOf Kind.isExpression test && holds kindOf Kind.isStatement body
  | forStatement init test update body =>
    mayHold kindOf Kind.isLoopHead init && mayHold kindOf Kind.isExpression test
      && mayHold kindOf Kind.isExpression update && holds kindOf Kind.isStatement body
  | forInStatement left right body _ =>
    holds kindOf Kind.isLoopHead left && holds kindOf Kind.isExpression right
      && holds kindOf Kind.isStatement body
  | expressionStatement e | throwStatement e | spreadElement e | updateExpression _ _ e =>
    holds kindOf Kind.isExpression e
  | switchStatement discriminant cases =>
    holds kindOf Kind.isExpression discriminant && listHolds kindOf (· == .switchCase) cases
  | switchCase test consequent =>
    mayHold kindOf Kind.isExpression test && listHolds kindOf Kind.isStatement consequent
  | tryStatement block param handler finalizer =>
    holds kindOf (· == .blockStatement) block && mayHold kindOf Kind.isExpression param
      && mayHold kindOf (· == .blockStatement) handler
      && mayHold kindOf (· == .blockStatement) finalizer
      && (handler.isSome || finalizer.isSome)
  | labeledStatement _ body => holds kindOf Kind.isStatement body
  | taggedTemplateExpression tag quasi =>
    holds kindOf Kind.isExpression tag && holds kindOf (· == .templateLiteral) quasi
  | arrayExpression elements => elements.all (mayHold kindOf Kind.isExpression)
  | objectExpression properties => listHolds kindOf (· == .property) properties
  | property key value kind _ _ _ =>
    match kind with
    | .spread => key.isNone && holds kindOf Kind.isExpression value
    | .init => holds kindOf Kind.isExpression key && holds kindOf Kind.isExpression value
    | .field => holds kindOf Kind.isExpression key && mayHold kindOf Kind.isExpression value
    | .get | .set | .method =>
      holds kindOf Kind.isExpression key && holds kindOf (· == .functionExpression) value
  | arrowFunctionExpression params body _ =>
    listHolds kindOf Kind.isExpression params && holds kindOf Kind.isArrowBody body
  | unaryExpression op argument =>
    (Print.isYield op && argument.isNone) || holds kindOf Kind.isExpression argument
  | binaryExpression op left right =>
    Print.operatorLevel op != 0 && holds kindOf Kind.isExpression left
      && holds kindOf Kind.isExpression right
  | assignmentExpression _ left right =>
    holds kindOf Kind.isExpression left && holds kindOf Kind.isExpression right
  | conditionalExpression test consequent alternate =>
    holds kindOf Kind.isExpression test && holds kindOf Kind.isExpression consequent
      && holds kindOf Kind.isExpression alternate
  | callExpression callee arguments _ | newExpression callee arguments =>
    holds kindOf Kind.isExpression callee && listHolds kindOf Kind.isExpression arguments
  | memberExpression object name computed _ =>
    holds kindOf Kind.isExpression object && holds kindOf Kind.isExpression name
      && (computed || holds kindOf (· == .identifier) name)
  | sequenceExpression expressions =>
    !expressions.isEmpty && listHolds kindOf Kind.isExpression expressions
  | _ => true

section Mono

variable {want : Kind → Bool} {kindOf₁ kindOf₂ : α → Option Kind}
  (hkind : ∀ a k, kindOf₁ a = some k → kindOf₂ a = some k)
include hkind

lemma holds_mono {slot : Option α} (h : holds kindOf₁ want slot = true) :
    holds kindOf₂ want slot = true := by
  obtain ⟨k, hk, hwant⟩ := (Option.any_eq_true ..).mp h
  obtain ⟨a, rfl, ha⟩ := Option.bind_eq_some_iff.mp hk
  simp [holds, hkind a k ha, hwant]

lemma mayHold_mono {slot : Option α} (h : mayHold kindOf₁ want slot = true) :
    mayHold kindOf₂ want slot = true := by
  cases slot with
  | none => rfl
  | some a => exact holds_mono hkind (by simpa [mayHold] using h)

lemma listHolds_mono {slots : List (Option α)} (h : listHolds kindOf₁ want slots = true) :
    listHolds kindOf₂ want slots = true :=
  List.all_eq_true.mpr fun slot hs => holds_mono hkind (List.all_eq_true.mp h slot hs)

lemma isFormed_mono {p : Payload α} (h : p.isFormed kindOf₁ = true) : p.isFormed kindOf₂ = true := by
  have hone {want} {slot : Option α} := @holds_mono α want kindOf₁ kindOf₂ hkind slot
  have hmay {want} {slot : Option α} := @mayHold_mono α want kindOf₁ kindOf₂ hkind slot
  have hmany {want} {slots : List (Option α)} := @listHolds_mono α want kindOf₁ kindOf₂ hkind slots
  cases p with
  | arrayExpression elements =>
    exact List.all_eq_true.mpr fun slot hs => hmay (List.all_eq_true.mp h slot hs)
  | property key value kind =>
    cases kind <;> simp_all [isFormed]
  | unaryExpression op argument => exact (Bool.or_eq_true ..).mpr (((Bool.or_eq_true ..).mp h).imp_right hone)
  | memberExpression object name computed =>
    simp only [isFormed, Bool.and_eq_true, Bool.or_eq_true] at h ⊢
    exact ⟨h.1.imp hone hone, h.2.imp_right hone⟩
  | _ => simp_all [isFormed]

end Mono

section Kinds

variable {kindOf : α → Option Kind} {want : Kind → Bool} {c : α} {slot : Option α} {slots : List (Option α)}

lemma kind_of_holds (h : holds kindOf want slot = true) (hc : c ∈ (Slot.one slot).children) :
    ∃ k, kindOf c = some k ∧ want k = true := by
  obtain rfl : slot = some c := by simpa [Slot.children] using hc
  exact (Option.any_eq_true ..).mp h

lemma kind_of_mayHold (h : mayHold kindOf want slot = true) (hc : c ∈ (Slot.one slot).children) :
    ∃ k, kindOf c = some k ∧ want k = true := by
  obtain rfl : slot = some c := by simpa [Slot.children] using hc
  exact kind_of_holds (by simpa [mayHold] using h) hc

lemma kind_of_all_mayHold (h : slots.all (mayHold kindOf want) = true) (hc : c ∈ (Slot.many slots).children) :
    ∃ k, kindOf c = some k ∧ want k = true := by
  have hslot : some c ∈ slots := by simpa [Slot.children] using hc
  exact kind_of_mayHold (List.all_eq_true.mp h _ hslot) (by simp [Slot.children])

lemma kind_of_listHolds (h : listHolds kindOf want slots = true) (hc : c ∈ (Slot.many slots).children) :
    ∃ k, kindOf c = some k ∧ want k = true := by
  have hslot : some c ∈ slots := by simpa [Slot.children] using hc
  exact kind_of_holds (List.all_eq_true.mp h _ hslot) (by simp [Slot.children])

lemma imp_of_wanted {A : Prop} (h : ∃ k, kindOf c = some k ∧ want k = true)
    (hwant : ∀ k, want k = true → k.isPlainStatement = true → A) :
    ∃ k, kindOf c = some k ∧ (k.isPlainStatement = true → A) := by
  obtain ⟨k, hk, hw⟩ := h
  exact ⟨k, hk, hwant k hw⟩

lemma not_wanted {A : Prop} (hwant : ∀ k : Kind, k.isPlainStatement = true → want k = false) (k : Kind)
    (hw : want k = true) (hk : k.isPlainStatement = true) : A := by
  simp [hwant k hk] at hw

/-- What stands in a slot of a formed node has a kind. If it is a plain statement, then the slot is for
statements, and the node is no expression. -/
lemma kind_of_isFormed {p : Payload α} (h : p.isFormed kindOf = true) {role : Role} {slot : Slot α}
    (hs : (role, slot) ∈ p.slots) (hc : c ∈ slot.children) : ∃ k, kindOf c = some k ∧
      (k.isPlainStatement = true → role.takesStatement = true ∧ p.kind.isExpression = false) := by
  cases p with
  | property key value kind =>
    cases kind
    all_goals
      simp only [isFormed, Bool.and_eq_true] at h
      casesm* _ ∧ _
      rcases hs with _ | ⟨_, _ | ⟨_, ⟨⟩⟩⟩
      all_goals
        first
        | exact imp_of_wanted (kind_of_holds ‹_› hc) (not_wanted (by intro k; cases k <;> decide))
        | exact imp_of_wanted (kind_of_mayHold ‹_› hc) (not_wanted (by intro k; cases k <;> decide))
        | simp_all [Slot.children]
  | unaryExpression op argument =>
    obtain _ | ⟨_, ⟨⟩⟩ := hs
    obtain h | h := (Bool.or_eq_true ..).mp h
    · simp_all [Slot.children]
    · exact imp_of_wanted (kind_of_holds h hc) (not_wanted (by intro k; cases k <;> decide))
  | _ =>
    simp only [isFormed, Bool.and_eq_true] at h
    try casesm* _ ∧ _
    repeat' rcases hs with _ | ⟨_, hs⟩
    -- A slot is for statements, or no plain statement is wanted in it.
    all_goals
      first
      | exact imp_of_wanted (kind_of_holds ‹_› hc)
          (by first | exact fun _ _ _ => ⟨rfl, rfl⟩ | exact not_wanted (by intro k; cases k <;> decide))
      | exact imp_of_wanted (kind_of_mayHold ‹_› hc)
          (by first | exact fun _ _ _ => ⟨rfl, rfl⟩ | exact not_wanted (by intro k; cases k <;> decide))
      | exact imp_of_wanted (kind_of_listHolds ‹_› hc)
          (by first | exact fun _ _ _ => ⟨rfl, rfl⟩ | exact not_wanted (by intro k; cases k <;> decide))
      | exact imp_of_wanted (kind_of_all_mayHold ‹_› hc) (not_wanted (by intro k; cases k <;> decide))

end Kinds

end Payload

namespace Tree

/-- Every node of the tree is formed. -/
inductive Formed : Tree → Prop
  | mk (node : Node Tree) (h : node.payload.isFormed (fun t => some t.kind) = true)
      (children : ∀ c ∈ node.payload.children, Formed c) : Formed (.mk node)

/-- A formed tree of a kind that is wanted. -/
def Is (want : Kind → Bool) (t : Tree) : Prop := t.Formed ∧ want t.kind = true

variable {want want' : Kind → Bool} {t : Tree} {ts : List Tree} {slot : Option Tree}
  {slots : List (Option Tree)} {p : Payload Tree}

lemma Is.mono (h : t.Is want) (hwant : ∀ k, want k = true → want' k = true) : t.Is want' :=
  ⟨h.1, hwant _ h.2⟩

open Classical in
/-- The kind of a formed tree. -/
noncomputable def formedKind (t : Tree) : Option Kind := if t.Formed then some t.kind else none

lemma holds_iff : Payload.holds formedKind want slot = true ↔ ∃ t, slot = some t ∧ t.Is want := by
  cases slot with
  | none => simp [Payload.holds]
  | some t => by_cases h : t.Formed <;> simp [Payload.holds, formedKind, Is, h]

@[simp] lemma holds_some : Payload.holds formedKind want (some t) = true ↔ t.Is want := by
  simp [holds_iff]

@[simp] lemma mayHold_some : Payload.mayHold formedKind want (some t) = true ↔ t.Is want := by
  simp [Payload.mayHold]

@[simp] lemma mayHold_none : Payload.mayHold formedKind want none = true := rfl

@[simp] lemma listHolds_some :
    Payload.listHolds formedKind want (ts.map some) = true ↔ ∀ t ∈ ts, t.Is want := by
  simp [Payload.listHolds]

/-- What the kind of formed trees says of a payload, the kinds of all trees say too. -/
lemma isFormed_kind (h : p.isFormed formedKind = true) : p.isFormed (fun t => some t.kind) = true := by
  refine Payload.isFormed_mono (fun t k hk => ?_) h
  by_cases ht : t.Formed <;> simp_all [formedKind]

/-- The slots of a formed node hold formed trees. -/
lemma formed_of_mem (h : p.isFormed formedKind = true) {c : Tree} (hc : c ∈ p.children) : c.Formed := by
  obtain ⟨⟨role, slot⟩, hs, hc⟩ := List.mem_flatMap.mp hc
  obtain ⟨k, hk, -⟩ := Payload.kind_of_isFormed h hs hc
  by_contra hnot
  simp [formedKind, hnot] at hk

lemma Is.node {node : Node Tree} (hwant : want node.payload.kind = true)
    (h : node.payload.isFormed formedKind = true) : (Tree.mk node).Is want :=
  ⟨.mk _ (isFormed_kind h) fun _ hc => formed_of_mem h hc, hwant⟩

lemma Is.withLeading {comments : List Text} (h : t.Is want) : (t.withLeading comments).Is want := by
  obtain ⟨⟨node, hnode, hchildren⟩, hwant⟩ := h
  exact ⟨.mk _ hnode hchildren, hwant⟩

end Tree
end PlainScript
