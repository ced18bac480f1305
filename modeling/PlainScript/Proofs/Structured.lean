import PlainScript.Proofs.Readings

/-! Trees of statements without declarations. Each slot of such a statement is filled with what its role asks
for, so that the statement can be read once its children can be read. -/
namespace PlainScript

/-- The kinds of statements that have a meaning, with the clauses of a `switch`. -/
def Kind.isStructured : Kind → Bool
  | program | blockStatement | ifStatement | whileStatement | doWhileStatement | forStatement
  | switchStatement | switchCase | labeledStatement | breakStatement | continueStatement
  | returnStatement | throwStatement | expressionStatement | emptyStatement => true
  | _ => false

/-- A tree of such statements, with expressions of any form. -/
def Tree.isStructured (t : Tree) : Bool :=
  t.fold fun node => node.payload.kind.isExpression ||
    (node.payload.kind.isStructured && node.payload.children.all id)

/-- What is asked for in a slot of such a statement. -/
def Role.asksFor : Role → Kind → Bool
  | expression | optionalExpression => Kind.isExpression
  | statement | optionalStatement | statementList => Kind.isStatement
  | nodeList => (· == .switchCase)

def Role.isOptional : Role → Bool
  | optionalExpression | optionalStatement => true
  | _ => false

/-- What nodes of a kind are read as. -/
def Reading.suits : Reading → Kind → Bool
  | expression _ => Kind.isExpression
  | statement _ => fun k => k.isStatement || k == .program
  | clause .. => (· == .switchCase)

/-- What stands in a slot has the property, and only an optional slot is empty. -/
def Slot.Filled {α : Type} (role : Role) (P : α → Prop) : Slot α → Prop
  | .one none => role.isOptional = true
  | .one (some c) => P c
  | .many cs => ∀ c ∈ cs, ∃ x, c = some x ∧ P x

namespace Tree

lemma isStructured_mk (node : Node Tree) : (mk node).isStructured = (node.payload.kind.isExpression ||
    (node.payload.kind.isStructured && node.payload.children.all isStructured)) := by
  rw [isStructured, fold_mk]
  dsimp only
  rw [kind_foldPayload, children_foldPayload, List.all_map]
  rfl

lemma isExpression_of_isLoopHead {t : Tree} (h : t.isStructured = true) (hhead : t.kind.isLoopHead = true) :
    t.kind.isExpression = true := by
  obtain ⟨node⟩ := t
  refine ((Bool.or_eq_true ..).mp hhead).resolve_right fun hdeclaration => ?_
  have hkind : node.payload.kind = .variableDeclaration := beq_iff_eq.mp hdeclaration
  rw [isStructured_mk, hkind] at h
  cases h

end Tree

namespace Payload

/-! ### Formed statements -/

section Formed

variable {want : Kind → Bool} {role : Role} {slot : Option Tree} {slots : List (Option Tree)}

lemma filled_of_holds (h : holds (fun t : Tree => some t.kind) want slot = true)
    (hwant : ∀ t ∈ slot, want t.kind = true → role.asksFor t.kind = true) :
    (Slot.one slot).Filled role fun t => role.asksFor t.kind = true := by
  cases slot with
  | none => cases h
  | some t => exact hwant t rfl h

lemma filled_of_mayHold (h : mayHold (fun t : Tree => some t.kind) want slot = true)
    (hrole : role.isOptional = true) (hwant : ∀ t ∈ slot, want t.kind = true → role.asksFor t.kind = true) :
    (Slot.one slot).Filled role fun t => role.asksFor t.kind = true := by
  cases slot with
  | none => exact hrole
  | some t => exact hwant t rfl h

lemma filled_of_listHolds (h : listHolds (fun t : Tree => some t.kind) want slots = true)
    (hwant : ∀ k, want k = true → role.asksFor k = true) :
    (Slot.many slots).Filled role fun t => role.asksFor t.kind = true := by
  intro c hc
  have hc := List.all_eq_true.mp h c hc
  cases c with
  | none => cases hc
  | some t => exact ⟨t, rfl, hwant _ hc⟩

/-- The slots of a formed statement are filled. -/
lemma filled_of_isFormed {p : Payload Tree} (h : p.isFormed (fun t => some t.kind) = true)
    (hkind : p.kind.isStructured = true) (hchildren : ∀ c ∈ p.children, c.isStructured = true) {slot : Slot Tree}
    (hslot : (role, slot) ∈ p.slots) : slot.Filled role fun t => role.asksFor t.kind = true := by
  cases p with
  | forStatement init test update body =>
    simp only [isFormed, Bool.and_eq_true] at h
    casesm* _ ∧ _
    rcases hslot with _ | ⟨_, _ | ⟨_, _ | ⟨_, _ | ⟨_, ⟨⟩⟩⟩⟩⟩
    -- The head of the loop is no declaration.
    · exact filled_of_mayHold ‹_› rfl fun t ht =>
        Tree.isExpression_of_isLoopHead (hchildren t (List.mem_flatMap.mpr ⟨_, .head _, by simpa using ht⟩))
    · exact filled_of_mayHold ‹_› rfl fun _ _ => id
    · exact filled_of_mayHold ‹_› rfl fun _ _ => id
    · exact filled_of_holds ‹_› fun _ _ => id
  | program | blockStatement | ifStatement | whileStatement | doWhileStatement | switchStatement | switchCase
  | labeledStatement | breakStatement | continueStatement | returnStatement | throwStatement
  | expressionStatement | emptyStatement =>
    simp only [isFormed, Bool.and_eq_true] at h
    try casesm* _ ∧ _
    repeat' rcases hslot with _ | ⟨_, hslot⟩
    all_goals
      first
      | exact filled_of_holds ‹_› fun _ _ => id
      | exact filled_of_mayHold ‹_› rfl fun _ _ => id
      | exact filled_of_listHolds ‹_› fun _ => id
  | _ => cases hkind

end Formed

/-! ### Reading -/

section Reading

variable {read : NodeId → Option Reading} {role : Role} {c : Option NodeId} {cs : List (Option NodeId)}

/-- Some reading of the node is what a slot of that role asks for. -/
def ReadFor (read : NodeId → Option Reading) (role : Role) (x : NodeId) : Prop :=
  ∃ r k, read x = some r ∧ r.suits k = true ∧ role.asksFor k = true

lemma ReadFor.expression {x : NodeId} (h : ReadFor read role x) (hrole : role.asksFor = Kind.isExpression) :
    ∃ e, expressionIn read (some x) = some e := by
  obtain ⟨r, k, hr, hsuits, hk⟩ := h
  rw [hrole] at hk
  cases r with
  | expression e => exact ⟨e, by simp [expressionIn, hr, Reading.expression?]⟩
  | statement s => cases k <;> simp_all [Reading.suits, Kind.isExpression]
  | clause => cases k <;> simp_all [Reading.suits, Kind.isExpression]

lemma ReadFor.statement {x : NodeId} (h : ReadFor read role x) (hrole : role.asksFor = Kind.isStatement) :
    ∃ s, statementIn read (some x) = some s := by
  obtain ⟨r, k, hr, hsuits, hk⟩ := h
  rw [hrole] at hk
  cases r with
  | statement s => exact ⟨s, statementIn_some.mpr hr⟩
  | expression => cases k <;> simp_all [Reading.suits, Kind.isExpression]
  | clause => cases k <;> simp_all [Reading.suits, Kind.isStatement]

lemma ReadFor.clause {x : NodeId} (h : ReadFor read .nodeList x) : ∃ clause, clauseIn read (some x) = some clause := by
  obtain ⟨r, k, hr, hsuits, hk⟩ := h
  obtain rfl : k = .switchCase := by simpa [Role.asksFor] using hk
  cases r with
  | clause test body => exact ⟨(test, body), by simp [clauseIn, hr, Reading.clause?]⟩
  | _ => cases hsuits

lemma expressionIn_of_filled (h : (Slot.one c).Filled .expression (ReadFor read .expression)) :
    ∃ e, expressionIn read c = some e := by
  cases c with
  | none => cases h
  | some x => exact ReadFor.expression h rfl

lemma part_of_filled (h : (Slot.one c).Filled .optionalExpression (ReadFor read .optionalExpression)) {α : Type}
    (missing : α) (g : Option Expression → Option α) (hg : ∀ e, (g (some e)).isSome = true) :
    ∃ a, orMissing missing (fun slot => g (expressionIn read slot)) c = some a := by
  cases c with
  | none => exact ⟨missing, rfl⟩
  | some x =>
    obtain ⟨e, he⟩ := ReadFor.expression h rfl
    obtain ⟨a, ha⟩ := Option.isSome_iff_exists.mp (hg e)
    exact ⟨a, by rw [orMissing, he, ha]; exact Option.some_ne_none x⟩

lemma statementIn_of_filled (h : (Slot.one c).Filled .statement (ReadFor read .statement)) :
    ∃ s, statementIn read c = some s := by
  cases c with
  | none => cases h
  | some x => exact ReadFor.statement h rfl

lemma alternate_of_filled (h : (Slot.one c).Filled .optionalStatement (ReadFor read .optionalStatement)) :
    ∃ s, orMissing .empty (statementIn read) c = some s := by
  cases c with
  | none => exact ⟨.empty, rfl⟩
  | some x => exact ReadFor.statement h rfl

lemma mapM_of_forall {α : Type} {g : Option NodeId → Option α} (h : ∀ c ∈ cs, ∃ a, g c = some a) :
    ∃ as, cs.mapM g = some as := by
  induction cs with
  | nil => exact ⟨[], rfl⟩
  | cons c rest ih =>
    obtain ⟨a, ha⟩ := h c (by simp)
    obtain ⟨as, has⟩ := ih fun c hc => h c (by simp [hc])
    exact ⟨a :: as, by rw [List.mapM_cons, ha, has]; rfl⟩

lemma body_of_filled (h : (Slot.many cs).Filled .statementList (ReadFor read .statementList)) :
    ∃ ss, cs.mapM (statementIn read) = some ss :=
  mapM_of_forall fun c hc => by
    obtain ⟨x, rfl, hx⟩ := h c hc
    exact hx.statement rfl

lemma clauses_of_filled (h : (Slot.many cs).Filled .nodeList (ReadFor read .nodeList)) :
    ∃ clauses, cs.mapM (clauseIn read) = some clauses :=
  mapM_of_forall fun c hc => by
    obtain ⟨x, rfl, hx⟩ := h c hc
    exact hx.clause

/-- A statement can be read if all its slots are filled with what can be read. -/
theorem reading_of_filled {q : Payload NodeId} (x : NodeId) (hkind : q.kind.isStructured = true)
    (hslots : ∀ role slot, (role, slot) ∈ q.slots → slot.Filled role (ReadFor read role)) :
    ∃ r, q.reading? read x = some r ∧ r.suits q.kind = true := by
  cases q with
  | program body | blockStatement body =>
    obtain ⟨ss, hss⟩ := body_of_filled (hslots _ _ (.head _))
    exact ⟨_, by rw [reading?, hss]; rfl, rfl⟩
  | ifStatement test consequent alternate =>
    obtain ⟨e, he⟩ := expressionIn_of_filled (hslots _ _ (.head _))
    obtain ⟨s, hs⟩ := statementIn_of_filled (hslots _ _ (.tail _ (.head _)))
    obtain ⟨t, ht⟩ := alternate_of_filled (hslots _ _ (.tail _ (.tail _ (.head _))))
    exact ⟨_, by rw [reading?, he, hs, ht]; rfl, rfl⟩
  | whileStatement test body =>
    obtain ⟨e, he⟩ := expressionIn_of_filled (hslots _ _ (.head _))
    obtain ⟨s, hs⟩ := statementIn_of_filled (hslots _ _ (.tail _ (.head _)))
    exact ⟨_, by rw [reading?, he, hs]; rfl, rfl⟩
  | doWhileStatement body test =>
    obtain ⟨s, hs⟩ := statementIn_of_filled (hslots _ _ (.head _))
    obtain ⟨e, he⟩ := expressionIn_of_filled (hslots _ _ (.tail _ (.head _)))
    exact ⟨_, by rw [reading?, hs, he]; rfl, rfl⟩
  | forStatement init test update body =>
    have hpart {c : Option NodeId} (hc : (Slot.one c).Filled .optionalExpression (ReadFor read .optionalExpression)) :
        ∃ e, orMissing (.literal true) (expressionIn read) c = some e := part_of_filled hc _ id fun _ => rfl
    obtain ⟨e, he⟩ := hpart (hslots _ _ (.head _))
    obtain ⟨e', he'⟩ := hpart (hslots _ _ (.tail _ (.head _)))
    obtain ⟨e'', he''⟩ := hpart (hslots _ _ (.tail _ (.tail _ (.head _))))
    obtain ⟨s, hs⟩ := statementIn_of_filled (hslots _ _ (.tail _ (.tail _ (.tail _ (.head _)))))
    exact ⟨.statement (.loop e e' e'' s), by simp [reading?, he, he', he'', hs], rfl⟩
  | switchStatement discriminant cases =>
    obtain ⟨e, he⟩ := expressionIn_of_filled (hslots _ _ (.head _))
    obtain ⟨clauses, hclauses⟩ := clauses_of_filled (hslots _ _ (.tail _ (.head _)))
    exact ⟨_, by rw [reading?, he, hclauses]; rfl, rfl⟩
  | switchCase test consequent =>
    obtain ⟨e, he⟩ := part_of_filled (hslots _ _ (.head _)) none (Option.map some) fun _ => rfl
    obtain ⟨ss, hss⟩ := body_of_filled (hslots _ _ (.tail _ (.head _)))
    exact ⟨.clause e (.block ss), by simp [reading?, he, hss], rfl⟩
  | labeledStatement label body =>
    obtain ⟨s, hs⟩ := statementIn_of_filled (hslots _ _ (.head _))
    exact ⟨_, by rw [reading?, hs]; rfl, rfl⟩
  | returnStatement argument =>
    obtain ⟨e, he⟩ := part_of_filled (hslots _ _ (.head _)) none (Option.map some) fun _ => rfl
    exact ⟨.statement (.returning e), by simp [reading?, he], rfl⟩
  | throwStatement argument | expressionStatement argument =>
    obtain ⟨e, he⟩ := expressionIn_of_filled (hslots _ _ (.head _))
    exact ⟨_, by rw [reading?, he]; rfl, rfl⟩
  | breakStatement | continueStatement | emptyStatement => exact ⟨_, rfl, rfl⟩
  | _ => cases hkind

lemma reading_of_isExpression {q : Payload NodeId} (x : NodeId) (hkind : q.kind.isExpression = true) :
    ∃ r, q.reading? read x = some r ∧ r.suits q.kind = true := by
  cases q with
  | booleanLiteral value => exact ⟨.expression (.literal value), rfl, rfl⟩
  | _ =>
    first
    | exact ⟨.expression (.node x), rfl, rfl⟩
    | cases hkind

end Reading

end Payload

end PlainScript
