import PlainScript.Proofs.Formed
import PlainScript.Arena

/-! What statements without declarations mean. An evaluator gives every expression a value or throws, and
changes a state; only the literals `true` and `false` are known to do nothing. The meaning of a statement
says which evaluations lead from a state to another, and how the statement ends. A run may be stopped in
front of any evaluation, so that one that goes on for ever is known by its beginnings. -/
namespace PlainScript

inductive Expression
  | literal (value : Bool)
  | node (id : NodeId)
  deriving DecidableEq, Repr

/-- A branch that is missing is empty, and a part of a loop that is missing is `true`. The clauses of a
switch are given by their tests, none for the default, and by their bodies. -/
inductive Statement
  | block (body : List Statement)
  | branch (test : Expression) (taken otherwise : Statement)
  | loop (init test update : Expression) (body : Statement)
  | doWhile (body : Statement) (test : Expression)
  | switch (discriminant : Expression) (tests : List (Option Expression)) (bodies : List Statement)
  | labeled (label : Text) (body : Statement)
  | breaking (label : Text)
  | continuing (label : Text)
  | returning (argument : Option Expression)
  | throwing (argument : Expression)
  | evaluating (e : Expression)
  | empty

/-- How a statement ends. A jump without a label has the empty one. -/
inductive Completion (V : Type)
  | normal
  | breaking (label : Text)
  | continuing (label : Text)
  | returned (value : Option V)
  | thrown (value : V)
  | stopped
  deriving DecidableEq

/-- How expressions are evaluated, with a value or what is thrown for an answer. -/
structure Evaluator (σ V : Type) where
  evaluates : NodeId → σ → σ → Except V V → Prop
  ofBool : Bool → V
  truth : V → Bool
  same : V → V → Bool
  truth_ofBool : ∀ b, truth (ofBool b) = b

/-- From a state to another with some evaluations, each with the state that it finds, to an end. -/
abbrev Behavior (σ V : Type) := σ → List (NodeId × σ) → σ → Completion V → Prop

section Behavior

variable {σ V : Type}

inductive Evaluates (E : Evaluator σ V) :
    Expression → σ → List (NodeId × σ) → σ → Except (Completion V) V → Prop
  | literal (b : Bool) (s : σ) : Evaluates E (.literal b) s [] s (.ok (E.ofBool b))
  | value {id : NodeId} {s s' : σ} {v : V} (h : E.evaluates id s s' (.ok v)) :
      Evaluates E (.node id) s [(id, s)] s' (.ok v)
  | thrown {id : NodeId} {s s' : σ} {v : V} (h : E.evaluates id s s' (.error v)) :
      Evaluates E (.node id) s [(id, s)] s' (.error (.thrown v))
  | stopped (id : NodeId) (s : σ) : Evaluates E (.node id) s [] s (.error .stopped)

/-- Nothing is evaluated. -/
inductive Ends (c : Completion V) : Behavior σ V
  | mk (s : σ) : Ends c s [] s c

/-- An evaluation and what follows from its value. -/
inductive With (E : Evaluator σ V) (e : Expression) (next : V → Behavior σ V) : Behavior σ V
  | value {s s₁ s₂ : σ} {tr tr' : List (NodeId × σ)} {v : V} {c : Completion V}
      (he : Evaluates E e s tr s₁ (.ok v)) (hnext : next v s₁ tr' s₂ c) :
      With E e next s (tr ++ tr') s₂ c
  | abrupt {s s₁ : σ} {tr : List (NodeId × σ)} {c : Completion V}
      (he : Evaluates E e s tr s₁ (.error c)) : With E e next s tr s₁ c

/-- One behavior after the other, if the first one ends normally. -/
inductive Seq (first second : Behavior σ V) : Behavior σ V
  | normal {s s₁ s₂ : σ} {tr tr' : List (NodeId × σ)} {c : Completion V}
      (hfirst : first s tr s₁ .normal) (hsecond : second s₁ tr' s₂ c) :
      Seq first second s (tr ++ tr') s₂ c
  | abrupt {s s₁ : σ} {tr : List (NodeId × σ)} {c : Completion V} (hfirst : first s tr s₁ c)
      (hc : c ≠ .normal) : Seq first second s tr s₁ c

def sequence : List (Behavior σ V) → Behavior σ V
  | [] => Ends .normal
  | m :: rest => Seq m (sequence rest)

/-- A break is the normal end of what it leaves. -/
inductive Catches (label : Text) (m : Behavior σ V) : Behavior σ V
  | caught {s s' : σ} {tr : List (NodeId × σ)} (h : m s tr s' (.breaking label)) :
      Catches label m s tr s' .normal
  | passed {s s' : σ} {tr : List (NodeId × σ)} {c : Completion V} (h : m s tr s' c)
      (hc : c ≠ .breaking label) : Catches label m s tr s' c

/-- A loop with some labels goes on to its next round. -/
def Completion.goesOn (labels : List Text) : Completion V → Bool
  | normal => true
  | continuing label => label.isEmpty || labels.contains label
  | _ => false

inductive RoundStage
  | test
  | body
  | update

/-- The rounds of a loop, from one of the stages of a round on. -/
inductive Rounds (E : Evaluator σ V) (labels : List Text) (test update : Expression)
    (body : Behavior σ V) : RoundStage → Behavior σ V
  | exit {s s₁ : σ} {tr : List (NodeId × σ)} {v : V} (he : Evaluates E test s tr s₁ (.ok v))
      (hv : E.truth v = false) : Rounds E labels test update body .test s tr s₁ .normal
  | enter {s s₁ s₂ : σ} {tr tr' : List (NodeId × σ)} {v : V} {c : Completion V}
      (he : Evaluates E test s tr s₁ (.ok v)) (hv : E.truth v = true)
      (h : Rounds E labels test update body .body s₁ tr' s₂ c) :
      Rounds E labels test update body .test s (tr ++ tr') s₂ c
  | testAbrupt {s s₁ : σ} {tr : List (NodeId × σ)} {c : Completion V}
      (he : Evaluates E test s tr s₁ (.error c)) : Rounds E labels test update body .test s tr s₁ c
  | next {s s₁ s₂ : σ} {tr tr' : List (NodeId × σ)} {c c' : Completion V} (hbody : body s tr s₁ c)
      (hc : c.goesOn labels = true) (h : Rounds E labels test update body .update s₁ tr' s₂ c') :
      Rounds E labels test update body .body s (tr ++ tr') s₂ c'
  | leave {s s₁ : σ} {tr : List (NodeId × σ)} {c : Completion V} (hbody : body s tr s₁ c)
      (hc : c.goesOn labels = false) : Rounds E labels test update body .body s tr s₁ c
  | updated {s s₁ s₂ : σ} {tr tr' : List (NodeId × σ)} {v : V} {c : Completion V}
      (he : Evaluates E update s tr s₁ (.ok v))
      (h : Rounds E labels test update body .test s₁ tr' s₂ c) :
      Rounds E labels test update body .update s (tr ++ tr') s₂ c
  | updateAbrupt {s s₁ : σ} {tr : List (NodeId × σ)} {c : Completion V}
      (he : Evaluates E update s tr s₁ (.error c)) :
      Rounds E labels test update body .update s tr s₁ c

/-- The clause that is run: the first one whose test is the value, or else the one at `fallback`. The
default has no test. -/
def select (E : Evaluator σ V) (v : V) (run : Nat → Behavior σ V) (fallback : Nat) :
    Nat → List (Option Expression) → Behavior σ V
  | _, [] => run fallback
  | i, none :: rest => select E v run fallback (i + 1) rest
  | i, some e :: rest =>
    With E e fun w => if E.same v w then run i else select E v run fallback (i + 1) rest

namespace Statement

mutual

/-- The meaning of a statement under the labels that stand directly before it. -/
def meaning (E : Evaluator σ V) : Statement → List Text → Behavior σ V
  | block body, _ => sequence (meanings E body)
  | branch test taken otherwise, _ =>
    With E test fun v => if E.truth v then meaning E taken [] else meaning E otherwise []
  | loop init test update body, labels =>
    Catches [] (With E init fun _ => Rounds E labels test update (meaning E body []) .test)
  | doWhile body test, labels =>
    Catches [] (Rounds E labels test (.literal true) (meaning E body []) .body)
  | switch discriminant tests bodies, _ =>
    Catches [] (With E discriminant fun v =>
      select E v (fun i => sequence ((meanings E bodies).drop i)) (tests.idxOf none) 0 tests)
  | labeled label body, labels => Catches label (meaning E body (label :: labels))
  | breaking label, _ => Ends (.breaking label)
  | continuing label, _ => Ends (.continuing label)
  | returning none, _ => Ends (.returned none)
  | returning (some e), _ => With E e fun v => Ends (.returned (some v))
  | throwing e, _ => With E e fun v => Ends (.thrown v)
  | evaluating e, _ => With E e fun _ => Ends .normal
  | empty, _ => Ends .normal

def meanings (E : Evaluator σ V) : List Statement → List (Behavior σ V)
  | [] => []
  | s :: rest => meaning E s [] :: meanings E rest

end

end Statement

end Behavior

/-! ### Statements of an arena -/

/-- What a node is read as. -/
inductive Reading
  | expression (e : Expression)
  | statement (s : Statement)
  | clause (test : Option Expression) (body : Statement)

namespace Reading

def expression? : Reading → Option Expression
  | expression e => some e
  | _ => none

def statement? : Reading → Option Statement
  | statement s => some s
  | _ => none

def clause? : Reading → Option (Option Expression × Statement)
  | clause test body => some (test, body)
  | _ => none

end Reading

namespace Payload

variable (read : NodeId → Option Reading)

def expressionIn (slot : Option NodeId) : Option Expression := (slot.bind read).bind Reading.expression?

def statementIn (slot : Option NodeId) : Option Statement := (slot.bind read).bind Reading.statement?

def clauseIn (slot : Option NodeId) : Option (Option Expression × Statement) :=
  (slot.bind read).bind Reading.clause?

/-- What may be missing. -/
def orMissing {α : Type} (missing : α) (present : Option NodeId → Option α) :
    Option NodeId → Option α
  | none => some missing
  | slot => present slot

/-- What the node under a number is read as, given what its children are read as. -/
def reading? (id : NodeId) : Payload NodeId → Option Reading
  | program body | blockStatement body => do
    return .statement (.block (← body.mapM (statementIn read)))
  | ifStatement test consequent alternate => do
    return .statement (.branch (← expressionIn read test) (← statementIn read consequent)
      (← orMissing .empty (statementIn read) alternate))
  | whileStatement test body => do
    return .statement (.loop (.literal true) (← expressionIn read test) (.literal true)
      (← statementIn read body))
  | doWhileStatement body test => do
    return .statement (.doWhile (← statementIn read body) (← expressionIn read test))
  | forStatement init test update body => do
    let part := orMissing (.literal true) (expressionIn read)
    return .statement (.loop (← part init) (← part test) (← part update) (← statementIn read body))
  | switchStatement discriminant cases => do
    let discriminant ← expressionIn read discriminant
    let clauses ← cases.mapM (clauseIn read)
    return .statement (.switch discriminant (clauses.map (·.1)) (clauses.map (·.2)))
  | switchCase test consequent => do
    return .clause (← orMissing none (fun slot => some <$> expressionIn read slot) test)
      (.block (← consequent.mapM (statementIn read)))
  | labeledStatement label body => do return .statement (.labeled label (← statementIn read body))
  | breakStatement label => some (.statement (.breaking label))
  | continueStatement label => some (.statement (.continuing label))
  | returnStatement argument => do
    return .statement (.returning
      (← orMissing none (fun slot => some <$> expressionIn read slot) argument))
  | throwStatement argument => do return .statement (.throwing (← expressionIn read argument))
  | expressionStatement e => do return .statement (.evaluating (← expressionIn read e))
  | emptyStatement => some (.statement .empty)
  | booleanLiteral value => some (.expression (.literal value))
  | p => if p.kind.isExpression then some (.expression (.node id)) else none

end Payload

namespace Arena

def readUpTo (a : Arena) : Nat → NodeId → Option Reading
  | 0, _ => none
  | n + 1, id => (a.payload? id).bind (Payload.reading? (a.readUpTo n) id)

/-- The tree as a statement, if it has no declarations and no other kinds of statement than these. -/
def statement? (a : Arena) : Option Statement :=
  a.root.bind fun root => (a.readUpTo a.size root).bind Reading.statement?

end Arena

end PlainScript
