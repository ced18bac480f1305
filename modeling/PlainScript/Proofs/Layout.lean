import PlainScript.Grammar.Expression
import PlainScript.Print.Operator
import PlainScript.Proofs.Pieces
import PlainScript.Proofs.TreeInduction

/-! Expressions made of operators, and the pieces they are written in. The layout of an expression is
computed from those of its operands: an operand that binds too loosely for its place gets
parentheses. -/
namespace PlainScript

open Print

/-- The lexer reads a text as one identifier. -/
def IsName (name : Text) : Prop :=
  ∃ t last, tokenize name = .ok [t, last] ∧ t.kind = .identifier ∧ t.text = name

/-- The names that mean something else in some places. -/
def contextualNames : List Text := ["let", "async", "await", "yield"]

def signs : List Text := ["!", "~", "+", "-"]

def unaryWords : List Text := ["typeof", "void", "delete"]

def updateOperators : List Text := ["++", "--"]

def binaryOperators : List Text :=
  ["??", "||", "&&", "|", "^", "&", "==", "!=", "===", "!==", "<", ">", "<=", ">=", "in",
    "instanceof", "<<", ">>", ">>>", "+", "-", "*", "/", "%", "**"]

/-- The texts with a level are the binary operators. -/
lemma mem_binaryOperators {op : Text} (h : operatorLevel op ≠ 0) : op ∈ binaryOperators := by
  unfold operatorLevel at h
  simp only [List.contains_iff_mem] at h
  by_contra hop
  simp only [binaryOperators, List.mem_cons, List.not_mem_nil, or_false, not_or] at hop
  simp [hop] at h

/-- What an update or an assignment may change. -/
def IsReference (t : Tree) : Prop := t.kind = .identifier ∨ t.kind = .memberExpression

/-- Trees of names, literals without source text and operators. -/
inductive Operators : Tree → Prop
  | identifier {node : Node Tree} {name : Text} (h : node.payload = .identifier name)
      (hname : IsName name) (hplain : name ∉ contextualNames) : Operators (.mk node)
  | null {node : Node Tree} (h : node.payload = .nullLiteral) : Operators (.mk node)
  | boolean {node : Node Tree} {value : Bool} (h : node.payload = .booleanLiteral value) :
      Operators (.mk node)
  | this {node : Node Tree} (h : node.payload = .thisExpression) : Operators (.mk node)
  | string {node : Node Tree} {value : Text} (h : node.payload = .stringLiteral value []) :
      Operators (.mk node)
  | array {node : Node Tree} {elements : List (Option Tree)}
      (h : node.payload = .arrayExpression elements)
      (helements : ∀ e, some e ∈ elements → Operators e) : Operators (.mk node)
  | unary {node : Node Tree} {op : Text} {e : Tree} (h : node.payload = .unaryExpression op (some e))
      (hop : op ∈ signs ++ unaryWords) (he : Operators e) : Operators (.mk node)
  | update {node : Node Tree} {op : Text} {isPrefixed : Bool} {e : Tree}
      (h : node.payload = .updateExpression op isPrefixed (some e)) (hop : op ∈ updateOperators)
      (he : Operators e) (href : IsReference e) : Operators (.mk node)
  | binary {node : Node Tree} {op : Text} {l r : Tree}
      (h : node.payload = .binaryExpression op (some l) (some r)) (hop : operatorLevel op ≠ 0)
      (hl : Operators l) (hr : Operators r) : Operators (.mk node)
  | assignment {node : Node Tree} {op : Text} {l r : Tree}
      (h : node.payload = .assignmentExpression op (some l) (some r))
      (hop : op ∈ Grammar.assignmentOperators) (hl : Operators l) (href : IsReference l)
      (hr : Operators r) : Operators (.mk node)
  | conditional {node : Node Tree} {test yes no : Tree}
      (h : node.payload = .conditionalExpression (some test) (some yes) (some no))
      (htest : Operators test) (hyes : Operators yes) (hno : Operators no) : Operators (.mk node)
  | sequence {node : Node Tree} {es : List Tree}
      (h : node.payload = .sequenceExpression (es.map some)) (hlength : 2 ≤ es.length)
      (hes : ∀ e ∈ es, Operators e) : Operators (.mk node)
  | call {node : Node Tree} {callee : Tree} {args : List Tree}
      (h : node.payload = .callExpression (some callee) (args.map some) false)
      (hcallee : Operators callee) (hargs : ∀ e ∈ args, Operators e) : Operators (.mk node)
  | new {node : Node Tree} {callee : Tree} {args : List Tree}
      (h : node.payload = .newExpression (some callee) (args.map some))
      (hcallee : Operators callee) (hargs : ∀ e ∈ args, Operators e) : Operators (.mk node)
  | index {node : Node Tree} {object key : Tree}
      (h : node.payload = .memberExpression (some object) (some key) true false)
      (hobject : Operators object) (hkey : Operators key) : Operators (.mk node)
  | member {node : Node Tree} {object key : Tree} {name : Text}
      (h : node.payload = .memberExpression (some object) (some key) false false)
      (hobject : Operators object) (hkey : key.node.payload = .identifier name)
      (hname : IsName name) : Operators (.mk node)

/-! ### What is compared -/

/-- A payload without the spelling of a string. -/
def Payload.unspelled {α : Type} : Payload α → Payload α
  | .stringLiteral value _ => .stringLiteral value []
  | p => p

namespace Tree

/-- A tree without positions and without the spelling of its strings. -/
def unplaced (t : Tree) : Tree :=
  t.fold fun node => mk { node with payload := node.payload.unspelled, position := {} }

/-- A tree that has no comments either. -/
def bare (t : Tree) : Tree := t.fold fun node => mk { payload := node.payload.unspelled }

end Tree

/-! ### Layouts -/

/-- The pieces of an expression, and what decides whether it gets parentheses in its place: how tightly
it binds, its binary operator if it has one, and whether it is a call or a member of one. -/
structure Layout where
  pieces : List Piece := []
  level : Nat := Level.primary
  op : Text := []
  calls : Bool := false

/-- Pieces with a blank in front. -/
def spaced : List Piece → List Piece
  | [] => []
  | p :: ps => { p with margin := p.margin.spaced } :: ps

def inBrackets (opening : Text) (inner : List Piece) (closing : Text) : List Piece :=
  .punctuator opening :: (inner ++ [.punctuator closing])

/-- An operator or a keyword, whichever the spelling is. -/
def operatorPiece (op : Text) : Piece :=
  if isReservedWord op then .keyword op else .punctuator op

namespace Layout

def leaf (p : Piece) : Layout := { pieces := [p] }

/-- The pieces in a place where expressions bind at least as tightly as `least`. -/
def within (least : Nat) (x : Layout) : List Piece :=
  if x.level < least then inBrackets "(" x.pieces ")" else x.pieces

lemma within_of_le {x : Layout} {least : Nat} (h : least ≤ x.level) : x.within least = x.pieces :=
  if_neg (Nat.not_lt.mpr h)

/-- The level of the place next to an operator. -/
def beside (op : Text) (least : Nat) (x : Layout) : Nat :=
  if mustNotMix op x.op then Level.parenthesized else least

lemma beside_of_not_mix {op : Text} {least : Nat} {x : Layout} (h : mustNotMix op x.op = false) :
    x.beside op least = least := by
  simp [beside, h]

/-- Expressions with commas between them. A hole at the end has a comma of its own. -/
def list : List (Option Layout) → List Piece
  | [] => []
  | [some x] => x.within Level.assignment
  | none :: rest => .punctuator "," :: spaced (list rest)
  | some x :: rest => x.within Level.assignment ++ .punctuator "," :: spaced (list rest)

/-- The pieces behind a unary operator, which is kept apart from what it would run into. -/
def operand (op : Text) (x : Layout) : List Piece :=
  let inner := x.within Level.unary
  if isWordOperator op || (op == "-" || op == "+") && (spellings inner).head? == op.head? then
    spaced inner
  else inner

end Layout

open Layout in
/-- The layout of a node, given those of its children. -/
def layoutNode (node : Node Layout) : Layout :=
  match node.payload with
  | .identifier name => leaf { kind := .identifier, text := name }
  | .stringLiteral value _ => leaf { kind := .string value, text := quoted value }
  | .booleanLiteral value => leaf (.keyword (if value then "true" else "false"))
  | .nullLiteral => leaf (.keyword "null")
  | .thisExpression => leaf (.keyword "this")
  | .arrayExpression elements => { pieces := inBrackets "[" (list elements) "]" }
  | .unaryExpression op (some x) =>
    { pieces := operatorPiece op :: operand op x, level := Level.unary }
  | .updateExpression op true (some x) =>
    { pieces := .punctuator op :: x.within Level.unary, level := Level.unary }
  | .updateExpression op false (some x) =>
    { pieces := x.within Level.call ++ [.punctuator op], level := Level.postfixed }
  | .binaryExpression op (some l) (some r) =>
    let level := operatorLevel op
    let left := if op == "**" then Level.postfixed else l.beside op level
    let right := if op == "**" then level else r.beside op (level + 1)
    { pieces := l.within left ++ spaced [operatorPiece op] ++ spaced (r.within right), level, op }
  | .assignmentExpression op (some l) (some r) =>
    { pieces := l.within Level.postfixed ++ spaced [.punctuator op]
        ++ spaced (r.within Level.assignment)
      level := Level.assignment }
  | .conditionalExpression (some test) (some yes) (some no) =>
    { pieces := test.within (Level.conditional + 1) ++ spaced [.punctuator "?"]
        ++ spaced (yes.within Level.assignment) ++ spaced [.punctuator ":"]
        ++ spaced (no.within Level.assignment)
      level := Level.conditional }
  | .sequenceExpression es => { pieces := list es, level := Level.sequence }
  | .callExpression (some callee) args _ =>
    { pieces := callee.within Level.call ++ inBrackets "(" (list args) ")"
      level := Level.call, calls := true }
  | .newExpression (some callee) args =>
    { pieces := .keyword "new"
        :: spaced (callee.within (if callee.calls then Level.parenthesized else Level.call))
        ++ inBrackets "(" (list args) ")"
      level := Level.call }
  | .memberExpression (some object) (some key) computed _ =>
    { pieces := object.within Level.call
        ++ if computed then inBrackets "[" key.pieces "]" else .punctuator "." :: key.pieces
      level := Level.call, calls := object.calls }
  | _ => {}

namespace Tree

def layout (t : Tree) : Layout := t.fold layoutNode

@[simp] lemma fold_layoutNode (t : Tree) : t.fold layoutNode = t.layout := rfl

@[simp] lemma foldSlots_layoutNode (es : List Tree) :
    foldSlots layoutNode (es.map some) = es.map fun e => some e.layout := by
  simp [Function.comp_def]

lemma layout_mk (node : Node Tree) :
    (mk node).layout = layoutNode { node with payload := foldPayload layoutNode node.payload } :=
  fold_mk layoutNode node

lemma layout_eq (t : Tree) :
    t.layout = layoutNode { t.node with payload := foldPayload layoutNode t.node.payload } := by
  cases t
  exact layout_mk _

section Cases

variable {t : Tree}

lemma layout_identifier {name : Text} (h : t.node.payload = .identifier name) :
    t.layout = .leaf { kind := .identifier, text := name } := by
  rw [layout_eq, h]
  simp only [foldPayload, layoutNode]

lemma layout_null (h : t.node.payload = .nullLiteral) : t.layout = .leaf (.keyword "null") := by
  rw [layout_eq, h]
  simp only [foldPayload, layoutNode]

lemma layout_boolean {value : Bool} (h : t.node.payload = .booleanLiteral value) :
    t.layout = .leaf (.keyword (if value then "true" else "false")) := by
  rw [layout_eq, h]
  simp only [foldPayload, layoutNode]

lemma layout_this (h : t.node.payload = .thisExpression) : t.layout = .leaf (.keyword "this") := by
  rw [layout_eq, h]
  simp only [foldPayload, layoutNode]

lemma layout_string {value raw : Text} (h : t.node.payload = .stringLiteral value raw) :
    t.layout = .leaf { kind := .string value, text := quoted value } := by
  rw [layout_eq, h]
  simp only [foldPayload, layoutNode]

lemma layout_array {elements : List (Option Tree)} (h : t.node.payload = .arrayExpression elements) :
    t.layout = { pieces := inBrackets "[" (Layout.list (elements.map (Option.map layout))) "]" } := by
  rw [layout_eq, h]
  simp only [foldPayload, layoutNode, foldSlots_eq]
  rfl

lemma layout_unary {op : Text} {e : Tree} (h : t.node.payload = .unaryExpression op (some e)) :
    t.layout = { pieces := operatorPiece op :: e.layout.operand op, level := Level.unary } := by
  rw [layout_eq, h]
  simp [foldPayload, layoutNode]

lemma layout_prefixed {op : Text} {e : Tree} (h : t.node.payload = .updateExpression op true (some e)) :
    t.layout = { pieces := .punctuator op :: e.layout.within Level.unary, level := Level.unary } := by
  rw [layout_eq, h]
  simp [foldPayload, layoutNode]

lemma layout_postfixed {op : Text} {e : Tree}
    (h : t.node.payload = .updateExpression op false (some e)) : t.layout =
      { pieces := e.layout.within Level.call ++ [.punctuator op], level := Level.postfixed } := by
  rw [layout_eq, h]
  simp [foldPayload, layoutNode]

lemma layout_binary {op : Text} {l r : Tree}
    (h : t.node.payload = .binaryExpression op (some l) (some r)) (hop : op ≠ "**") : t.layout =
      { pieces := l.layout.within (l.layout.beside op (operatorLevel op)) ++ spaced [operatorPiece op]
          ++ spaced (r.layout.within (r.layout.beside op (operatorLevel op + 1)))
        level := operatorLevel op, op } := by
  rw [layout_eq, h]
  simp [foldPayload, layoutNode, hop]

lemma layout_power {l r : Tree} (h : t.node.payload = .binaryExpression "**" (some l) (some r)) :
    t.layout =
      { pieces := l.layout.within Level.postfixed ++ spaced [.punctuator "**"]
          ++ spaced (r.layout.within 15)
        level := 15, op := "**" } := by
  have hlevel : operatorLevel "**" = 15 := by decide
  have hpiece : operatorPiece "**" = .punctuator "**" := by rfl
  rw [layout_eq, h]
  simp [foldPayload, layoutNode, hlevel, hpiece]

lemma layout_assignment {op : Text} {l r : Tree}
    (h : t.node.payload = .assignmentExpression op (some l) (some r)) : t.layout =
      { pieces := l.layout.within Level.postfixed ++ spaced [.punctuator op]
          ++ spaced (r.layout.within Level.assignment)
        level := Level.assignment } := by
  rw [layout_eq, h]
  simp [foldPayload, layoutNode]

lemma layout_conditional {test yes no : Tree}
    (h : t.node.payload = .conditionalExpression (some test) (some yes) (some no)) : t.layout =
      { pieces := test.layout.within (Level.conditional + 1) ++ spaced [.punctuator "?"]
          ++ spaced (yes.layout.within Level.assignment) ++ spaced [.punctuator ":"]
          ++ spaced (no.layout.within Level.assignment)
        level := Level.conditional } := by
  rw [layout_eq, h]
  simp [foldPayload, layoutNode]

lemma layout_sequence {es : List Tree} (h : t.node.payload = .sequenceExpression (es.map some)) :
    t.layout =
      { pieces := Layout.list (es.map fun e => some e.layout), level := Level.sequence } := by
  rw [layout_eq, h]
  simp only [foldPayload, layoutNode, foldSlots_layoutNode]

lemma layout_call {callee : Tree} {args : List Tree} {optional : Bool}
    (h : t.node.payload = .callExpression (some callee) (args.map some) optional) : t.layout =
      { pieces := callee.layout.within Level.call
          ++ inBrackets "(" (Layout.list (args.map fun e => some e.layout)) ")"
        level := Level.call, calls := true } := by
  rw [layout_eq, h]
  simp only [foldPayload, layoutNode, foldSlots_layoutNode, foldSlot_eq, Option.map_some, fold_layoutNode]

lemma layout_new {callee : Tree} {args : List Tree}
    (h : t.node.payload = .newExpression (some callee) (args.map some)) : t.layout =
      { pieces := .keyword "new"
          :: spaced (callee.layout.within
            (if callee.layout.calls then Level.parenthesized else Level.call))
          ++ inBrackets "(" (Layout.list (args.map fun e => some e.layout)) ")"
        level := Level.call } := by
  rw [layout_eq, h]
  simp only [foldPayload, layoutNode, foldSlots_layoutNode, foldSlot_eq, Option.map_some, fold_layoutNode]

lemma layout_index {object key : Tree} {optional : Bool}
    (h : t.node.payload = .memberExpression (some object) (some key) true optional) : t.layout =
      { pieces := object.layout.within Level.call ++ inBrackets "[" key.layout.pieces "]"
        level := Level.call, calls := object.layout.calls } := by
  rw [layout_eq, h]
  simp [foldPayload, layoutNode]

lemma layout_member {object key : Tree} {name : Text} {optional : Bool}
    (h : t.node.payload = .memberExpression (some object) (some key) false optional)
    (hkey : key.node.payload = .identifier name) : t.layout =
      { pieces := object.layout.within Level.call
          ++ [.punctuator ".", { kind := .identifier, text := name }]
        level := Level.call, calls := object.layout.calls } := by
  rw [layout_eq, h]
  simp [foldPayload, layoutNode, layout_identifier hkey, Layout.leaf]

end Cases

end Tree

end PlainScript
