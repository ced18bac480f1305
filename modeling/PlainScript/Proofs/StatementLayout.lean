import PlainScript.Proofs.RoundTrip

/-! Statements around operator expressions, and the pieces they are written in. What stands inside a
statement is on the same line or on lines of its own; in front of an `else` an `if` that has none gets
braces. -/
namespace PlainScript

open Print

/-- A name that can stand in front of a statement. -/
def IsLabel (name : Text) : Prop := IsName name ∧ name ∉ contextualNames

def Node.IsSilent {α : Type} (node : Node α) : Prop := node.leading = [] ∧ node.trailing = []

namespace Tree

/-- An `if` without `else`. -/
def takesElse (t : Tree) : Bool :=
  match t.node.payload with
  | .ifStatement _ _ none => true
  | _ => false

/-- The value of a node, given those of its children: whether an `else` behind it would belong to an `if` inside. -/
def opensNode (node : Node Bool) : Bool :=
  match node.payload with
  | .ifStatement _ _ none => true
  | .ifStatement _ _ (some other) => other
  | .whileStatement _ (some body) | .forStatement _ _ _ (some body) | .labeledStatement _ (some body) => body
  | _ => false

/-- Whether a statement would take an `else` behind it. -/
def endsOpen (t : Tree) : Bool := t.fold opensNode

def inBlock (t : Tree) : Tree := of (.blockStatement [some t]) {}

/-- A node with braces around what would take its `else`. -/
def braceNode (node : Node Tree) : Tree :=
  match node.payload with
  | .ifStatement test (some taken) (some other) =>
    mk { node with payload := .ifStatement test (some (if taken.takesElse then taken.inBlock else taken)) (some other) }
  | _ => mk node

/-- The tree with the braces that the printer writes around the branches of an `if`. -/
def braced (t : Tree) : Tree := t.fold braceNode

end Tree

/-- Statements around operator expressions, without comments. The branch in front of an `else` is an `if` without one
itself, which gets braces, or it ends with nothing that would take the `else`. -/
inductive Statements : Tree → Prop
  | empty {node : Node Tree} (hsilent : node.IsSilent) (h : node.payload = .emptyStatement) : Statements (.mk node)
  | debugger {node : Node Tree} (hsilent : node.IsSilent) (h : node.payload = .debuggerStatement) :
      Statements (.mk node)
  | expression {node : Node Tree} {e : Tree} (hsilent : node.IsSilent)
      (h : node.payload = .expressionStatement (some e)) (he : Operators e) : Statements (.mk node)
  | throw {node : Node Tree} {e : Tree} (hsilent : node.IsSilent) (h : node.payload = .throwStatement (some e))
      (he : Operators e) : Statements (.mk node)
  | return {node : Node Tree} {e : Option Tree} (hsilent : node.IsSilent) (h : node.payload = .returnStatement e)
      (he : ∀ x ∈ e, Operators x) : Statements (.mk node)
  | break {node : Node Tree} {label : Text} (hsilent : node.IsSilent) (h : node.payload = .breakStatement label)
      (hlabel : label = [] ∨ IsLabel label) : Statements (.mk node)
  | continue {node : Node Tree} {label : Text} (hsilent : node.IsSilent)
      (h : node.payload = .continueStatement label) (hlabel : label = [] ∨ IsLabel label) : Statements (.mk node)
  | labeled {node : Node Tree} {label : Text} {body : Tree} (hsilent : node.IsSilent)
      (h : node.payload = .labeledStatement label (some body)) (hlabel : IsLabel label) (hbody : Statements body) :
      Statements (.mk node)
  | while {node : Node Tree} {test body : Tree} (hsilent : node.IsSilent)
      (h : node.payload = .whileStatement (some test) (some body)) (htest : Operators test)
      (hbody : Statements body) : Statements (.mk node)
  | doWhile {node : Node Tree} {test body : Tree} (hsilent : node.IsSilent)
      (h : node.payload = .doWhileStatement (some body) (some test)) (htest : Operators test)
      (hbody : Statements body) : Statements (.mk node)
  | for {node : Node Tree} {test update : Option Tree} {body : Tree} (hsilent : node.IsSilent)
      (h : node.payload = .forStatement none test update (some body)) (htest : ∀ x ∈ test, Operators x)
      (hupdate : ∀ x ∈ update, Operators x) (hbody : Statements body) : Statements (.mk node)
  | ifThen {node : Node Tree} {test taken : Tree} (hsilent : node.IsSilent)
      (h : node.payload = .ifStatement (some test) (some taken) none) (htest : Operators test)
      (htaken : Statements taken) : Statements (.mk node)
  | ifElse {node : Node Tree} {test taken other : Tree} (hsilent : node.IsSilent)
      (h : node.payload = .ifStatement (some test) (some taken) (some other)) (htest : Operators test)
      (htaken : Statements taken) (hother : Statements other) (hends : taken.takesElse = true ∨ taken.endsOpen = false) :
      Statements (.mk node)
  | block {node : Node Tree} {body : List Tree} (hsilent : node.IsSilent)
      (h : node.payload = .blockStatement (body.map some)) (hbody : ∀ s ∈ body, Statements s) : Statements (.mk node)

/-! ### Pieces -/

/-- Pieces on a line of their own. -/
def lined (indent : Nat) : List Piece → List Piece
  | [] => []
  | p :: ps => { p with margin := .line indent } :: ps

/-- Lines between braces, or nothing between them. -/
def inBraces (indent : Nat) (lines : List Piece) : List Piece :=
  .punctuator openBrace :: (lines ++
    [{ kind := .punctuator, text := closeBrace, margin := if lines.isEmpty then .none else .line indent }])

/-- A jump to the statement with a label, or to the innermost one. -/
def jumpPieces (word label : Text) : List Piece :=
  .keyword word :: ((if label.isEmpty then [] else spaced [{ kind := .identifier, text := label }]) ++ [.punctuator ";"])

lemma Spells.lined_iff {ps : List Piece} {ts rest : List Lexeme} {indent : Nat} :
    Spells (lined indent ps) ts rest ↔ Spells ps ts rest := by
  cases ps with
  | nil => rfl
  | cons p ps => simp only [lined, Spells.cons_iff]

namespace Tree

/-- The pieces of the expression that a statement is decided by. -/
def conditionPieces (test : Tree) : List Piece := spaced (inBrackets "(" test.layout.pieces ")")

/-- The pieces of an expression that may be missing. -/
def optionalPieces (e : Option Tree) : List Piece := spaced (e.elim [] fun e => e.layout.pieces)

/-- The indentation of a statement inside another one. -/
def bodyIndent (indent : Nat) (t : Tree) : Nat := if t.kind = .blockStatement then indent else indent + 1

/-- The indentation of a statement behind `else`. -/
def elseIndent (indent : Nat) (t : Tree) : Nat := if t.kind = .ifStatement then indent else t.bodyIndent indent

mutual

/-- The pieces of a statement, with the indentation of its line. -/
def written (indent : Nat) : Tree → List Piece
  | mk ⟨.emptyStatement, _, _, _⟩ => [.punctuator ";"]
  | mk ⟨.debuggerStatement, _, _, _⟩ => [.keyword "debugger", .punctuator ";"]
  | mk ⟨.expressionStatement (some e), _, _, _⟩ => e.statementPieces
  | mk ⟨.throwStatement (some e), _, _, _⟩ => .keyword "throw" :: (spaced e.layout.pieces ++ [.punctuator ";"])
  | mk ⟨.returnStatement e, _, _, _⟩ => .keyword "return" :: (optionalPieces e ++ [.punctuator ";"])
  | mk ⟨.breakStatement label, _, _, _⟩ => jumpPieces "break" label
  | mk ⟨.continueStatement label, _, _, _⟩ => jumpPieces "continue" label
  | mk ⟨.labeledStatement label (some body), _, _, _⟩ =>
    { kind := .identifier, text := label } :: .punctuator ":" :: spaced (body.written indent)
  | mk ⟨.whileStatement (some test) (some body), _, _, _⟩ =>
    .keyword "while" :: (test.conditionPieces ++ spaced (body.written (body.bodyIndent indent)))
  | mk ⟨.doWhileStatement (some body) (some test), _, _, _⟩ =>
    .keyword "do" :: (spaced (body.written (body.bodyIndent indent)) ++ spaced [.keyword "while"]
      ++ test.conditionPieces ++ [.punctuator ";"])
  | mk ⟨.forStatement none test update (some body), _, _, _⟩ =>
    .keyword "for" :: (spaced (inBrackets "("
        (.punctuator ";" :: (optionalPieces test ++ .punctuator ";" :: optionalPieces update)) ")")
      ++ spaced (body.written (body.bodyIndent indent)))
  | mk ⟨.ifStatement (some test) (some taken) none, _, _, _⟩ =>
    .keyword "if" :: (test.conditionPieces ++ spaced (taken.written (taken.bodyIndent indent)))
  | mk ⟨.ifStatement (some test) (some taken) (some other), _, _, _⟩ =>
    .keyword "if" :: (test.conditionPieces
      ++ spaced (if taken.takesElse then inBraces indent (lined (indent + 1) (taken.written (indent + 1)))
        else taken.written (taken.bodyIndent indent))
      ++ spaced [.keyword "else"] ++ spaced (other.written (other.elseIndent indent)))
  | mk ⟨.blockStatement body, _, _, _⟩ => inBraces indent (writtenLines (indent + 1) body)
  | _ => []

/-- The pieces of statements on lines of their own. -/
def writtenLines (indent : Nat) : List (Option Tree) → List Piece
  | some s :: rest => lined indent (s.written indent) ++ writtenLines indent rest
  | _ => []

end

section Cases

variable {node : Node Tree} {indent : Nat}

lemma written_empty (h : node.payload = .emptyStatement) : (mk node).written indent = [.punctuator ";"] := by
  obtain ⟨payload, _, _, _⟩ := node
  cases h
  rw [written]

lemma written_debugger (h : node.payload = .debuggerStatement) :
    (mk node).written indent = [.keyword "debugger", .punctuator ";"] := by
  obtain ⟨payload, _, _, _⟩ := node
  cases h
  rw [written]

lemma written_expression {e : Tree} (h : node.payload = .expressionStatement (some e)) :
    (mk node).written indent = e.statementPieces := by
  obtain ⟨payload, _, _, _⟩ := node
  cases h
  rw [written]

lemma written_throw {e : Tree} (h : node.payload = .throwStatement (some e)) :
    (mk node).written indent = .keyword "throw" :: (spaced e.layout.pieces ++ [.punctuator ";"]) := by
  obtain ⟨payload, _, _, _⟩ := node
  cases h
  rw [written]

lemma written_return {e : Option Tree} (h : node.payload = .returnStatement e) :
    (mk node).written indent = .keyword "return" :: (optionalPieces e ++ [.punctuator ";"]) := by
  obtain ⟨payload, _, _, _⟩ := node
  cases h
  rw [written]

lemma written_break {label : Text} (h : node.payload = .breakStatement label) :
    (mk node).written indent = jumpPieces "break" label := by
  obtain ⟨payload, _, _, _⟩ := node
  cases h
  rw [written]

lemma written_continue {label : Text} (h : node.payload = .continueStatement label) :
    (mk node).written indent = jumpPieces "continue" label := by
  obtain ⟨payload, _, _, _⟩ := node
  cases h
  rw [written]

lemma written_labeled {label : Text} {body : Tree} (h : node.payload = .labeledStatement label (some body)) :
    (mk node).written indent =
      { kind := .identifier, text := label } :: .punctuator ":" :: spaced (body.written indent) := by
  obtain ⟨payload, _, _, _⟩ := node
  cases h
  rw [written]

lemma written_while {test body : Tree} (h : node.payload = .whileStatement (some test) (some body)) :
    (mk node).written indent =
      .keyword "while" :: (test.conditionPieces ++ spaced (body.written (body.bodyIndent indent))) := by
  obtain ⟨payload, _, _, _⟩ := node
  cases h
  rw [written]

lemma written_doWhile {test body : Tree} (h : node.payload = .doWhileStatement (some body) (some test)) :
    (mk node).written indent = .keyword "do" :: (spaced (body.written (body.bodyIndent indent)) ++ spaced [.keyword "while"]
      ++ test.conditionPieces ++ [.punctuator ";"]) := by
  obtain ⟨payload, _, _, _⟩ := node
  cases h
  rw [written]

lemma written_for {test update : Option Tree} {body : Tree}
    (h : node.payload = .forStatement none test update (some body)) :
    (mk node).written indent = .keyword "for" :: (spaced (inBrackets "("
        (.punctuator ";" :: (optionalPieces test ++ .punctuator ";" :: optionalPieces update)) ")")
      ++ spaced (body.written (body.bodyIndent indent))) := by
  obtain ⟨payload, _, _, _⟩ := node
  cases h
  rw [written]

lemma written_ifThen {test taken : Tree} (h : node.payload = .ifStatement (some test) (some taken) none) :
    (mk node).written indent =
      .keyword "if" :: (test.conditionPieces ++ spaced (taken.written (taken.bodyIndent indent))) := by
  obtain ⟨payload, _, _, _⟩ := node
  cases h
  rw [written]

lemma written_ifElse {test taken other : Tree}
    (h : node.payload = .ifStatement (some test) (some taken) (some other)) :
    (mk node).written indent = .keyword "if" :: (test.conditionPieces
      ++ spaced (if taken.takesElse then inBraces indent (lined (indent + 1) (taken.written (indent + 1)))
        else taken.written (taken.bodyIndent indent))
      ++ spaced [.keyword "else"] ++ spaced (other.written (other.elseIndent indent))) := by
  obtain ⟨payload, _, _, _⟩ := node
  cases h
  rw [written]

lemma written_block {body : List (Option Tree)} (h : node.payload = .blockStatement body) :
    (mk node).written indent = inBraces indent (writtenLines (indent + 1) body) := by
  obtain ⟨payload, _, _, _⟩ := node
  cases h
  rw [written]

end Cases

end Tree

/-! ### Pieces that stand apart -/

namespace Piece

/-- The words that only statements begin with. -/
def statementWords : List Text :=
  ["debugger", "throw", "return", "break", "continue", "while", "do", "for", "if"]

/-- The piece can be the first one of a statement. -/
def BeginsStatement (p : Piece) : Prop :=
  p.BeginsOperand ∨ p.margin = .none ∧
    (p.kind = .keyword ∧ p.text ∈ statementWords ∨
      p.kind = .punctuator ∧ p.text ∈ ([openBrace, ";"] : List Text))

variable {p q : Piece}

/-- What ends a statement or the head of one. -/
def closings : List Text := [";", ")", ":", closeBrace]

lemma Valid.precedes_closing (hp : p.Valid) {x : Text} (hx : x ∈ closings) (margin : Margin) :
    p.Precedes { kind := .punctuator, text := x, margin } := by
  have hslash : ∀ x ∈ closings, x.head? ≠ some '/'.toUInt8 := by decide
  have hname : ∀ x ∈ closings, isNamePart (x.headD 0) = false ∧ x.headD 0 ≠ '\\'.toUInt8 := by decide
  have hpunct : ∀ t ∈ punctuators, ∀ x ∈ closings, (punctuator t).StopsAt (x.headD 0) := by
    simp only [StopsAt, punctuator]
    decide +kernel
  refine ⟨?_, fun h => absurd h (hslash x hx)⟩
  cases margin with
  | blank => exact hp.stopsAt_blank (.head _)
  | line indent => exact hp.stopsAt_blank (.tail _ (.head _))
  | none =>
    obtain ⟨kind, text, margin⟩ := p
    cases kind with
    | identifier => exact hname x hx
    | keyword => exact hname x hx
    | punctuator => exact hpunct text hp.1 x hx
    | string value => trivial
    | _ => exact hp.elim

lemma BeginsStatement.margin_eq (h : p.BeginsStatement) : p.margin = .none := h.elim And.left And.left

lemma BeginsStatement.not_slash (h : p.BeginsStatement) (hp : p.Valid) : p.text.head? ≠ some '/'.toUInt8 := by
  have hword : ∀ t ∈ statementWords, t.head? ≠ some '/'.toUInt8 := by decide
  have hpunct : ∀ t ∈ ([openBrace, ";"] : List Text), t.head? ≠ some '/'.toUInt8 := by decide
  obtain hoperand | ⟨-, ⟨-, h⟩ | ⟨-, h⟩⟩ := h
  · exact (hoperand.first_ne hp).1
  · exact hword _ h
  · exact hpunct _ h

end Piece

/-- Pieces that begin behind a blank or on a line of their own. -/
structure Apart (ps : List Piece) : Prop where
  tidy : Tidy ps
  begins : ∀ p ∈ ps.head?, p.first ∈ Piece.blanks ∧ p.text.head? ≠ some '/'.toUInt8

/-- The pieces of a statement, or of what begins like one. -/
structure Phrase (ps : List Piece) : Prop where
  tidy : Tidy ps
  begins : ∃ p ∈ ps.head?, p.BeginsStatement

section Apart

variable {p : Piece} {ps qs : List Piece} {indent : Nat}

lemma Tidy.append_apart (hp : Tidy ps) (hq : Apart qs) : Tidy (ps ++ qs) :=
  hp.append hq.tidy fun p hm q hq' =>
    ⟨(hp.valid p (List.mem_of_mem_getLast? hm)).stopsAt_blank (hq.begins q hq').1,
      fun hslash => absurd hslash (hq.begins q hq').2⟩

lemma Tidy.cons_apart (hp : p.Valid) (hq : Apart qs) : Tidy (p :: qs) := (Tidy.single hp).append_apart hq

lemma Tidy.closed (h : Tidy ps) {x : Text} (hx : x ∈ Piece.closings) (margin : Margin) :
    Tidy (ps ++ [{ kind := .punctuator, text := x, margin }]) := by
  have hvalid : ∀ x ∈ Piece.closings, x ∈ punctuators ∧ x ≠ "?." ∧ x ≠ "=>" := by decide
  refine h.append (.single (hvalid x hx)) fun p hm q hq => ?_
  obtain rfl : _ = q := Option.some.inj hq
  exact (h.valid p (List.mem_of_mem_getLast? hm)).precedes_closing hx margin

namespace Apart

lemma nil : Apart [] := ⟨.nil, nofun⟩

lemma append (hp : Apart ps) (hq : Apart qs) : Apart (ps ++ qs) := by
  refine ⟨hp.tidy.append_apart hq, fun p hm => ?_⟩
  cases ps with
  | nil => exact hq.begins p hm
  | cons q ps => exact hp.begins p hm

lemma closed (h : Apart ps) (hne : ps ≠ []) {x : Text} (hx : x ∈ Piece.closings) (margin : Margin) :
    Apart (ps ++ [{ kind := .punctuator, text := x, margin }]) := by
  refine ⟨h.tidy.closed hx margin, fun p hm => h.begins p ?_⟩
  rwa [List.head?_append_of_ne_nil _ hne] at hm

/-- Behind a blank there may be whatever does not begin with a slash. -/
lemma spaced (h : Tidy ps) (hslash : ∀ p ∈ ps.head?, p.text.head? ≠ some '/'.toUInt8) : Apart (spaced ps) := by
  refine ⟨h.spaced, fun p hm => ?_⟩
  cases ps with
  | nil => cases hm
  | cons q ps =>
    obtain rfl : _ = p := Option.some.inj hm
    exact ⟨q.first_spaced, hslash q rfl⟩

end Apart

lemma Tidy.lined (h : Tidy ps) : Tidy (lined indent ps) := by
  cases ps with
  | nil => exact nil
  | cons p ps =>
    obtain ⟨hnext, hchain⟩ := List.isChain_cons.mp h.chain
    exact cons (h.valid p (by simp)) ⟨fun q hq => h.valid q (by simp [hq]), hchain⟩ hnext

lemma Sound.apart (h : Sound ps) : Apart (spaced ps) := .spaced h.tidy h.enclosable.begins

namespace Phrase

lemma not_slash (h : Phrase ps) : ∀ p ∈ ps.head?, p.text.head? ≠ some '/'.toUInt8 := by
  intro p hp
  obtain ⟨q, hq, hbegins⟩ := h.begins
  obtain rfl := Option.mem_unique hp hq
  exact hbegins.not_slash (h.tidy.valid p (List.mem_of_mem_head? hp))

lemma ne_nil (h : Phrase ps) : ps ≠ [] := by
  obtain ⟨p, hp, -⟩ := h.begins
  exact List.ne_nil_of_mem (List.mem_of_mem_head? hp)

lemma spaced (h : Phrase ps) : Apart (spaced ps) := .spaced h.tidy h.not_slash

lemma lined (h : Phrase ps) : Apart (lined indent ps) := by
  refine ⟨h.tidy.lined, fun p hm => ?_⟩
  obtain ⟨q, hq, hbegins⟩ := h.begins
  obtain ⟨ps, rfl⟩ := List.head?_eq_some_iff.mp hq
  obtain rfl : _ = p := Option.some.inj hm
  exact ⟨.tail _ (.head _), hbegins.not_slash (h.tidy.valid q (by simp))⟩

/-- A word of its own in front of what stands apart. -/
lemma word {word : Text} (hword : word ∈ Piece.statementWords) (h : Apart ps) : Phrase (.keyword word :: ps) := by
  have hall : ∀ t ∈ Piece.statementWords, t ∈ reservedWords := by decide
  exact ⟨.cons_apart (hall word hword) h, _, rfl, .inr ⟨rfl, .inl ⟨rfl, hword⟩⟩⟩

lemma closed (h : Phrase ps) {x : Text} (hx : x ∈ Piece.closings) (margin : Margin) :
    Phrase (ps ++ [{ kind := .punctuator, text := x, margin }]) := by
  refine ⟨h.tidy.closed hx margin, ?_⟩
  rw [List.head?_append_of_ne_nil _ h.ne_nil]
  exact h.begins

/-- Lines between braces. -/
lemma inBraces (h : Apart ps) : Phrase (inBraces indent ps) := by
  have hopen : (Piece.punctuator openBrace).Valid := by
    simp only [Piece.Valid, Piece.punctuator]
    decide
  refine closed ⟨.cons_apart hopen h, _, rfl, .inr ⟨rfl, .inr ⟨rfl, .head _⟩⟩⟩ (by decide) _

end Phrase

namespace Tree

variable {e : Option Tree} {test update : Option Tree} {body : List Tree}

lemma apart_condition {test : Tree} (h : Operators test) : Apart test.conditionPieces := by
  refine .spaced (h.sound.enclosable.inBrackets (by simp) (by simp)) fun p hp => ?_
  obtain rfl : Piece.punctuator "(" = p := Option.some.inj hp
  decide

lemma apart_optional (h : ∀ x ∈ e, Operators x) : Apart (optionalPieces e) := by
  cases e with
  | none => exact .nil
  | some x => exact (h x rfl).sound.apart

/-- The head of a loop with two expressions that may be missing. -/
lemma apart_forHead (htest : ∀ x ∈ test, Operators x) (hupdate : ∀ x ∈ update, Operators x) :
    Apart (spaced (inBrackets "("
      (.punctuator ";" :: (optionalPieces test ++ .punctuator ";" :: optionalPieces update)) ")")) := by
  refine .spaced ?_ fun p hp => ?_
  · have hopen : Tidy [.punctuator "("] := .single (valid_bracket "(" (by simp))
    have hfirst := (hopen.closed (x := ";") (by decide) .none).append_apart (apart_optional htest)
    have hsecond := (hfirst.closed (x := ";") (by decide) .none).append_apart (apart_optional hupdate)
    simpa [inBrackets, Piece.punctuator] using hsecond.closed (x := ")") (by decide) .none
  · obtain rfl : Piece.punctuator "(" = p := Option.some.inj hp
    decide

lemma apart_lines {indent : Nat} (h : ∀ s ∈ body, Phrase (s.written indent)) :
    Apart (writtenLines indent (body.map some)) := by
  induction body with
  | nil => exact .nil
  | cons s rest ih =>
    rw [List.map_cons, writtenLines]
    exact (h s (by simp)).lined.append (ih fun s hs => h s (by simp [hs]))

lemma phrase_jump {word label : Text} (hword : word ∈ Piece.statementWords) (h : label = [] ∨ IsLabel label) :
    Phrase (jumpPieces word label) := by
  refine .closed (.word hword ?_) (by decide) .none
  split
  · exact .nil
  · next hne =>
    have hlabel := h.resolve_left fun hnil => hne (List.isEmpty_iff.mpr hnil)
    exact (sound_single (p := { kind := .identifier, text := label }) hlabel.1.valid ⟨rfl, hlabel.2⟩ trivial).apart

end Tree

end Apart

/-- The pieces of a statement can be told apart. -/
lemma Statements.phrase {t : Tree} (h : Statements t) (indent : Nat) : Phrase (t.written indent) := by
  have hsemi : (";" : Text) ∈ Piece.closings := by decide
  induction h generalizing indent with
  | empty _ h =>
    rw [Tree.written_empty h]
    refine ⟨.single ?_, _, rfl, .inr ⟨rfl, .inr ⟨rfl, .tail _ (.head _)⟩⟩⟩
    simp only [Piece.Valid, Piece.punctuator]
    decide
  | debugger _ h =>
    rw [Tree.written_debugger h]
    exact (Phrase.word (by decide) .nil).closed hsemi .none
  | expression _ h he =>
    obtain ⟨ps, hps, hsound, -⟩ := he.statementPieces_eq
    rw [Tree.written_expression h, hps]
    exact Phrase.closed ⟨hsound.tidy, hsound.begins.imp fun p hp => ⟨hp.1, .inl hp.2⟩⟩ hsemi .none
  | throw _ h he =>
    rw [Tree.written_throw h]
    exact (Phrase.word (by decide) he.sound.apart).closed hsemi .none
  | «return» _ h he =>
    rw [Tree.written_return h]
    exact (Phrase.word (by decide) (Tree.apart_optional he)).closed hsemi .none
  | «break» _ h hlabel =>
    rw [Tree.written_break h]
    exact Tree.phrase_jump (by decide) hlabel
  | «continue» _ h hlabel =>
    rw [Tree.written_continue h]
    exact Tree.phrase_jump (by decide) hlabel
  | @labeled node label body _ h hlabel _ ih =>
    rw [Tree.written_labeled h]
    have hname : Tidy [{ kind := .identifier, text := label }] := .single hlabel.1.valid
    exact ⟨(hname.closed (x := ":") (by decide) .none).append_apart (ih indent).spaced, _, rfl, .inl ⟨rfl, hlabel.2⟩⟩
  | «while» _ h htest _ ih =>
    rw [Tree.written_while h]
    exact .word (by decide) ((Tree.apart_condition htest).append (ih _).spaced)
  | doWhile _ h htest _ ih =>
    rw [Tree.written_doWhile h]
    have hword : Phrase [.keyword "while"] := .word (by decide) .nil
    exact (Phrase.word (by decide) (((ih _).spaced.append hword.spaced).append (Tree.apart_condition htest))).closed
      hsemi .none
  | «for» _ h htest hupdate _ ih =>
    rw [Tree.written_for h]
    exact .word (by decide) ((Tree.apart_forHead htest hupdate).append (ih _).spaced)
  | ifThen _ h htest _ ih =>
    rw [Tree.written_ifThen h]
    exact .word (by decide) ((Tree.apart_condition htest).append (ih _).spaced)
  | @ifElse node test taken other _ h htest _ _ _ iht iho =>
    rw [Tree.written_ifElse h]
    have htaken : Phrase (if taken.takesElse then inBraces indent (lined (indent + 1) (taken.written (indent + 1)))
        else taken.written (taken.bodyIndent indent)) := by
      split
      · exact .inBraces (iht _).lined
      · exact iht _
    have helse : Apart (spaced [.keyword "else"]) := .spaced (.single (by decide : Text.ofString "else" ∈ reservedWords))
      fun p hp => by
        obtain rfl : Piece.keyword "else" = p := Option.some.inj hp
        decide
    exact .word (by decide) ((((Tree.apart_condition htest).append htaken.spaced).append helse).append (iho _).spaced)
  | block _ h _ ih =>
    rw [Tree.written_block h]
    exact .inBraces (Tree.apart_lines fun s hs => ih s hs _)

/-! ### Brackets -/

namespace Balanced

variable {ps : List Piece} {indent : Nat}

lemma lined (h : Balanced ps) : Balanced (lined indent ps) := by
  cases ps with
  | nil => exact nil
  | cons p ps => exact fun ts rest pending after hts => h ts rest pending after (Spells.lined_iff.mp hts)

lemma semicolon (h : Balanced ps) : Balanced (ps ++ [.punctuator ";"]) := h.append (.single fun _ => by decide)

lemma behindSemicolon (h : Balanced ps) : Balanced (.punctuator ";" :: ps) := .cons (fun _ => by decide) h

lemma braces (h : Balanced ps) : Balanced (inBraces indent ps) := h.enclosed (by simp)

lemma word {word : Text} (h : Balanced ps) : Balanced (.keyword word :: ps) := .cons nofun h

lemma spacedWord (word : Text) : Balanced (PlainScript.spaced [.keyword word]) := (Balanced.word .nil).spaced

lemma condition {test : Tree} (h : Operators test) : Balanced test.conditionPieces :=
  (h.balanced.inBrackets (by simp)).spaced

lemma optional {e : Option Tree} (h : ∀ x ∈ e, Operators x) : Balanced (Tree.optionalPieces e) := by
  cases e with
  | none => exact nil
  | some x => exact (h x rfl).balanced.spaced

lemma jump (word label : Text) : Balanced (jumpPieces word label) := by
  refine .word (.semicolon ?_)
  split
  · exact nil
  · exact .spaced (.single nofun)

lemma lines {body : List Tree} (h : ∀ s ∈ body, Balanced (s.written indent)) :
    Balanced (Tree.writtenLines indent (body.map some)) := by
  induction body with
  | nil => exact nil
  | cons s rest ih =>
    rw [List.map_cons, Tree.writtenLines]
    exact (h s (by simp)).lined.append (ih fun s hs => h s (by simp [hs]))

end Balanced

/-- Every bracket that a statement opens is closed in it. -/
lemma Statements.balanced {t : Tree} (h : Statements t) (indent : Nat) : Balanced (t.written indent) := by
  induction h generalizing indent with
  | empty _ h =>
    rw [Tree.written_empty h]
    exact .semicolon .nil
  | debugger _ h =>
    rw [Tree.written_debugger h]
    exact .word (.semicolon .nil)
  | expression _ h he =>
    obtain ⟨ps, hps, -, hbalanced, -⟩ := he.statementPieces_eq
    rw [Tree.written_expression h, hps]
    exact hbalanced.semicolon
  | throw _ h he =>
    rw [Tree.written_throw h]
    exact .word he.balanced.spaced.semicolon
  | «return» _ h he =>
    rw [Tree.written_return h]
    exact .word (Balanced.optional he).semicolon
  | «break» _ h =>
    rw [Tree.written_break h]
    exact .jump _ _
  | «continue» _ h =>
    rw [Tree.written_continue h]
    exact .jump _ _
  | labeled _ h _ _ ih =>
    rw [Tree.written_labeled h]
    exact .cons nofun (.cons (fun _ => by decide) (ih indent).spaced)
  | «while» _ h htest _ ih =>
    rw [Tree.written_while h]
    exact .word ((Balanced.condition htest).append (ih _).spaced)
  | doWhile _ h htest _ ih =>
    rw [Tree.written_doWhile h]
    exact .word (((ih _).spaced.append (.spacedWord _)).append (.condition htest)).semicolon
  | «for» _ h htest hupdate _ ih =>
    rw [Tree.written_for h]
    have hhead := ((Balanced.optional htest).append (Balanced.optional hupdate).behindSemicolon).behindSemicolon
    exact .word ((hhead.inBrackets (by simp)).spaced.append (ih _).spaced)
  | ifThen _ h htest _ ih =>
    rw [Tree.written_ifThen h]
    exact .word ((Balanced.condition htest).append (ih _).spaced)
  | @ifElse node test taken other _ h htest _ _ _ iht iho =>
    rw [Tree.written_ifElse h]
    have htaken : Balanced (if taken.takesElse then inBraces indent (lined (indent + 1) (taken.written (indent + 1)))
        else taken.written (taken.bodyIndent indent)) := by
      split
      · exact (iht _).lined.braces
      · exact iht _
    exact .word ((((Balanced.condition htest).append htaken.spaced).append (.spacedWord _)).append (iho _).spaced)
  | block _ h _ ih =>
    rw [Tree.written_block h]
    exact .braces (.lines fun s hs => ih s hs _)

end PlainScript
