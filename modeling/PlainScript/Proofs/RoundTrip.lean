import PlainScript.Proofs.Operations

/-! Printed operator expressions are read back as they were. The brackets of the pieces match, the first
piece is none that begins another statement, and what is read before the semicolon is the
expression. -/
namespace PlainScript

open Print Grammar

/-! ### Brackets -/

def brackets : List Text := ["(", "[", openBrace, ")", "]", closeBrace]

/-- Every bracket that the pieces open is closed by them. -/
def Balanced (ps : List Piece) : Prop :=
  ∀ ts rest pending after, Spells ps ts rest →
    bracketFault? pending (ts.map Lexeme.token ++ after) =
      bracketFault? pending (rest.map Lexeme.token ++ after)

namespace Balanced

variable {p : Piece} {ps qs : List Piece}

lemma nil : Balanced [] := fun ts rest pending after hts => by
  rw [Spells.nil_iff.mp hts]

lemma append (hp : Balanced ps) (hq : Balanced qs) : Balanced (ps ++ qs) := by
  intro ts rest pending after hts
  obtain ⟨mid, hps, hqs, -⟩ := Spells.append hts
  exact (hp ts mid pending after hps).trans (hq mid rest pending after hqs)

lemma spaced (h : Balanced ps) : Balanced (spaced ps) :=
  fun ts rest pending after hts => h ts rest pending after (Spells.spaced_iff.mp hts)

lemma single (h : p.kind = .punctuator →
    p.text ∉ brackets) : Balanced [p] := by
  intro ts rest pending after hts
  obtain ⟨u, us, rfl, hkind, htext, -, hus⟩ := Spells.cons_iff.mp hts
  obtain rfl := Spells.nil_iff.mp hus
  have hnot (x : Text) (hx : x ∈ brackets) :
      u.token.isPunctuator x = false :=
    Lexeme.not_isPunctuator fun hpunct heq => h (hkind.symm.trans hpunct) (htext ▸ heq ▸ hx)
  have hopen : u.token.isOpening = false := by
    simp only [Token.isOpening, hnot "(" (by decide), hnot "[" (by decide), hnot openBrace (by decide),
      Bool.or_self]
  have hclose : u.token.isClosing = false := by
    simp only [Token.isClosing, hnot ")" (by decide), hnot "]" (by decide), hnot closeBrace (by decide),
      Bool.or_self]
  simp [bracketFault?, hopen, hclose]

lemma cons (hp : p.kind = .punctuator →
    p.text ∉ brackets) (h : Balanced ps) :
    Balanced (p :: ps) :=
  append (single hp) h

/-- Between two brackets that match, whatever stands before the second one. -/
lemma enclosed {opening closing : Text} {margin : Margin}
    (hpair : (opening, closing) ∈ ([("(", ")"), ("[", "]"), (openBrace, closeBrace)] : List (Text × Text)))
    (h : Balanced ps) : Balanced (.punctuator opening :: (ps ++ [{ kind := .punctuator, text := closing, margin }])) := by
  intro ts rest pending after hts
  obtain ⟨u, us, rfl, hkind, htext, -, hus⟩ := Spells.cons_iff.mp hts
  obtain ⟨mid, hps, hclosing, -⟩ := Spells.append hus
  obtain ⟨v, rfl, hkind', htext'⟩ := Spells.single_iff.mp hclosing
  have hall : ∀ pair ∈ ([("(", ")"), ("[", "]"), (openBrace, closeBrace)] : List (Text × Text)),
      (Piece.punctuator pair.1).token.isOpening = true ∧ (Piece.punctuator pair.2).token.isOpening = false ∧
        (Piece.punctuator pair.2).token.isClosing = true ∧ Token.closer pair.1 = pair.2 := by decide
  obtain ⟨hopen, hnot, hclose, hcloser⟩ := hall _ hpair
  replace hopen : u.token.isOpening = true := by
    simpa [Token.isOpening, Token.isPunctuator, Lexeme.token, Piece.token, Piece.punctuator, hkind, htext] using hopen
  replace hnot : v.token.isOpening = false := by
    simpa [Token.isOpening, Token.isPunctuator, Lexeme.token, Piece.token, Piece.punctuator, hkind', htext'] using hnot
  replace hclose : v.token.isClosing = true := by
    simpa [Token.isClosing, Token.isPunctuator, Lexeme.token, Piece.token, Piece.punctuator, hkind', htext'] using hclose
  have hmatch : Token.closer u.token.text = v.token.text := by
    rw [show u.token.text = opening from htext, show v.token.text = closing from htext', hcloser]
  have hinner := h us (v :: rest) (u.token :: pending) after hps
  simp only [List.map_cons, List.cons_append, bracketFault?, hopen, if_true, hnot, Bool.false_eq_true,
    if_false, hclose, hmatch, beq_self_eq_true] at hinner ⊢
  exact hinner

lemma inBrackets {opening closing : Text}
    (hpair : (opening, closing) ∈ ([("(", ")"), ("[", "]")] : List (Text × Text))) (h : Balanced ps) :
    Balanced (inBrackets opening ps closing) :=
  h.enclosed (List.mem_append_left [(openBrace, closeBrace)] hpair)

lemma within {x : Layout} (h : Balanced x.pieces) (least : Nat) : Balanced (x.within least) := by
  unfold Layout.within
  split
  · exact h.inBrackets (by simp)
  · exact h

lemma joined (hp : Balanced ps) (hpiece : p.kind = .punctuator →
    p.text ∉ brackets) (hq : Balanced qs) :
    Balanced (ps ++ PlainScript.spaced [p] ++ PlainScript.spaced qs) :=
  (hp.append (single hpiece).spaced).append hq.spaced

lemma list {xs : List (Option Layout)} (h : ∀ x, some x ∈ xs → Balanced x.pieces) :
    Balanced (Layout.list xs) := by
  have hcomma : (Piece.punctuator ",").kind = .punctuator → (Piece.punctuator ",").text ∉
      brackets := by decide
  induction xs using Layout.list.induct with
  | case1 => exact .nil
  | case2 x => exact (h x (by simp)).within _
  | case3 rest ih => exact .cons hcomma (ih fun x hx => h x (by simp [hx])).spaced
  | case4 x rest hrest ih =>
    rw [Layout.list]
    · exact ((h x (by simp)).within _).append
        (.cons hcomma (ih fun y hy => h y (by simp [hy])).spaced)
    · exact hrest

lemma operands {es : List Tree} (h : ∀ e ∈ es, Balanced e.layout.pieces) :
    Balanced (Layout.list (es.map fun e => some e.layout)) := by
  apply Balanced.list
  intro x hx
  obtain ⟨e, he, hex⟩ := List.mem_map.mp hx
  exact Option.some.inj hex ▸ h e he

end Balanced

lemma Operators.balanced {t : Tree} (h : Operators t) : Balanced t.layout.pieces := by
  induction h with
  | @identifier node name h =>
    rw [Tree.layout_identifier (t := .mk node) h]
    exact .single nofun
  | @null node h =>
    rw [Tree.layout_null (t := .mk node) h]
    exact .single nofun
  | @boolean node value h =>
    rw [Tree.layout_boolean (t := .mk node) h]
    exact .single nofun
  | @this node h =>
    rw [Tree.layout_this (t := .mk node) h]
    exact .single nofun
  | @string node value h =>
    rw [Tree.layout_string (t := .mk node) h]
    exact .single nofun
  | @array node elements h _ ih =>
    rw [Tree.layout_array (t := .mk node) h]
    refine .inBrackets (by simp) (.list fun x hx => ?_)
    obtain ⟨o, ho, hox⟩ := List.mem_map.mp hx
    obtain ⟨e, rfl, rfl⟩ := Option.map_eq_some_iff.mp hox
    exact ih e ho
  | @unary node op e h hop _ ih =>
    have hall : ∀ op ∈ signs ++ unaryWords, (operatorPiece op).text ∉ brackets := by decide
    rw [Tree.layout_unary (t := .mk node) h]
    refine .cons (fun _ => hall op hop) ?_
    unfold Layout.operand
    simp only
    split
    · exact (ih.within _).spaced
    · exact ih.within _
  | @update node op isPrefixed e h hop _ _ ih =>
    have hall : ∀ op ∈ updateOperators, op ∉ brackets := by decide
    cases isPrefixed with
    | true =>
      rw [Tree.layout_prefixed (t := .mk node) h]
      exact .cons (fun _ => hall op hop) (ih.within _)
    | false =>
      rw [Tree.layout_postfixed (t := .mk node) h]
      exact (ih.within _).append (.single fun _ => hall op hop)
  | @binary node op l r h hop _ _ ihl ihr =>
    have hall : ∀ op ∈ binaryOperators, (operatorPiece op).text ∉ brackets := by decide
    have hpiece := hall op (mem_binaryOperators hop)
    by_cases hpower : op = "**"
    · subst hpower
      rw [Tree.layout_power (t := .mk node) h]
      exact (ihl.within _).joined (fun _ => hpiece) (ihr.within _)
    · rw [Tree.layout_binary (t := .mk node) h hpower]
      exact (ihl.within _).joined (fun _ => hpiece) (ihr.within _)
  | @assignment node op l r h hop _ _ _ ihl ihr =>
    have hall : ∀ op ∈ assignmentOperators, op ∉ brackets := by decide
    rw [Tree.layout_assignment (t := .mk node) h]
    exact (ihl.within _).joined (fun _ => hall op hop) (ihr.within _)
  | @conditional node test yes no h _ _ _ iht ihy ihn =>
    rw [Tree.layout_conditional (t := .mk node) h]
    exact ((iht.within _).joined (fun _ => by decide) (ihy.within _)).joined (fun _ => by decide)
      (ihn.within _)
  | @sequence node es h _ _ ih =>
    rw [Tree.layout_sequence (t := .mk node) h]
    exact .operands ih
  | @call node callee args h _ _ ihc iha =>
    rw [Tree.layout_call (t := .mk node) h]
    exact (ihc.within _).append (.inBrackets (by simp) (.operands iha))
  | @new node callee args h _ _ ihc iha =>
    rw [Tree.layout_new (t := .mk node) h]
    exact (Balanced.cons (p := .keyword "new") nofun (ihc.within _).spaced).append
      (.inBrackets (by simp) (.operands iha))
  | @index node object key h _ _ iho ihk =>
    rw [Tree.layout_index (t := .mk node) h]
    exact (iho.within _).append (ihk.inBrackets (by simp))
  | @member node object key name h _ hkey _ iho =>
    rw [Tree.layout_member (t := .mk node) h hkey]
    exact (iho.within _).append (.cons (fun _ => by decide) (.single nofun))

/-! ### Statements -/

section Statement

variable {c : Context} {last : Lexeme}

/-- What the first token of an expression tells a statement. -/
structure BeginsExpression (u : Lexeme) : Prop where
  punctuator : ∀ x ∉ openings, u.token.isPunctuator x = false
  keyword : ∀ k ∉ Piece.operandWords ++ Piece.prefixWords, u.token.isKeyword k = false
  name : ∀ n ∈ contextualNames, u.token.isName n = false
  isEnd : u.token.isEnd = false

lemma Piece.BeginsOperand.beginsExpression {p : Piece} {u : Lexeme} (h : p.BeginsOperand)
    (hkind : u.kind = p.kind) (htext : u.text = p.text) : BeginsExpression u where
  punctuator x hx := h.not_isPunctuator hkind htext hx
  keyword k hk := by
    obtain ⟨kind, text, margin⟩ := p
    rw [← Bool.not_eq_true]
    simp only [Token.isKeyword, Lexeme.token, Bool.and_eq_true, beq_iff_eq]
    rintro ⟨hkeyword, rfl⟩
    obtain rfl : kind = .keyword := hkind.symm.trans hkeyword
    obtain rfl : u.text = text := htext
    exact hk (List.mem_append.mpr h.2)
  name n hn := by
    obtain ⟨kind, text, margin⟩ := p
    rw [← Bool.not_eq_true]
    simp only [Token.isName, Lexeme.token, Bool.and_eq_true, beq_iff_eq]
    rintro ⟨hname, rfl⟩
    obtain rfl : kind = .identifier := hkind.symm.trans hname
    obtain rfl : u.text = text := htext
    exact h.2 hn
  isEnd := by
    obtain ⟨kind, text, margin⟩ := p
    rw [← Bool.not_eq_true]
    simp only [Token.isEnd, Lexeme.token, beq_iff_eq]
    intro hend
    obtain rfl : kind = .endOfFile := hkind.symm.trans hend
    exact h.2

/-- A statement that begins like an expression is one, unless it has a label. -/
lemma run_bareStatement {rules : Rules} {u : Lexeme} {us : List Lexeme} (h : BeginsExpression u) :
    bareStatement rules c (stateAt last (u :: us)) =
      (if u.token.isIdentifier && (us.headD last).token.isPunctuator ":" then labeledStatement rules
        else expressionStatement rules) c (stateAt last (u :: us)) := by
  have hbrace := h.punctuator openBrace (by decide)
  have hsemicolon := h.punctuator ";" (by decide)
  have hword (k : Text) (hk : k ∉ Piece.operandWords ++ Piece.prefixWords) := h.keyword k hk
  have hlet := h.name "let" (by decide)
  have hasync := h.name "async" (by decide)
  have hahead : ahead 1 c (stateAt last (u :: us)) =
      .ok (us.headD last).token (stateAt last (u :: us)) := by
    cases us <;> rfl
  simp only [bareStatement, run_bind, run_current, current_stateAt, hahead, hbrace, hsemicolon,
    hword "var" (by decide), hword "const" (by decide), hword "function" (by decide),
    hword "class" (by decide), hword "if" (by decide), hword "for" (by decide), hword "while" (by decide),
    hword "do" (by decide), hword "return" (by decide), hword "break" (by decide),
    hword "continue" (by decide), hword "throw" (by decide), hword "try" (by decide),
    hword "switch" (by decide), hword "debugger" (by decide), hword "with" (by decide),
    hword "export" (by decide), hword "import" (by decide), Bool.false_and, Bool.or_self,
    Bool.false_eq_true, if_false, atLexicalDeclaration, run_atWord, run_atName, hlet, run_pure, hasync]

/-- An expression that is read to its end does not begin like a label, after which it would end. -/
lemma ReadsExpression.not_label (hc : c.inGenerator = false) {d : Nat} (hd : 2 ≤ d) {ps : List Piece}
    {t : Tree} (h : ReadsExpression c last d ps t) (hne : ps ≠ []) {u semi : Lexeme} {us rest : List Lexeme}
    (hts : Spells ps (u :: us) (semi :: rest)) (hstart : BeginsExpression u) (hsemi : semi.text = ";")
    (hreach : semi.reach = 0) :
    (u.token.isIdentifier && (us.headD last).token.isPunctuator ":") = false := by
  rw [← Bool.not_eq_true, Bool.and_eq_true]
  rintro ⟨hname, hcolon⟩
  obtain ⟨colon, vs, rfl⟩ : ∃ colon vs, us = colon :: vs := by
    apply List.exists_cons_of_ne_nil
    rintro rfl
    have := List.length_pos_iff.mpr hne
    have := hts.length
    simp only [List.length_cons, List.length_nil] at this
    omega
  obtain ⟨hkind, htext⟩ : colon.kind = .punctuator ∧ colon.text = ":" :=
    Lexeme.isPunctuator_iff.mp hcolon
  replace hname : u.kind = .identifier := by simpa [Token.isIdentifier, Lexeme.token] using hname
  have hplain : u.text ∉ contextualNames := by
    intro hmem
    have := hstart.name u.text hmem
    simp [Token.isName, Lexeme.token, hname] at this
  have hleaf : Readable c last (.mk { payload := .identifier u.text }) :=
    readable_identifier hc rfl hplain
  have hread := hleaf.expression d (Nat.le_trans (by decide : 4 ≤ 2 + 2) (Nat.add_le_add_right hd 2))
  rw [Tree.layout_identifier rfl] at hread
  obtain ⟨_, hrun, -⟩ := hread (u :: colon :: vs) colon vs
    (Spells.single_iff.mpr ⟨u, rfl, hname, rfl⟩) (by
      rw [Lexeme.reach, hkind, htext]
      decide)
  obtain ⟨_, hrun', -⟩ := h _ semi rest hts (by rw [hreach]; decide)
  have hstate := (EStateM.Result.ok.inj (hrun.symm.trans hrun')).2
  have hspelling : colon.text = semi.text := congrArg (fun s => s.current.text) hstate
  rw [hsemi, htext] at hspelling
  exact absurd hspelling (by decide)

/-- An expression in front of a semicolon is a statement. -/
lemma run_expressionStatement (hc : c.inGenerator = false) {d : Nat} (hd : 2 ≤ d) {ps : List Piece} {t : Tree}
    (h : ReadsExpression c last d ps t) (hsound : Sound ps) {ts rest : List Lexeme} {semi : Lexeme}
    (hts : Spells ps ts (semi :: rest)) (hkind : semi.kind = .punctuator) (htext : semi.text = ";") :
    ∃ u us, ts = u :: us ∧ u.token.isEnd = false ∧ ∃ copy : Tree, copy.Copies t ∧
      rulesUpTo (d + 1) .statement c (stateAt last ts) =
        .ok (.of (.expressionStatement (some copy)) u.position) (stateAt last rest) := by
  have hreach : semi.reach = 0 := by
    rw [Lexeme.reach, hkind, htext]
    decide
  obtain ⟨p, hp, hbegins⟩ := hsound.begins
  obtain ⟨ps, rfl⟩ := List.head?_eq_some_iff.mp hp
  obtain ⟨u, us, rfl, hkindu, htextu, -, -⟩ := Spells.cons_iff.mp hts
  have hstart := hbegins.beginsExpression hkindu htextu
  have hlabel := ReadsExpression.not_label hc hd h (by simp) hts hstart htext hreach
  obtain ⟨copy, hrun, hcopy⟩ := h _ semi rest hts (by rw [hreach]; decide)
  have hdrain : drainComments c (stateAt last (u :: us)) = .ok [] (stateAt last (u :: us)) := rfl
  have hrule : rulesUpTo (d + 1) .statement = Grammar.statement (rulesUpTo d) := rfl
  refine ⟨u, us, rfl, hstart.isEnd, copy, hcopy, ?_⟩
  simp only [hrule, Grammar.statement, run_bind, hdrain, run_bareStatement hstart, hlabel,
    Bool.false_eq_true, if_false, expressionStatement, run_here, hrun, semicolon, run_eat (Lexeme.isPunctuator_of hkind htext),
    Bool.not_true, Bool.false_eq_true, if_false, run_pure]
  rfl

lemma run_script {rules : Rules} {u : Lexeme} {us : List Lexeme} {statement : Tree}
    (hlast : last.kind = .endOfFile) (hstart : u.token.isEnd = false)
    (h : rules .statement c (stateAt last (u :: us)) = .ok statement (stateAt last [])) :
    script rules c (stateAt last (u :: us)) =
      .ok (.of (.program [some statement]) u.position) (stateAt last []) := by
  have hlisted : listedStatement rules .endOfFile c (stateAt last (u :: us)) =
      .ok statement (stateAt last []) := by
    simp only [listedStatement, run_bind, run_get, run_tryCatch, h]
  have hend : last.token.isEnd = true := by simp [Token.isEnd, Lexeme.token, hlast]
  have hrepeats : Repeats c last (return ListEnd.endOfFile.isAt (← current))
      (listedStatement rules .endOfFile) (u :: us) [statement] [] := by
    refine .cons ?_ hlisted (Nat.zero_lt_succ _) (.nil ?_)
    · simp only [run_bind, run_current, current_stateAt, ListEnd.isAt, hstart, Bool.or_self, run_pure]
    · simp only [run_bind, run_current, ListEnd.isAt, run_pure]
      rw [show (stateAt last []).current.isEnd = true from hend, Bool.true_or]
  have hdrain : drainComments c (stateAt last []) = .ok [] (stateAt last []) := rfl
  simp only [script, run_bind, run_here, statementList, run_repeatUntil hrepeats, hdrain, run_pure]
  rfl

end Statement

/-! ### Programs -/

lemma Tree.Copies.program {copy t : Tree} (h : copy.Copies t) (outer inner : Position) :
    (Tree.of (.program [some (.of (.expressionStatement (some copy)) inner)]) outer).unplaced =
      t.bare.asStatement := by
  simp only [Copies, unplaced] at h
  simp only [unplaced, Tree.of, fold_mk, foldPayload, foldSlots_eq, foldSlot_eq, List.map_cons, List.map_nil,
    Option.map_some, h]
  rfl

lemma Piece.BeginsOperand.not_interpreter {p : Piece} (h : p.BeginsOperand) (hvalid : p.Valid)
    (after rest : Text) : p.text ++ after ≠ '#'.toUInt8 :: '!'.toUInt8 :: rest := by
  intro heq
  have hhead : p.text.head? = some '#'.toUInt8 := by
    obtain ⟨c, more, hc⟩ := List.exists_cons_of_ne_nil hvalid.text_ne_nil
    rw [hc] at heq ⊢
    exact congrArg some (List.cons.inj heq).1
  obtain ⟨kind, text, margin⟩ := p
  cases kind with
  | identifier =>
    have hno : isNameStart '#'.toUInt8 = false ∧ isNameStart '!'.toUInt8 = false := by decide
    obtain ⟨lead, c, more, rfl, rfl | rfl, hc, -⟩ := hvalid.1
    · obtain ⟨rfl, -⟩ := List.cons.inj heq
      exact absurd hc (by simp [hno.1])
    · obtain ⟨rfl, -⟩ := List.cons.inj (List.cons.inj heq).2
      exact absurd hc (by simp [hno.2])
  | string value =>
    obtain rfl : text = quoted value := hvalid
    exact absurd (Option.some.inj hhead) (by decide)
  | keyword =>
    have hall : ∀ t ∈ reservedWords, t.head? ≠ some '#'.toUInt8 := by decide
    exact hall text hvalid hhead
  | punctuator =>
    have hall : ∀ t ∈ openings, t.head? ≠ some '#'.toUInt8 := by decide
    exact hall text h.2 hhead
  | _ => exact h.2

/-- A text whose first piece begins otherwise names no interpreter. -/
lemma interpreterLine_eq_zero {p : Piece} {ps : List Piece} (hmargin : p.margin = .none)
    (h : ∀ after rest, p.text ++ after ≠ '#'.toUInt8 :: '!'.toUInt8 :: rest) (after : Text) :
    interpreterLine (spellings (p :: ps) ++ after) = 0 := by
  apply if_neg
  intro hstart
  obtain ⟨rest, hrest⟩ := List.isPrefixOf_iff_prefix.mp hstart
  have hmark : Text.ofString "#!" = ['#'.toUInt8, '!'.toUInt8] := by decide
  rw [hmark] at hrest
  refine h (spellings ps ++ after) rest ?_
  rw [← List.append_assoc]
  simpa [Piece.spelling, hmargin] using hrest.symm

/-- Operands do not begin like a line that names an interpreter. -/
lemma Sound.interpreterLine_eq_zero {ps : List Piece} (h : Sound ps) (after : Text) :
    interpreterLine (spellings ps ++ after) = 0 := by
  obtain ⟨p, hp, hbegins⟩ := h.begins
  obtain ⟨ps, rfl⟩ := List.head?_eq_some_iff.mp hp
  exact PlainScript.interpreterLine_eq_zero hbegins.1 (hbegins.not_interpreter (h.tidy.valid p (by simp))) after

/-- The pieces of a statement are those of its expression, with parentheses if it would be read as a
declaration, and a semicolon. -/
lemma Operators.statementPieces_eq {t : Tree} (h : Operators t) : ∃ ps,
    t.statementPieces = ps ++ [.punctuator ";"] ∧ Sound ps ∧ Balanced ps ∧
      ∀ c last, c.inGenerator = false → ∀ d, 4 * t.size ≤ d → ReadsExpression c last d ps t := by
  by_cases hdeclaration : readsAsDeclaration (spellings t.layout.pieces) = true
  · refine ⟨inBrackets "(" t.layout.pieces ")", by rw [Tree.statementPieces, if_pos hdeclaration],
      h.sound.parenthesized, h.balanced.inBrackets (by simp), fun c last hc d hd => ?_⟩
    have := t.size_pos
    obtain ⟨d, rfl⟩ := Nat.exists_eq_add_of_le' (by omega : 2 ≤ d)
    exact ((((h.readable hc).parenthesized (d := d) (by omega) false).unary.binary 4).assignment
      (by decide) hc).expression
  · exact ⟨t.layout.pieces, by rw [Tree.statementPieces, if_neg hdeclaration], h.sound, h.balanced,
      fun c last hc d hd => (h.readable hc).expression d (by omega)⟩

/-- The lexer finds the pieces of a text that names no interpreter. -/
lemma tokenize_spellings {ps : List Piece} (h : Tidy ps) (hslash : ∀ p ∈ ps.head?, p.text.head? ≠ some '/'.toUInt8)
    (hline : interpreterLine (spellings ps) = 0) : ∃ (ts : List Lexeme) (last : Lexeme), Spells ps ts [] ∧
      last.kind = .endOfFile ∧ tokenize (spellings ps) = .ok (ts.map Lexeme.token ++ [last.token]) := by
  obtain ⟨ts, last, hts, hlast, -, hread⟩ :=
    tokensFrom_spellings h.valid h.chain none (fun p hp hs => absurd hs (hslash p hp)) 0 .start
  refine ⟨ts, last, hts, hlast, ?_⟩
  rw [tokenize, hline]
  exact hread

lemma tokenize_statement {ps : List Piece} (h : Sound ps) :
    ∃ (ts : List Lexeme) (last semi : Lexeme), Spells ps ts [semi] ∧ semi.kind = .punctuator ∧ semi.text = ";" ∧
      last.kind = .endOfFile ∧ tokenize (spellings (ps ++ [.punctuator ";"])) =
        .ok (ts.map Lexeme.token ++ [last.token]) := by
  have hsemi : (Piece.punctuator ";").Valid := by
    simp only [Piece.Valid, Piece.punctuator]
    decide
  have hfirst : (Piece.punctuator ";").first ∈ Piece.separators := by decide
  have htidy : Tidy (ps ++ [.punctuator ";"]) := by
    apply h.tidy.append (.single hsemi)
    intro p hp q hq
    obtain ⟨r, hr, hends⟩ := h.ends
    obtain rfl := Option.mem_unique hp hr
    exact Option.some.inj hq ▸ hends.precedes hfirst
  have hslash (p : Piece) (hp : p ∈ (ps ++ [Piece.punctuator ";"]).head?) : p.text.head? ≠ some '/'.toUInt8 := by
    obtain ⟨q, hq, -⟩ := h.begins
    rw [List.head?_append, Option.mem_def.mp hq] at hp
    obtain rfl : q = p := Option.some.inj hp
    exact h.enclosable.begins q hq
  have hline : interpreterLine (spellings (ps ++ [.punctuator ";"])) = 0 := by
    rw [spellings_append]
    exact h.interpreterLine_eq_zero _
  obtain ⟨ts, last, hts, hlast, htokens⟩ := tokenize_spellings htidy hslash hline
  obtain ⟨mid, hps, hmid, -⟩ := Spells.append hts
  obtain ⟨semi, rfl, hkind, htext⟩ := Spells.single_iff.mp hmid
  exact ⟨ts, last, semi, hps, hkind, htext, hlast, htokens⟩

/-- A source whose tokens are read as a script. -/
lemma parse_of_script {source : Text} {options : ParseOptions} {tokens : List Token} {tree : Tree}
    {final : State} (htokens : tokenize source = .ok tokens) (hbrackets : bracketFault? [] tokens = none)
    (h : script (rulesUpTo options.maxDepth.toNat)
      { source, recover := options.recover, maxRecoveredErrors := options.maxRecoveredErrors }
      { current := tokens.headD {}, later := tokens.tail, pending := (tokens.headD {}).comments } =
        .ok tree final) : parse source options = .ok ⟨tree, final.recovered.reverse⟩ := by
  simp only [parse, htokens, Except.mapError, ok_bind, hbrackets, ReaderT.run, h]
  rfl

/-- An operator expression that is printed as a statement is read back as it was. -/
theorem Operators.parse_print {t : Tree} (h : Operators t) {printing : PrintOptions}
    {reading : ParseOptions} (hprinting : 4 * (t.size : Int) + 8 ≤ printing.maxDepth)
    (hreading : 4 * (t.size : Int) + 8 ≤ reading.maxDepth) :
    ∃ code script, t.asStatement.print printing = .ok code ∧ parse code reading = .ok script ∧
      script.tree.unplaced = t.bare.asStatement ∧ script.diagnostics = [] := by
  obtain ⟨ps, hpieces, hsound, hbalanced, hread⟩ := h.statementPieces_eq
  obtain ⟨ts, last, semi, hts, hkind, htext, hlast, htokens⟩ := tokenize_statement hsound
  obtain ⟨d, hd⟩ : ∃ d, reading.maxDepth.toNat = d + 1 := ⟨reading.maxDepth.toNat - 1, by omega⟩
  have hprint := h.print_ok (by omega : (t.size : Int) + 1 ≤ printing.maxDepth)
  rw [hpieces] at hprint
  let c : Context :=
    { source := spellings (ps ++ [.punctuator ";"])
      recover := reading.recover
      maxRecoveredErrors := reading.maxRecoveredErrors }
  obtain ⟨u, us, rfl, hstart, copy, hcopy, hrun⟩ := run_expressionStatement
    (show c.inGenerator = false from rfl) (by omega) (hread c last rfl d (by omega)) hsound hts hkind
    htext
  have hscript := run_script hlast hstart hrun
  have hbrackets : bracketFault? [] ((u :: us).map Lexeme.token ++ [last.token]) = none := by
    have hsemi : Balanced [.punctuator ";"] := .single fun _ => by decide
    rw [hbalanced _ _ _ _ hts, hsemi _ [] _ _ (Spells.single_iff.mpr ⟨semi, rfl, hkind, htext⟩)]
    simp [bracketFault?, Token.isOpening, Token.isClosing, Token.isPunctuator, Lexeme.token, hlast]
  rw [← hd] at hscript
  refine ⟨_, _, hprint, parse_of_script htokens hbrackets hscript, ?_, rfl⟩
  exact hcopy.program u.position u.position

section Witness

/-- A power of a negation, which takes parentheses. -/
def negationPower : Tree :=
  .of (.binaryExpression "**" (some (.of (.unaryExpression "-" (some (.of (.identifier "a") {}))) {}))
    (some (.of (.identifier "b") {}))) {}

theorem Operators.parse_print_negationPower : Operators negationPower ∧
    4 * (negationPower.size : Int) + 8 ≤ ({ maxDepth := 24 } : PrintOptions).maxDepth ∧
      ∃ code script, negationPower.asStatement.print { maxDepth := 24 } = .ok code ∧
        parse code { recover := false, maxDepth := 24 } = .ok script ∧
          script.tree.unplaced = negationPower.bare.asStatement ∧ script.diagnostics = [] := by
  have hname (name : Text) (hname : name = "a" ∨ name = "b") : IsName name := by
    refine ⟨{ kind := .identifier, text := name, start := 0, stop := 1, position := ⟨1, 1⟩ },
      { kind := .endOfFile, start := 1, stop := 1, position := ⟨1, 2⟩ }, ?_, rfl, rfl⟩
    rcases hname with rfl | rfl <;> decide +kernel
  have h : Operators negationPower :=
    .binary rfl (by decide) (.unary rfl (by decide) (.identifier rfl (hname "a" (by simp)) (by decide)))
      (.identifier rfl (hname "b" (by simp)) (by decide))
  exact ⟨h, by decide, h.parse_print (by decide) (by decide)⟩

example : negationPower.asStatement.print {} = .ok "(-a) ** b;" := by decide +kernel

end Witness

end PlainScript
