import PlainScript.Proofs.StatementReading

/-! Printed scripts of statements are read back as they were, but for the braces around a branch that is an `if`
without `else`. -/
namespace PlainScript

open Print Grammar

variable {body : List Tree}

/-! ### Statements -/

namespace Tree

lemma inBlock_eq (t : Tree) : t.inBlock = mk { payload := .blockStatement ([t].map some) } := rfl

lemma braced_inBlock (t : Tree) : t.inBlock.braced = t.braced.inBlock := by
  rw [inBlock_eq, braced_mk (by simp [Payload.kind])]
  simp [foldPayload, fold_braceNode, inBlock_eq]

lemma endsOpen_inBlock (t : Tree) : t.inBlock.endsOpen = false := by
  simp [inBlock_eq, endsOpen_mk, foldPayload, opensNode]

end Tree

section Reading

variable {c : Context} (hc : c.inGenerator = false) (last : Lexeme)

/-- A statement is read between braces of its own. -/
lemma ReadsStatement.inBlock {t : Tree} {d indent : Nat} (hphrase : Phrase (t.written (indent + 1)))
    (h : ReadsStatement c last d (t.written (indent + 1)) t) :
    ReadsStatement c last (d + 1) (inBraces indent (lined (indent + 1) (t.written (indent + 1)))) t.inBlock := by
  have hlist : ∀ s ∈ [t], Phrase (s.written (indent + 1)) ∧ ReadsStatement c last d (s.written (indent + 1)) s := by
    rintro s (_ | ⟨_, ⟨⟩⟩)
    exact ⟨hphrase, h⟩
  have hblock : ReadsStatement c last (d + 1)
      (inBraces indent (Tree.writtenLines (indent + 1) ([t].map some))) t.inBlock := .block rfl hlist
  simpa only [List.map_cons, List.map_nil, Tree.writtenLines, List.append_nil] using hblock

include hc

/-- A statement is read if those inside it are, one level of depth further in. -/
lemma Statements.reads_step {t : Tree} (h : Statements t) {d : Nat} (hd : 4 * t.size ≤ d + 1)
    (hinner : ∀ s, Statements s → s.size < t.size → ∀ d, 4 * s.size ≤ d → ∀ indent,
      ReadsStatement c last d (s.written indent) s) (indent : Nat) :
    ReadsStatement c last (d + 1) (t.written indent) t := by
  have hroom (x : Tree) (hx : x ∈ t.node.payload.children) : 4 * x.size + 3 ≤ d := by
    have := Tree.size_lt hx
    omega
  have hchild {s : Tree} (hs : Statements s) (hx : s ∈ t.node.payload.children) (indent : Nat) :
      ReadsStatement c last d (s.written indent) s :=
    hinner s hs (Tree.size_lt hx) d (Nat.le_trans (Nat.le_add_right _ 3) (hroom s hx)) indent
  have hexpression {e : Tree} (hx : e ∈ t.node.payload.children) : 4 * e.size ≤ d :=
    Nat.le_trans (Nat.le_add_right _ 3) (hroom e hx)
  cases h with
  | empty _ h =>
    rw [Tree.written_empty h]
    exact .empty h
  | debugger _ h =>
    rw [Tree.written_debugger h]
    exact .debugger h
  | @expression _ e _ h he =>
    rw [Tree.written_expression h]
    have := hroom e (h ▸ .head _)
    exact .expression hc h he (by omega)
  | throw _ h he =>
    rw [Tree.written_throw h]
    exact .throw hc h he (hexpression (h ▸ .head _))
  | «return» _ h he =>
    rw [Tree.written_return h]
    refine .return hc h he ?_
    rintro x rfl
    exact hexpression (h ▸ .head _)
  | «break» _ h =>
    rw [Tree.written_break h]
    exact .jump (by simp [jumps]) h
  | «continue» _ h =>
    rw [Tree.written_continue h]
    exact .jump (by simp [jumps]) h
  | labeled _ h hlabel hbody =>
    rw [Tree.written_labeled h]
    exact .labeled h hlabel (hchild hbody (h ▸ .head _) _)
  | «while» _ h htest hbody =>
    rw [Tree.written_while h]
    exact .while hc h htest (hexpression (h ▸ .head _)) (hchild hbody (h ▸ .tail _ (.head _)) _)
  | doWhile _ h htest hbody =>
    rw [Tree.written_doWhile h]
    exact .doWhile hc h htest (hexpression (h ▸ .tail _ (.head _))) (hchild hbody (h ▸ .head _) _)
  | @«for» node test update body _ h htest hupdate hbody =>
    have hmem : ∀ x ∈ test.toList ++ update.toList ++ [body], x ∈ (Tree.mk node).node.payload.children := by
      intro x hx
      rw [Tree.node_mk, h]
      change x ∈ test.toList ++ (update.toList ++ ([body] ++ []))
      simpa using hx
    rw [Tree.written_for h]
    exact .for hc h htest hupdate (fun x hx => hexpression (hmem x (by simp_all)))
      (fun x hx => hexpression (hmem x (by simp_all))) (hchild hbody (hmem body (by simp)) _)
  | ifThen _ h htest htaken =>
    rw [Tree.written_ifThen h]
    exact .ifThen hc h htest (hexpression (h ▸ .head _)) (hchild htaken (h ▸ .tail _ (.head _)) _)
  | @ifElse node test taken other _ h htest htaken hother hends =>
    have htestRoom : 4 * test.size ≤ d := hexpression (h ▸ .head _)
    have hotherRead := hchild hother (h ▸ .tail _ (.tail _ (.head _)))
    rw [Tree.written_ifElse h]
    cases htakes : taken.takesElse with
    | true =>
      -- The braces cost a level of depth.
      have hmem : taken ∈ (Tree.mk node).node.payload.children := h ▸ .tail _ (.head _)
      have := hroom taken hmem
      obtain ⟨d, rfl⟩ := Nat.exists_eq_add_one_of_ne_zero (by omega : d ≠ 0)
      have hbraces := ReadsStatement.inBlock last (htaken.phrase _)
        (hinner taken htaken (Tree.size_lt hmem) d (by omega) (indent + 1))
      exact .ifElse hc h htest htestRoom (by rw [Tree.braced_inBlock, htakes, if_pos rfl])
        taken.endsOpen_inBlock hbraces (hotherRead _)
    | false =>
      have hclosed := hends.resolve_left (by simp [htakes])
      exact .ifElse hc h htest htestRoom (by rw [htakes, if_neg Bool.false_ne_true]) hclosed
        (hchild htaken (h ▸ .tail _ (.head _)) _) (hotherRead _)
  | block _ h hbody =>
    rw [Tree.written_block h]
    exact .block h fun s hs => ⟨(hbody s hs).phrase _, hchild (hbody s hs) (h ▸ mem_children_block hs) _⟩

/-- Every statement is read from its pieces, with four levels of depth for each node. -/
lemma Statements.reads {t : Tree} (h : Statements t) {d : Nat} (hd : 4 * t.size ≤ d) (indent : Nat) :
    ReadsStatement c last d (t.written indent) t := by
  induction hn : t.size using Nat.strong_induction_on generalizing t d indent with
  | h n ih =>
    have hpos := t.size_pos
    obtain ⟨d, rfl⟩ := Nat.exists_eq_add_one_of_ne_zero (by omega : d ≠ 0)
    exact h.reads_step hc last hd
      (fun s hs hlt d hd indent => ih s.size (hn ▸ hlt) hs hd indent rfl) indent

end Reading

/-! ### Scripts -/

namespace Tree

lemma braced_asScript (body : List Tree) : (asScript body).braced = asScript (body.map braced) := by
  rw [asScript, of, braced_mk (by simp [Payload.kind])]
  simp only [foldPayload, foldSlots_eq, List.map_map, asScript, of]
  rfl

end Tree

lemma Spells.scriptPieces (h : ∀ s ∈ body, Statements s) {ts rest : List Lexeme} :
    Spells (Tree.scriptPieces body) ts rest ↔ Spells (Tree.writtenLines 0 (body.map some)) ts rest := by
  cases body with
  | nil => rfl
  | cons s body =>
    obtain ⟨p, hp, -⟩ := ((h s (by simp)).phrase 0).begins
    obtain ⟨ps, hps⟩ := List.head?_eq_some_iff.mp hp
    rw [Tree.scriptPieces, List.map_cons, Tree.writtenLines, hps, lined, List.cons_append, List.cons_append,
      Spells.cons_iff, Spells.cons_iff]

/-- A script is read from its pieces. -/
lemma run_statements (h : ∀ s ∈ body, Statements s) {c : Context} (hc : c.inGenerator = false) {last : Lexeme}
    (hlast : last.kind = .endOfFile) {d : Nat} (hd : ∀ s ∈ body, 4 * s.size ≤ d) {ts : List Lexeme}
    (hts : Spells (Tree.scriptPieces body) ts []) :
    ∃ tree : Tree, tree.unplaced = (Tree.asScript body).braced.bare ∧
      script (rulesUpTo d) c (stateAt last ts) = .ok tree (stateAt last []) := by
  have hend : last.token.isEnd = true := by simp [Token.isEnd, Lexeme.token, hlast]
  have helse : last.token.isKeyword "else" = false := by simp [Token.isKeyword, Lexeme.token, hlast]
  have hending : ListEnd.endOfFile ≠ .caseClause := by decide
  have hends : ListEnd.endOfFile.isAt (stateAt last []).current = true := by
    rw [ListEnd.isAt, show (stateAt last []).current.isEnd = true from hend, Bool.true_or]
  obtain ⟨copies, hcopies, hrepeats⟩ := repeats_statements hending
    (fun s hs => ⟨(h s hs).phrase 0, (h s hs).reads hc last (hd s hs) 0⟩) ((Spells.scriptPieces h).mp hts) hends helse
  have hdrain : drainComments c (stateAt last []) = .ok [] (stateAt last []) := rfl
  refine ⟨.of (.program (copies.map some)) (stateAt last ts).current.position, ?_, ?_⟩
  · rw [Tree.braced_asScript]
    exact Tree.Copies.of fun f g hfold => by
      simp only [Tree.foldPayload, Tree.foldSlots_eq,
        Tree.Copies.map_fold (List.forall₂_map_right_iff.mpr hcopies) hfold]
  · simp only [script, run_bind, run_here, statementList, run_repeatUntil hrepeats, hdrain, run_pure]
    rfl

/-! ### Texts of scripts -/

lemma Piece.BeginsStatement.not_interpreter {p : Piece} (h : p.BeginsStatement) (hvalid : p.Valid)
    (after rest : Text) : p.text ++ after ≠ '#'.toUInt8 :: '!'.toUInt8 :: rest := by
  have hall : ∀ t ∈ statementWords ++ [openBrace, ";"], ∃ c ∈ t.head?, c ≠ '#'.toUInt8 := by decide
  obtain hoperand | ⟨-, hother⟩ := h
  · exact hoperand.not_interpreter hvalid after rest
  · obtain ⟨c, hc, hne⟩ := hall p.text
      (List.mem_append.mpr (hother.imp (fun hword => hword.2) (fun hpunct => hpunct.2)))
    obtain ⟨more, hmore⟩ := List.head?_eq_some_iff.mp hc
    rw [hmore]
    exact fun heq => hne (List.cons.inj heq).1

namespace Statements

variable (h : ∀ s ∈ body, Statements s)

include h

lemma script_tidy : Tidy (Tree.scriptPieces body) := by
  cases body with
  | nil => exact .nil
  | cons s body =>
    exact ((h s (by simp)).phrase 0).tidy.append_apart (Tree.apart_lines fun s hs => (h s (by simp [hs])).phrase 0)

lemma script_balanced : Balanced (Tree.scriptPieces body) := by
  cases body with
  | nil => exact .nil
  | cons s body =>
    exact ((h s (by simp)).balanced 0).append (.lines fun s hs => (h s (by simp [hs])).balanced 0)

/-- The lexer finds the pieces of a script. -/
lemma tokenize_script : ∃ (ts : List Lexeme) (last : Lexeme), Spells (Tree.scriptPieces body) ts [] ∧
    last.kind = .endOfFile ∧
      tokenize (spellings (Tree.scriptPieces body)) = .ok (ts.map Lexeme.token ++ [last.token]) := by
  have htidy := script_tidy h
  cases body with
  | nil => exact tokenize_spellings htidy nofun rfl
  | cons s body =>
    have hphrase := (h s (by simp)).phrase 0
    obtain ⟨p, hp, hbegins⟩ := hphrase.begins
    obtain ⟨ps, hps⟩ := List.head?_eq_some_iff.mp hp
    have hvalid : p.Valid := hphrase.tidy.valid p (List.mem_of_mem_head? hp)
    have hpieces : Tree.scriptPieces (s :: body) = p :: (ps ++ Tree.writtenLines 0 (body.map some)) := by
      rw [Tree.scriptPieces, hps, List.cons_append]
    rw [hpieces] at htidy ⊢
    refine tokenize_spellings htidy (fun q hq => ?_) ?_
    · obtain rfl : p = q := Option.some.inj hq
      exact hbegins.not_slash hvalid
    · rw [← List.append_nil (spellings _)]
      exact interpreterLine_eq_zero hbegins.margin_eq (hbegins.not_interpreter hvalid) []

end Statements

/-- A script of statements that is printed is read back as it was, with braces around the branches that the printer
puts them around. -/
theorem parse_print_script (h : ∀ s ∈ body, Statements s) {printing : PrintOptions} {reading : ParseOptions}
    (hprinting : ∀ s ∈ body, (s.size : Int) ≤ printing.maxDepth)
    (hreading : ∀ s ∈ body, 4 * (s.size : Int) ≤ reading.maxDepth) :
    ∃ code script, (Tree.asScript body).print printing = .ok code ∧ parse code reading = .ok script ∧
      script.tree.unplaced = (Tree.asScript body).braced.bare ∧ script.diagnostics = [] := by
  obtain ⟨ts, last, hts, hlast, htokens⟩ := Statements.tokenize_script h
  have hbrackets : bracketFault? [] (ts.map Lexeme.token ++ [last.token]) = none := by
    rw [Statements.script_balanced h _ _ _ _ hts]
    simp [bracketFault?, Token.isOpening, Token.isClosing, Token.isPunctuator, Lexeme.token, hlast]
  let c : Context :=
    { source := spellings (Tree.scriptPieces body)
      recover := reading.recover
      maxRecoveredErrors := reading.maxRecoveredErrors }
  have hdepth (s : Tree) (hs : s ∈ body) : 4 * s.size ≤ reading.maxDepth.toNat := by
    have := hreading s hs
    omega
  obtain ⟨tree, htree, hscript⟩ := run_statements h (show c.inGenerator = false from rfl) hlast hdepth hts
  have hparse : parse (spellings (Tree.scriptPieces body)) reading = .ok ⟨tree, (stateAt last []).recovered.reverse⟩ :=
    parse_of_script htokens hbrackets (by
      cases ts
      · exact hscript
      · exact hscript)
  exact ⟨_, _, print_script h hprinting, hparse, htree, rfl⟩

section Witness

/-- A statement that decides by a name. -/
def branchOn (name : Text) (taken : Tree) (other : Option Tree) : Tree :=
  .of (.ifStatement (some (.of (.identifier name) {})) (some taken) other) {}

/-- A statement that calls a function by its name. -/
def callOf (name : Text) : Tree :=
  .of (.expressionStatement (some (.of (.callExpression (some (.of (.identifier name) {})) [] false) {}))) {}

/-- A branch that would take the `else` behind it. -/
def openBranch : Tree := branchOn "a" (branchOn "b" (callOf "f") none) (some (callOf "g"))

theorem parse_print_script_openBranch : (∀ s ∈ [openBranch], Statements s) ∧
    (∀ s ∈ [openBranch], (s.size : Int) ≤ ({ maxDepth := 48 } : PrintOptions).maxDepth) ∧
      ∃ code script, (Tree.asScript [openBranch]).print { maxDepth := 48 } = .ok code ∧
        parse code { recover := false, maxDepth := 48 } = .ok script ∧
          script.tree.unplaced = (Tree.asScript [openBranch]).braced.bare ∧ script.diagnostics = [] := by
  have hname (name : Text) (hname : name ∈ (["a", "b", "f", "g"] : List Text)) : IsName name := by
    refine ⟨{ kind := .identifier, text := name, start := 0, stop := 1, position := ⟨1, 1⟩ },
      { kind := .endOfFile, start := 1, stop := 1, position := ⟨1, 2⟩ }, ?_, rfl, rfl⟩
    simp only [List.mem_cons, List.not_mem_nil, or_false] at hname
    obtain rfl | rfl | rfl | rfl := hname <;> decide +kernel
  have hplain : ∀ name ∈ (["a", "b", "f", "g"] : List Text), name ∉ contextualNames := by decide
  have hoperand (name : Text) (hmem : name ∈ (["a", "b", "f", "g"] : List Text)) :
      Operators (.of (.identifier name) {}) := .identifier rfl (hname name hmem) (hplain name hmem)
  have hnone : ∀ e ∈ ([] : List Tree), Operators e := by simp
  have hcall (name : Text) (hmem : name ∈ (["a", "b", "f", "g"] : List Text)) : Statements (callOf name) :=
    .expression ⟨rfl, rfl⟩ rfl (.call rfl (hoperand name hmem) hnone)
  have h : ∀ s ∈ [openBranch], Statements s := by
    rintro s (_ | ⟨_, ⟨⟩⟩)
    exact .ifElse ⟨rfl, rfl⟩ rfl (hoperand "a" (by simp))
      (.ifThen ⟨rfl, rfl⟩ rfl (hoperand "b" (by simp)) (hcall "f" (by simp))) (hcall "g" (by simp)) (.inl rfl)
  exact ⟨h, by decide, parse_print_script h (by decide) (by decide)⟩

example : (Tree.asScript [openBranch]).print {} = .ok "if (a) \x7b\n  if (b) f();\n\x7d else g();" := by decide +kernel

/-- A loop that decides by a name. -/
def loopOn (name : Text) (body : Tree) : Tree :=
  .of (.whileStatement (some (.of (.identifier name) {})) (some body)) {}

/-- A branch whose last statement would take the `else` behind it. -/
def hiddenBranch : Tree := branchOn "a" (loopOn "b" (branchOn "c" (callOf "f") none)) (some (callOf "g"))

/-- Behind a loop that ends with an `if` the printer writes no braces, so that two scripts have one text. -/
theorem print_hiddenBranch : hiddenBranch.endsOpen = false ∧
    ∃ other : Tree, other.endsOpen = true ∧
      (Tree.asScript [hiddenBranch]).print {} = (Tree.asScript [other]).print {} :=
  ⟨by decide, branchOn "a" (loopOn "b" (branchOn "c" (callOf "f") (some (callOf "g")))) none, by decide,
    by decide +kernel⟩

end Witness

end PlainScript
