import PlainScript.Proofs.StatementPrinting

/-! Printed statements are read back with the braces that the printer adds. A statement that ends with an `if` without
`else` is only read back where no `else` follows. -/
namespace PlainScript

open Print Grammar

/-! ### Braces -/

namespace Tree

variable {node : Node Tree}

lemma fold_braceNode (t : Tree) : t.fold braceNode = t.braced := rfl

lemma fold_opensNode (t : Tree) : t.fold opensNode = t.endsOpen := rfl

lemma endsOpen_mk : (mk node).endsOpen = opensNode { node with payload := foldPayload opensNode node.payload } :=
  fold_mk ..

lemma braced_mk (h : node.payload.kind ≠ .ifStatement) :
    (mk node).braced = mk { node with payload := foldPayload braceNode node.payload } := by
  rw [braced, fold_mk, braceNode]
  split
  · next hp =>
    have hkind := kind_foldPayload braceNode node.payload
    rw [show foldPayload braceNode node.payload = _ from hp] at hkind
    exact absurd hkind.symm h
  · rfl

lemma braced_ifThen {test taken : Tree} (h : node.payload = .ifStatement (some test) (some taken) none) :
    (mk node).braced = mk { node with payload := .ifStatement (some test.braced) (some taken.braced) none } := by
  rw [braced, fold_mk, h]
  simp [foldPayload, braceNode, fold_braceNode]

lemma takesElse_braced (t : Tree) : t.braced.takesElse = t.takesElse := by
  obtain ⟨node⟩ := t
  by_cases hkind : node.payload.kind = .ifStatement
  · rw [braced, fold_mk, takesElse, takesElse, node_mk]
    cases hp : node.payload with
    | ifStatement test taken other => cases taken <;> cases other <;> simp [foldPayload, braceNode, Tree.node]
    | _ => simp [hp, Payload.kind] at hkind
  · rw [braced_mk hkind, takesElse, takesElse, node_mk, node_mk]
    cases hp : node.payload with
    | ifStatement => exact absurd (congrArg Payload.kind hp) hkind
    | _ => rfl

lemma braced_ifElse {test taken other : Tree} (h : node.payload = .ifStatement (some test) (some taken) (some other)) :
    (mk node).braced = mk { node with
      payload := (.ifStatement (some test.braced)
        (some (if taken.takesElse then taken.braced.inBlock else taken.braced)) (some other.braced)) } := by
  rw [braced, fold_mk, h]
  simp [foldPayload, braceNode, fold_braceNode, takesElse_braced]

lemma braced_eq_self (hkind : node.payload.kind ≠ .ifStatement)
    (h : foldPayload braceNode node.payload = node.payload) : (mk node).braced = mk node := by
  rw [braced_mk hkind, h]

end Tree

/-- An expression has no branches to brace. -/
lemma Operators.braced_eq {t : Tree} (h : Operators t) : t.braced = t := by
  induction h with
  | identifier h | null h | boolean h | this h | string h =>
    exact Tree.braced_eq_self (by simp [h, Payload.kind]) (by simp [h, Tree.foldPayload])
  | unary h _ _ ih | update h _ _ _ ih =>
    exact Tree.braced_eq_self (by simp [h, Payload.kind]) (by simp [h, Tree.foldPayload, Tree.fold_braceNode, ih])
  | binary h _ _ _ ihl ihr | assignment h _ _ _ _ ihl ihr | index h _ _ ihl ihr =>
    exact Tree.braced_eq_self (by simp [h, Payload.kind]) (by simp [h, Tree.foldPayload, Tree.fold_braceNode, ihl, ihr])
  | conditional h _ _ _ iht ihy ihn =>
    exact Tree.braced_eq_self (by simp [h, Payload.kind])
      (by simp [h, Tree.foldPayload, Tree.fold_braceNode, iht, ihy, ihn])
  | @array _ elements h _ ih =>
    have helements : ∀ slot ∈ elements, slot.map (Tree.fold Tree.braceNode) = slot := by
      rintro (_ | e) he
      · rfl
      · exact congrArg some (ih e he)
    refine Tree.braced_eq_self (by simp [h, Payload.kind]) ?_
    rw [h, Tree.foldPayload, Tree.foldSlots_eq, List.map_congr_left helements, List.map_id']
  | sequence h _ _ ih =>
    exact Tree.braced_eq_self (by simp [h, Payload.kind]) (by simpa [h, Tree.foldPayload, Tree.fold_braceNode] using ih)
  | call h _ _ ihc iha | new h _ _ ihc iha =>
    exact Tree.braced_eq_self (by simp [h, Payload.kind])
      (by simpa [h, Tree.foldPayload, Tree.fold_braceNode, ihc] using iha)
  | @member _ object key _ h _ hkey _ iho =>
    have hname : key.braced = key := by
      obtain ⟨node⟩ := key
      rw [Tree.node_mk] at hkey
      exact Tree.braced_eq_self (by simp [hkey, Payload.kind]) (by simp [hkey, Tree.foldPayload])
    exact Tree.braced_eq_self (by simp [h, Payload.kind])
      (by simp [h, Tree.foldPayload, Tree.fold_braceNode, iho, hname])

/-! ### Rules of statements -/

section Rules

variable {c : Context} {last : Lexeme} {d : Nat} {ps : List Piece} {t : Tree}

/-- Some pieces are read as a statement, where no `else` follows that would carry it on. -/
def ReadsStatement (c : Context) (last : Lexeme) (d : Nat) (ps : List Piece) (t : Tree) : Prop :=
  ∀ ts rest, Spells ps ts rest → (t.endsOpen = true → (stateAt last rest).current.isKeyword "else" = false) →
    Gives c last (rulesUpTo d .statement) t.braced ts rest

lemma run_statement (ts : List Lexeme) :
    rulesUpTo (d + 1) .statement c (stateAt last ts) = bareStatement (rulesUpTo d) c (stateAt last ts) := by
  have hrule : rulesUpTo (d + 1) .statement = Grammar.statement (rulesUpTo d) := rfl
  have hdrain : drainComments c (stateAt last ts) = .ok [] (stateAt last ts) := by cases ts <;> rfl
  simp only [hrule, Grammar.statement, run_bind, hdrain]
  cases bareStatement (rulesUpTo d) c (stateAt last ts) with
  | ok t s =>
    cases t
    rfl
  | error e s => rfl

/-- The rules of the words that statements begin with. -/
def wordRules (rules : Rules) : List (Text × Parser Tree) :=
  [("if", ifStatement rules), ("for", forStatement rules), ("while", whileStatement rules),
    ("do", doWhileStatement rules), ("return", returnStatement rules), ("throw", throwStatement rules),
    ("debugger", debuggerStatement)]

/-- The words of jumps, with their nodes. -/
def jumps : List (Text × (Text → Payload Tree)) := [("break", .breakStatement), ("continue", .continueStatement)]

lemma run_wordStatement {rules : Rules} {word : Text} {rule : Parser Tree} (h : (word, rule) ∈ wordRules rules)
    {u : Lexeme} {us : List Lexeme} (hkind : u.kind = .keyword) (htext : u.text = word) :
    bareStatement rules c (stateAt last (u :: us)) = rule c (stateAt last (u :: us)) := by
  obtain ⟨kind, text, start, stop, position, isPlain, startsLine⟩ := u
  obtain rfl : kind = .keyword := hkind
  obtain rfl : text = word := htext
  simp only [wordRules, List.mem_cons, Prod.mk.injEq, List.not_mem_nil, or_false] at h
  obtain ⟨rfl, rfl⟩ | ⟨rfl, rfl⟩ | ⟨rfl, rfl⟩ | ⟨rfl, rfl⟩ | ⟨rfl, rfl⟩ | ⟨rfl, rfl⟩ | ⟨rfl, rfl⟩ := h <;> rfl

lemma run_expectWord {u : Lexeme} {us : List Lexeme} {word : Text} (hkind : u.kind = .keyword) (htext : u.text = word) :
    expectWord word c (stateAt last (u :: us)) = .ok () (stateAt last us) := by
  have hword : u.token.isKeyword word = true := by simp [Token.isKeyword, Lexeme.token, hkind, htext]
  simp only [expectWord, run_bind, run_atWord, current_stateAt, hword, Bool.not_true, Bool.false_eq_true, if_false,
    run_skip]

lemma run_semicolon {u : Lexeme} {us : List Lexeme} (hkind : u.kind = .punctuator) (htext : u.text = ";") :
    semicolon c (stateAt last (u :: us)) = .ok () (stateAt last us) := by
  simp only [semicolon, run_bind, run_eat (Lexeme.isPunctuator_of hkind htext), Bool.not_true, Bool.false_eq_true,
    if_false, run_pure]

end Rules

/-! ### First tokens -/

/-- What the first token of a statement tells the list that it stands in. -/
structure Goes (t : Token) : Prop where
  isEnd : t.isEnd = false
  closes : t.isPunctuator closeBrace = false
  alternate : t.isKeyword "else" = false

lemma Piece.BeginsStatement.goes {p : Piece} {u : Lexeme} (h : p.BeginsStatement) (hkind : u.kind = p.kind)
    (htext : u.text = p.text) : Goes u.token := by
  have hwords : ∀ t ∈ statementWords, t ≠ "else" := by decide
  have hpunctuators : ∀ t ∈ ([openBrace, ";"] : List Text), t ≠ closeBrace := by decide
  obtain hoperand | ⟨-, ⟨hword, hmem⟩ | ⟨hpunct, hmem⟩⟩ := h
  · have hbegins := hoperand.beginsExpression hkind htext
    exact ⟨hbegins.isEnd, hbegins.punctuator _ (by decide), hbegins.keyword _ (by decide)⟩
  · constructor <;>
      simp [Token.isEnd, Token.isPunctuator, Token.isKeyword, Lexeme.token, hkind, htext, hword, hwords _ hmem]
  · constructor <;>
      simp [Token.isEnd, Token.isPunctuator, Token.isKeyword, Lexeme.token, hkind, htext, hpunct, hpunctuators _ hmem]

lemma Phrase.goes {ps : List Piece} (h : Phrase ps) {ts rest : List Lexeme} (hts : Spells ps ts rest) :
    ∃ u us, ts = u :: us ∧ Goes u.token := by
  obtain ⟨p, hp, hbegins⟩ := h.begins
  obtain ⟨ps, rfl⟩ := List.head?_eq_some_iff.mp hp
  obtain ⟨u, us, rfl, hkind, htext, -⟩ := Spells.cons_iff.mp hts
  exact ⟨u, us, rfl, hbegins.goes hkind htext⟩

/-- Behind a word on its line an expression does not start a line. -/
lemma Sound.startsLine_eq_false {ps qs : List Piece} (h : Sound ps) {us : List Lexeme} {v : Lexeme}
    (hlines : ∀ q ∈ (spaced ps ++ qs).head?, ∀ v ∈ us.head?, v.startsLine = q.margin.isLine) (hv : v ∈ us.head?) :
    v.startsLine = false := by
  obtain ⟨p, hp, hmargin⟩ := h.unspaced
  obtain ⟨ps, rfl⟩ := List.head?_eq_some_iff.mp hp
  rw [hlines _ (by rfl) v hv, Margin.isLine_spaced, hmargin]
  rfl

/-! ### Parts of statements -/

section Parts

variable {c : Context} (hc : c.inGenerator = false) (last : Lexeme) (d : Nat)

include hc

lemma run_condition {test : Tree} (h : Operators test) (hd : 4 * test.size ≤ d + 2) {ts rest : List Lexeme}
    (hts : Spells test.conditionPieces ts rest) : Gives c last (condition (rulesUpTo d)) test ts rest := by
  obtain ⟨u, us, v, rfl, hps, hkind, htext, hkind', htext'⟩ := (Spells.spaced_iff.mp hts).inBrackets
  have hreach : v.reach = 0 := by
    rw [Lexeme.reach, hkind', htext']
    decide
  have hread : Readable c last test := h.readable hc
  obtain ⟨copy, hrun, hcopy⟩ := hread.expression d hd us v rest hps (by rw [hreach]; decide)
  refine ⟨copy, ?_, hcopy⟩
  simp only [condition, run_bind, run_expect (Lexeme.isPunctuator_of hkind htext), hrun,
    run_expect (Lexeme.isPunctuator_of hkind' htext'), run_pure]

/-- An expression that may be missing, in front of what closes it. -/
lemma run_optional {e : Option Tree} (h : ∀ x ∈ e, Operators x) (hd : ∀ x ∈ e, 4 * x.size ≤ d + 2) (closing : Text)
    (hclosing : closing ∈ ([";", ")"] : List Text)) {v : Lexeme} {ts rest : List Lexeme}
    (hts : Spells (Tree.optionalPieces e) ts (v :: rest)) (hkind : v.kind = .punctuator) (htext : v.text = closing) :
    ∃ copy, Option.Rel Tree.Copies copy e ∧
      optionalExpression (rulesUpTo d) closing c (stateAt last ts) = .ok copy (stateAt last rest) := by
  have hclose : v.token.isPunctuator closing = true := Lexeme.isPunctuator_of hkind htext
  cases e with
  | none =>
    obtain rfl := Spells.nil_iff.mp hts
    refine ⟨none, .none, ?_⟩
    simp only [optionalExpression, run_bind, run_atPunct, current_stateAt, hclose, if_true, run_pure, run_expect hclose]
  | some x =>
    have hall : ∀ p ∈ ([";", ")"] : List Text), p ∉ openings ∧ reachOf .punctuator p < Level.sequence := by decide
    obtain ⟨hopening, hreach⟩ := hall closing hclosing
    have hps := Spells.spaced_iff.mp hts
    obtain ⟨u, us, rfl, -, hfirst⟩ := (h x rfl).sound.first hps
    have hread : Readable c last x := (h x rfl).readable hc
    obtain ⟨copy, hrun, hcopy⟩ := hread.expression d (hd x rfl) _ v rest hps (by rwa [Lexeme.reach, hkind, htext])
    refine ⟨some copy, .some hcopy, ?_⟩
    simp only [optionalExpression, run_bind, run_atPunct, current_stateAt, hfirst _ hopening, Bool.false_eq_true,
      if_false, map_eq_pure_bind, hrun, run_pure, run_expect hclose]

end Parts

/-- The label of a jump, or none. -/
lemma run_jumpLabel (c : Context) (last : Lexeme) {word label : Text} {ts rest : List Lexeme}
    (hts : Spells (jumpPieces word label) ts rest) :
    jumpLabel c (stateAt last ts) = .ok label (stateAt last rest) := by
  obtain ⟨u, us, rfl, -, -, hlines, hus⟩ := Spells.cons_iff.mp hts
  by_cases hempty : label.isEmpty
  · obtain rfl := List.isEmpty_iff.mp hempty
    obtain ⟨semi, rfl, hkind, htext⟩ := Spells.single_iff.mp hus
    have hname : semi.token.isIdentifier = false := by simp [Token.isIdentifier, Lexeme.token, hkind, Piece.punctuator]
    simp only [jumpLabel, run_bind, run_skip, run_current, current_stateAt, hname, Bool.false_and, Bool.false_eq_true,
      if_false, run_pure, run_semicolon hkind htext]
  · rw [if_neg hempty] at hus hlines
    obtain ⟨v, vs, rfl, hkind, htext, -, hvs⟩ := Spells.cons_iff.mp hus
    obtain ⟨semi, rfl, hkind', htext'⟩ := Spells.single_iff.mp hvs
    have hname : v.token.isIdentifier = true := by simp [Token.isIdentifier, Lexeme.token, hkind]
    have hline : v.token.newlineBefore = false := hlines _ rfl v rfl
    have hlabel : v.token.text = label := htext
    simp only [jumpLabel, run_bind, run_skip, run_current, current_stateAt, hname, hline, Bool.not_false, Bool.and_self,
      if_true, run_advance, hlabel, run_pure, run_semicolon hkind' htext']

/-! ### Lists of statements -/

section Lists

variable {c : Context} {last : Lexeme} {d indent : Nat} {body : List Tree}

/-- The tokens of statements on lines of their own, up to where the list ends. -/
lemma repeats_statements {ending : ListEnd} (hending : ending ≠ .caseClause)
    (h : ∀ s ∈ body, Phrase (s.written indent) ∧ ReadsStatement c last d (s.written indent) s) {ts rest : List Lexeme}
    (hts : Spells (Tree.writtenLines indent (body.map some)) ts rest)
    (hend : ending.isAt (stateAt last rest).current = true)
    (helse : (stateAt last rest).current.isKeyword "else" = false) :
    ∃ copies, List.Forall₂ (fun (copy : Tree) s => copy.Copies s.braced) copies body ∧
      Repeats c last (return ending.isAt (← current)) (listedStatement (rulesUpTo d) ending) ts copies rest := by
  induction body generalizing ts with
  | nil =>
    obtain rfl := Spells.nil_iff.mp hts
    exact ⟨[], .nil, .nil (by simp only [run_bind, run_current, hend, run_pure])⟩
  | cons s body ih =>
    obtain ⟨hphrase, hread⟩ := h s (by simp)
    rw [List.map_cons, Tree.writtenLines] at hts
    obtain ⟨mid, hs, hbody, -⟩ := hts.append
    replace hs := Spells.lined_iff.mp hs
    have hnext : (stateAt last mid).current.isKeyword "else" = false := by
      cases body with
      | nil =>
        obtain rfl := Spells.nil_iff.mp hbody
        exact helse
      | cons next body =>
        rw [List.map_cons, Tree.writtenLines] at hbody
        obtain ⟨below, hnext, -⟩ := hbody.append
        obtain ⟨u, us, rfl, hgoes⟩ := (h next (by simp)).1.goes (Spells.lined_iff.mp hnext)
        exact hgoes.alternate
    obtain ⟨copies, hcopies, hrepeats⟩ := ih (fun s hs => h s (by simp [hs])) hbody
    obtain ⟨copy, hrun, hcopy⟩ := hread ts mid hs fun _ => hnext
    obtain ⟨u, us, rfl, hgoes⟩ := hphrase.goes hs
    refine ⟨copy :: copies, .cons hcopy hcopies, .cons ?_ ?_ ?_ hrepeats⟩
    · have hgoesOn : ending.isAt u.token = false := by
        cases ending with
        | endOfFile => simp [ListEnd.isAt, hgoes.isEnd]
        | closingBrace => simp [ListEnd.isAt, hgoes.isEnd, hgoes.closes]
        | caseClause => exact absurd rfl hending
      simp only [run_bind, run_current, current_stateAt, hgoesOn, run_pure]
    · simp only [listedStatement, run_bind, run_get, run_tryCatch, hrun]
    · have := List.length_pos_iff.mpr hphrase.ne_nil
      have := hs.length
      omega

/-- Statements between braces. -/
lemma run_block {m : Nat} (h : ∀ s ∈ body, Phrase (s.written indent) ∧ ReadsStatement c last d (s.written indent) s)
    {ts rest : List Lexeme} (hts : Spells (inBraces m (Tree.writtenLines indent (body.map some))) ts rest) :
    ∃ copies position, List.Forall₂ (fun (copy : Tree) s => copy.Copies s.braced) copies body ∧
      bareStatement (rulesUpTo d) c (stateAt last ts) =
        .ok (.of (.blockStatement (copies.map some)) position) (stateAt last rest) := by
  obtain ⟨u, us, rfl, hkind, htext, -, hus⟩ := Spells.cons_iff.mp hts
  obtain ⟨mid, hlines, hclosing, -⟩ := hus.append
  obtain ⟨v, rfl, hkind', htext'⟩ := Spells.single_iff.mp hclosing
  have hopen : u.token.isPunctuator openBrace = true := Lexeme.isPunctuator_of hkind htext
  have hclose : v.token.isPunctuator closeBrace = true := Lexeme.isPunctuator_of hkind' htext'
  have hend : ListEnd.closingBrace.isAt (stateAt last (v :: rest)).current = true := by
    simp [ListEnd.isAt, hclose]
  have helse : (stateAt last (v :: rest)).current.isKeyword "else" = false := by
    simp [Token.isKeyword, Lexeme.token, hkind']
  have hending : ListEnd.closingBrace ≠ .caseClause := by decide
  obtain ⟨copies, hcopies, hrepeats⟩ := repeats_statements hending h hlines hend helse
  refine ⟨copies, u.position, hcopies, ?_⟩
  have hbare : bareStatement (rulesUpTo d) c (stateAt last (u :: us)) =
      Grammar.block (rulesUpTo d) c (stateAt last (u :: us)) := by
    simp only [bareStatement, run_bind, run_current, run_ahead, current_stateAt, hopen, if_true]
  have hdrain : drainComments c (stateAt last (v :: rest)) = .ok [] (stateAt last (v :: rest)) := rfl
  rw [hbare]
  simp only [Grammar.block, run_bind, run_here, run_expect hopen, statementList, run_repeatUntil hrepeats, hdrain,
    run_expect hclose, run_pure]
  rfl

end Lists

/-! ### Statements -/

namespace ReadsStatement

variable {c : Context} {last : Lexeme} {d : Nat} {node : Node Tree} {ps qs : List Piece}

lemma of_bare {t : Tree} (h : ∀ ts rest, Spells ps ts rest →
      (t.endsOpen = true → (stateAt last rest).current.isKeyword "else" = false) →
        Gives c last (bareStatement (rulesUpTo d)) t.braced ts rest) : ReadsStatement c last (d + 1) ps t := by
  intro ts rest hts helse
  obtain ⟨copy, hrun, hcopy⟩ := h ts rest hts helse
  exact ⟨copy, (run_statement ts).trans hrun, hcopy⟩

/-- A statement that begins with a word of its own. -/
lemma of_word {t : Tree} {word : Text} (rule : Parser Tree) (hword : (word, rule) ∈ wordRules (rulesUpTo d))
    (h : ∀ u us rest, u.kind = .keyword → u.text = word →
      (∀ q ∈ ps.head?, ∀ v ∈ us.head?, v.startsLine = q.margin.isLine) → Spells ps us rest →
        (t.endsOpen = true → (stateAt last rest).current.isKeyword "else" = false) →
          Gives c last rule t.braced (u :: us) rest) :
    ReadsStatement c last (d + 1) (.keyword word :: ps) t := by
  refine .of_bare fun ts rest hts helse => ?_
  obtain ⟨u, us, rfl, hkind, htext, hlines, hus⟩ := Spells.cons_iff.mp hts
  obtain ⟨copy, hrun, hcopy⟩ := h u us rest hkind htext hlines hus helse
  exact ⟨copy, (run_wordStatement hword hkind htext).trans hrun, hcopy⟩

lemma empty (h : node.payload = .emptyStatement) : ReadsStatement c last (d + 1) [.punctuator ";"] (.mk node) := by
  refine .of_bare fun ts rest hts _ => ?_
  obtain ⟨u, rfl, hkind, htext⟩ := Spells.single_iff.mp hts
  have hbrace : u.token.isPunctuator openBrace = false := Lexeme.not_isPunctuator fun _ => by
    rw [htext]
    decide
  have hsemi : u.token.isPunctuator ";" = true := Lexeme.isPunctuator_of hkind htext
  refine ⟨.of .emptyStatement u.position, ?_, ?_⟩
  · simp only [bareStatement, run_bind, run_current, run_ahead, current_stateAt, hbrace, Bool.false_eq_true, if_false,
      hsemi, if_true, run_skip, run_pure]
    rfl
  · rw [Tree.braced_mk (by simp [h, Payload.kind]), h]
    exact .of fun f g _ => by simp [Tree.foldPayload]

lemma debugger (h : node.payload = .debuggerStatement) :
    ReadsStatement c last (d + 1) [.keyword "debugger", .punctuator ";"] (.mk node) := by
  refine .of_word debuggerStatement (by simp [wordRules]) fun u us rest _ _ _ hus _ => ?_
  obtain ⟨semi, rfl, hkind, htext⟩ := Spells.single_iff.mp hus
  refine ⟨.of .debuggerStatement u.position, ?_, ?_⟩
  · simp only [debuggerStatement, run_bind, run_here, run_skip, run_semicolon hkind htext, run_pure]
    rfl
  · rw [Tree.braced_mk (by simp [h, Payload.kind]), h]
    exact .of fun f g _ => by simp [Tree.foldPayload]

lemma expression (hc : c.inGenerator = false) {e : Tree} (h : node.payload = .expressionStatement (some e))
    (he : Operators e) (hd : 4 * e.size + 2 ≤ d) : ReadsStatement c last (d + 1) e.statementPieces (.mk node) := by
  intro ts rest hts _
  obtain ⟨ps, hps, hsound, -, hread⟩ := he.statementPieces_eq
  rw [hps] at hts
  obtain ⟨mid, hexpression, hsemi, -⟩ := hts.append
  obtain ⟨semi, rfl, hkind, htext⟩ := Spells.single_iff.mp hsemi
  obtain ⟨u, us, rfl, -, copy, hcopy, hrun⟩ := run_expressionStatement hc (by omega) (hread c last hc d (by omega)) hsound
    hexpression hkind htext
  refine ⟨_, hrun, ?_⟩
  rw [Tree.braced_mk (by simp [h, Payload.kind]), h]
  exact .of fun f g hfold => by simp [Tree.foldPayload, Tree.fold_braceNode, he.braced_eq, hfold _ _ hcopy]

lemma throw (hc : c.inGenerator = false) {e : Tree} (h : node.payload = .throwStatement (some e)) (he : Operators e)
    (hd : 4 * e.size ≤ d) :
    ReadsStatement c last (d + 1) (.keyword "throw" :: (spaced e.layout.pieces ++ [.punctuator ";"])) (.mk node) := by
  refine .of_word (throwStatement (rulesUpTo d)) (by simp [wordRules]) fun u us rest hkind htext hlines hus _ => ?_
  obtain ⟨mid, hexpression, hsemi, -⟩ := hus.append
  obtain ⟨semi, rfl, hkind', htext'⟩ := Spells.single_iff.mp hsemi
  have hps := Spells.spaced_iff.mp hexpression
  obtain ⟨v, vs, rfl, -⟩ := he.sound.first hps
  have hline : v.token.newlineBefore = false := he.sound.startsLine_eq_false hlines rfl
  have hread : Readable c last e := he.readable hc
  obtain ⟨copy, hrun, hcopy⟩ := hread.expression d (by omega) (v :: vs) semi rest hps (by
    rw [Lexeme.reach, hkind', htext']
    decide)
  refine ⟨.of (.throwStatement (some copy)) u.position, ?_, ?_⟩
  · simp only [throwStatement, run_bind, run_here, run_expectWord hkind htext, run_current, current_stateAt, hline,
      Bool.false_eq_true, if_false, run_pure, hrun, run_semicolon hkind' htext']
    rfl
  · rw [Tree.braced_mk (by simp [h, Payload.kind]), h]
    exact .of fun f g hfold => by simp [Tree.foldPayload, Tree.fold_braceNode, he.braced_eq, hfold _ _ hcopy]

lemma «while» (hc : c.inGenerator = false) {test body : Tree}
    (h : node.payload = .whileStatement (some test) (some body)) (htest : Operators test) (hd : 4 * test.size ≤ d)
    (hbody : ReadsStatement c last d ps body) :
    ReadsStatement c last (d + 1) (.keyword "while" :: (test.conditionPieces ++ spaced ps)) (.mk node) := by
  refine .of_word (whileStatement (rulesUpTo d)) (by simp [wordRules]) fun u us rest hkind htext _ hus helse => ?_
  obtain ⟨mid, hcondition, hps, -⟩ := hus.append
  obtain ⟨testCopy, htestRun, htestCopy⟩ := run_condition hc last d htest (by omega) hcondition
  obtain ⟨bodyCopy, hbodyRun, hbodyCopy⟩ := hbody mid rest (Spells.spaced_iff.mp hps) fun hopen =>
    helse (by simpa [Tree.endsOpen_mk, h, Tree.foldPayload, Tree.opensNode, Tree.fold_opensNode] using hopen)
  refine ⟨.of (.whileStatement (some testCopy) (some bodyCopy)) u.position, ?_, ?_⟩
  · simp only [whileStatement, run_bind, run_here, run_expectWord hkind htext, htestRun, hbodyRun, run_pure]
    rfl
  · rw [Tree.braced_mk (by simp [h, Payload.kind]), h]
    exact .of fun f g hfold => by
      simp [Tree.foldPayload, Tree.fold_braceNode, htest.braced_eq, hfold _ _ htestCopy, hfold _ _ hbodyCopy]

lemma doWhile (hc : c.inGenerator = false) {test body : Tree}
    (h : node.payload = .doWhileStatement (some body) (some test)) (htest : Operators test) (hd : 4 * test.size ≤ d)
    (hbody : ReadsStatement c last d ps body) :
    ReadsStatement c last (d + 1)
      (.keyword "do" :: (spaced ps ++ spaced [.keyword "while"] ++ test.conditionPieces ++ [.punctuator ";"]))
      (.mk node) := by
  refine .of_word (doWhileStatement (rulesUpTo d)) (by simp [wordRules]) fun u us rest hkind htext _ hus _ => ?_
  obtain ⟨mid, hfront, hsemi, -⟩ := hus.append
  obtain ⟨semi, rfl, hkind', htext'⟩ := Spells.single_iff.mp hsemi
  obtain ⟨mid, hfront, hcondition, -⟩ := hfront.append
  obtain ⟨mid', hps, hword, -⟩ := hfront.append
  obtain ⟨v, rfl, hkindv, htextv⟩ := Spells.single_iff.mp (Spells.spaced_iff.mp hword)
  have helse : v.token.isKeyword "else" = false := by
    have hne : (v.text == ("else" : Text)) = false := by
      rw [htextv]
      decide
    simp [Token.isKeyword, Lexeme.token, hne]
  obtain ⟨bodyCopy, hbodyRun, hbodyCopy⟩ := hbody us (v :: mid) (Spells.spaced_iff.mp hps) fun _ => helse
  obtain ⟨testCopy, htestRun, htestCopy⟩ := run_condition hc last d htest (by omega) hcondition
  have hagain : expectWord "while" c (stateAt last (v :: mid)) = .ok () (stateAt last mid) := run_expectWord hkindv htextv
  have hend : discard (eat ";") c (stateAt last (semi :: rest)) = .ok () (stateAt last rest) := by
    have heat : semi.token.isPunctuator ";" = true := Lexeme.isPunctuator_of hkind' htext'
    simp only [Functor.discard, map_const, Function.comp_apply, map_eq_pure_bind, run_bind, run_eat heat, run_pure]
  refine ⟨.of (.doWhileStatement (some bodyCopy) (some testCopy)) u.position, ?_, ?_⟩
  · simp only [doWhileStatement, run_bind, run_here, run_expectWord hkind htext, hbodyRun, hagain, htestRun, hend,
      run_pure]
    rfl
  · rw [Tree.braced_mk (by simp [h, Payload.kind]), h]
    exact .of fun f g hfold => by
      simp [Tree.foldPayload, Tree.fold_braceNode, htest.braced_eq, hfold _ _ htestCopy, hfold _ _ hbodyCopy]

lemma ifThen (hc : c.inGenerator = false) {test taken : Tree}
    (h : node.payload = .ifStatement (some test) (some taken) none) (htest : Operators test) (hd : 4 * test.size ≤ d)
    (htaken : ReadsStatement c last d ps taken) :
    ReadsStatement c last (d + 1) (.keyword "if" :: (test.conditionPieces ++ spaced ps)) (.mk node) := by
  refine .of_word (ifStatement (rulesUpTo d)) (by simp [wordRules]) fun u us rest hkind htext _ hus helse => ?_
  obtain ⟨mid, hcondition, hps, -⟩ := hus.append
  have halone : (stateAt last rest).current.isKeyword "else" = false :=
    helse (by simp [Tree.endsOpen_mk, h, Tree.foldPayload, Tree.opensNode])
  obtain ⟨testCopy, htestRun, htestCopy⟩ := run_condition hc last d htest (by omega) hcondition
  obtain ⟨takenCopy, htakenRun, htakenCopy⟩ := htaken mid rest (Spells.spaced_iff.mp hps) fun _ => halone
  refine ⟨.of (.ifStatement (some testCopy) (some takenCopy) none) u.position, ?_, ?_⟩
  · simp only [ifStatement, run_bind, run_here, run_expectWord hkind htext, htestRun, htakenRun, run_atWord, halone,
      Bool.false_eq_true, if_false, run_pure]
    rfl
  · rw [Tree.braced_ifThen h]
    exact .of fun f g hfold => by
      simp [Tree.foldPayload, htest.braced_eq, hfold _ _ htestCopy, hfold _ _ htakenCopy]

/-- The branch in front of an `else` is `shown`, which has braces if it needs them. -/
lemma ifElse (hc : c.inGenerator = false) {test taken other shown : Tree}
    (h : node.payload = .ifStatement (some test) (some taken) (some other)) (htest : Operators test)
    (hd : 4 * test.size ≤ d) (hshown : shown.braced = if taken.takesElse then taken.braced.inBlock else taken.braced)
    (hclosed : shown.endsOpen = false) (htaken : ReadsStatement c last d ps shown)
    (hother : ReadsStatement c last d qs other) :
    ReadsStatement c last (d + 1)
      (.keyword "if" :: (test.conditionPieces ++ spaced ps ++ spaced [.keyword "else"] ++ spaced qs)) (.mk node) := by
  refine .of_word (ifStatement (rulesUpTo d)) (by simp [wordRules]) fun u us rest hkind htext _ hus helse => ?_
  obtain ⟨mid, hfront, hqs, -⟩ := hus.append
  obtain ⟨mid', hfront, hword, -⟩ := hfront.append
  obtain ⟨v, rfl, hkindv, htextv⟩ := Spells.single_iff.mp (Spells.spaced_iff.mp hword)
  obtain ⟨mid', hcondition, hps, -⟩ := hfront.append
  have hmark : v.token.isKeyword "else" = true := by
    simp [Token.isKeyword, Lexeme.token, hkindv, htextv, Piece.keyword]
  obtain ⟨testCopy, htestRun, htestCopy⟩ := run_condition hc last d htest (by omega) hcondition
  obtain ⟨takenCopy, htakenRun, htakenCopy⟩ := htaken mid' (v :: mid) (Spells.spaced_iff.mp hps) fun hopen =>
    absurd hopen (by simp [hclosed])
  obtain ⟨otherCopy, hotherRun, hotherCopy⟩ := hother mid rest (Spells.spaced_iff.mp hqs) fun hopen =>
    helse (by simpa [Tree.endsOpen_mk, h, Tree.foldPayload, Tree.opensNode, Tree.fold_opensNode] using hopen)
  refine ⟨.of (.ifStatement (some testCopy) (some takenCopy) (some otherCopy)) u.position, ?_, ?_⟩
  · simp only [ifStatement, run_bind, run_here, run_expectWord hkind htext, htestRun, htakenRun, run_atWord,
      current_stateAt, hmark, if_true, run_skip, map_eq_pure_bind, hotherRun, run_pure]
    rfl
  · rw [Tree.braced_ifElse h, ← hshown]
    exact .of fun f g hfold => by
      simp [Tree.foldPayload, htest.braced_eq, hfold _ _ htestCopy, hfold _ _ htakenCopy, hfold _ _ hotherCopy]

lemma «return» (hc : c.inGenerator = false) {e : Option Tree} (h : node.payload = .returnStatement e)
    (he : ∀ x ∈ e, Operators x) (hd : ∀ x ∈ e, 4 * x.size ≤ d) :
    ReadsStatement c last (d + 1) (.keyword "return" :: (Tree.optionalPieces e ++ [.punctuator ";"])) (.mk node) := by
  refine .of_word (returnStatement (rulesUpTo d)) (by simp [wordRules]) fun u us rest hkind htext hlines hus _ => ?_
  obtain ⟨mid, hexpression, hsemi, -⟩ := hus.append
  obtain ⟨semi, rfl, hkind', htext'⟩ := Spells.single_iff.mp hsemi
  cases e with
  | none =>
    obtain rfl := Spells.nil_iff.mp hexpression
    have hend : semi.token.isPunctuator ";" = true := Lexeme.isPunctuator_of hkind' htext'
    refine ⟨.of (.returnStatement none) u.position, ?_, ?_⟩
    · simp only [returnStatement, run_bind, run_here, run_expectWord hkind htext, run_current, current_stateAt, hend,
        Bool.true_or, if_true, run_pure, run_semicolon hkind' htext']
      rfl
    · rw [Tree.braced_mk (by simp [h, Payload.kind]), h]
      exact .of fun f g _ => by simp [Tree.foldPayload]
  | some x =>
    have hx := he x rfl
    have hps := Spells.spaced_iff.mp hexpression
    obtain ⟨v, vs, rfl, -, hfirst⟩ := hx.sound.first hps
    obtain ⟨_, _, heq, hgoes⟩ := Phrase.goes ⟨hx.sound.tidy, hx.sound.begins.imp fun p hp => ⟨hp.1, .inl hp.2⟩⟩ hps
    obtain ⟨rfl, rfl⟩ := List.cons.inj heq
    have hline : v.token.newlineBefore = false := hx.sound.startsLine_eq_false hlines rfl
    have hread : Readable c last x := hx.readable hc
    obtain ⟨copy, hrun, hcopy⟩ := hread.expression d (Nat.le_add_right_of_le (hd x rfl)) _ semi rest hps (by
      rw [Lexeme.reach, hkind', htext']
      decide)
    refine ⟨.of (.returnStatement (some copy)) u.position, ?_, ?_⟩
    · simp only [returnStatement, run_bind, run_here, run_expectWord hkind htext, run_current, current_stateAt,
        hfirst ";" (by decide), hgoes.closes, hgoes.isEnd, hline, Bool.or_self, Bool.false_eq_true, if_false,
        map_eq_pure_bind, hrun, run_pure, run_semicolon hkind' htext']
      rfl
    · rw [Tree.braced_mk (by simp [h, Payload.kind]), h]
      exact .of fun f g hfold => by simp [Tree.foldPayload, Tree.fold_braceNode, hx.braced_eq, hfold _ _ hcopy]

lemma «for» (hc : c.inGenerator = false) {test update : Option Tree} {body : Tree}
    (h : node.payload = .forStatement none test update (some body)) (htest : ∀ x ∈ test, Operators x)
    (hupdate : ∀ x ∈ update, Operators x) (hdt : ∀ x ∈ test, 4 * x.size ≤ d) (hdu : ∀ x ∈ update, 4 * x.size ≤ d)
    (hbody : ReadsStatement c last d ps body) :
    ReadsStatement c last (d + 1)
      (.keyword "for" :: (spaced (inBrackets "("
        (.punctuator ";" :: (Tree.optionalPieces test ++ .punctuator ";" :: Tree.optionalPieces update)) ")") ++
          spaced ps)) (.mk node) := by
  refine .of_word (forStatement (rulesUpTo d)) (by simp [wordRules]) fun u us rest hkind htext _ hus helse => ?_
  obtain ⟨mid, hhead, hps, -⟩ := hus.append
  obtain ⟨o, os, v, rfl, hinner, hkindo, htexto, hkindv, htextv⟩ := (Spells.spaced_iff.mp hhead).inBrackets
  obtain ⟨x, xs, rfl, hkindx, htextx, -, hxs⟩ := Spells.cons_iff.mp hinner
  obtain ⟨mid', htestPieces, hsecond, -⟩ := hxs.append
  obtain ⟨y, ys, rfl, hkindy, htexty, -, hupdatePieces⟩ := Spells.cons_iff.mp hsecond
  obtain ⟨testCopy, htestCopy, htestRun⟩ := run_optional hc last d htest
    (fun z hz => Nat.le_add_right_of_le (hdt z hz)) ";" (by simp) htestPieces hkindy htexty
  obtain ⟨updateCopy, hupdateCopy, hupdateRun⟩ := run_optional hc last d hupdate
    (fun z hz => Nat.le_add_right_of_le (hdu z hz)) ")" (by simp) hupdatePieces hkindv htextv
  obtain ⟨bodyCopy, hbodyRun, hbodyCopy⟩ := hbody mid rest (Spells.spaced_iff.mp hps) fun hopen =>
    helse (by simpa [Tree.endsOpen_mk, h, Tree.foldPayload, Tree.opensNode, Tree.fold_opensNode] using hopen)
  have hopening : o.token.isPunctuator "(" = true := Lexeme.isPunctuator_of hkindo htexto
  have hfirst : x.token.isPunctuator ";" = true := Lexeme.isPunctuator_of hkindx htextx
  have hawait : o.token.isName "await" = false := by simp [Token.isName, Lexeme.token, hkindo]
  have hname (n : Text) : x.token.isName n = false := by simp [Token.isName, Lexeme.token, hkindx, Piece.punctuator]
  have hword (k : Text) : x.token.isKeyword k = false := by
    simp [Token.isKeyword, Lexeme.token, hkindx, Piece.punctuator]
  have hlexical : atLexicalDeclaration c (stateAt last (x :: xs)) = .ok false (stateAt last (x :: xs)) := by
    simp only [atLexicalDeclaration, run_bind, run_atWord, run_atName, run_ahead, current_stateAt, hword, hname,
      Bool.false_eq_true, if_false, Bool.false_and, run_pure]
  refine ⟨.of (.forStatement none testCopy updateCopy (some bodyCopy)) u.position, ?_, ?_⟩
  · simp only [forStatement, run_bind, run_here, run_expectWord hkind htext, run_atName, run_atWord, run_atPunct,
      current_stateAt, hawait, run_expect hopening, hfirst, hlexical, hname, hword, Bool.or_self, Bool.false_eq_true,
      if_false, if_true, run_pure, run_expect hfirst, htestRun, hupdateRun, hbodyRun]
    rfl
  · rw [Tree.braced_mk (by simp [h, Payload.kind]), h]
    refine .of fun f g hfold => ?_
    have hfolds {copy e : Option Tree} (hcopy : Option.Rel Tree.Copies copy e) (he : ∀ x ∈ e, Operators x) :
        copy.map (Tree.fold f) = (e.map (Tree.fold Tree.braceNode)).map (Tree.fold g) := by
      cases hcopy with
      | none => rfl
      | @some _ x hcopy =>
        rw [Option.map_some, Option.map_some, Option.map_some, Tree.fold_braceNode, (he x rfl).braced_eq, hfold _ _ hcopy]
    simp only [Tree.foldPayload, Tree.foldSlot_eq, hfolds htestCopy htest, hfolds hupdateCopy hupdate, Option.map_none,
      Option.map_some, Tree.fold_braceNode, hfold _ _ hbodyCopy]

lemma jump {word label : Text} {make : Text → Payload Tree} (hword : (word, make) ∈ jumps)
    (h : node.payload = make label) : ReadsStatement c last (d + 1) (jumpPieces word label) (.mk node) := by
  refine .of_bare fun ts rest hts _ => ?_
  have hrun := run_jumpLabel c last hts
  obtain ⟨u, us, rfl, hkind, htext, -⟩ := Spells.cons_iff.mp hts
  refine ⟨.of (make label) u.position, ?_, ?_⟩
  · have hbare : bareStatement (rulesUpTo d) c (stateAt last (u :: us)) =
        (do return .of (make (← jumpLabel)) u.position : Parser Tree) c (stateAt last (u :: us)) := by
      obtain ⟨kind, text, start, stop, position, isPlain, startsLine⟩ := u
      obtain rfl : kind = .keyword := hkind
      obtain rfl : text = word := htext
      simp only [jumps, List.mem_cons, Prod.mk.injEq, List.not_mem_nil, or_false] at hword
      obtain ⟨rfl, rfl⟩ | ⟨rfl, rfl⟩ := hword <;> rfl
    rw [hbare]
    simp only [run_bind, hrun, run_pure]
  · simp only [jumps, List.mem_cons, Prod.mk.injEq, List.not_mem_nil, or_false] at hword
    obtain ⟨-, rfl⟩ | ⟨-, rfl⟩ := hword
    · rw [Tree.braced_mk (by simp [h, Payload.kind]), h]
      exact .of fun f g _ => by simp [Tree.foldPayload]
    · rw [Tree.braced_mk (by simp [h, Payload.kind]), h]
      exact .of fun f g _ => by simp [Tree.foldPayload]

lemma labeled {label : Text} {body : Tree} (h : node.payload = .labeledStatement label (some body))
    (hlabel : IsLabel label) (hbody : ReadsStatement c last d ps body) :
    ReadsStatement c last (d + 1) ({ kind := .identifier, text := label } :: .punctuator ":" :: spaced ps)
      (.mk node) := by
  refine .of_bare fun ts rest hts helse => ?_
  obtain ⟨u, us, rfl, hkind, htext, -, hus⟩ := Spells.cons_iff.mp hts
  obtain ⟨v, vs, rfl, hkindv, htextv, -, hvs⟩ := Spells.cons_iff.mp hus
  have hbegins : BeginsExpression u :=
    Piece.BeginsOperand.beginsExpression (p := { kind := .identifier, text := label }) ⟨rfl, hlabel.2⟩ hkind htext
  have hcolon : v.token.isPunctuator ":" = true := Lexeme.isPunctuator_of hkindv htextv
  have hmark : (u.token.isIdentifier && ((v :: vs).headD last).token.isPunctuator ":") = true := by
    rw [List.headD_cons, hcolon, Bool.and_true]
    simp [Token.isIdentifier, Lexeme.token, hkind]
  have htoken : u.token.text = label := htext
  obtain ⟨copy, hrun, hcopy⟩ := hbody vs rest (Spells.spaced_iff.mp hvs) fun hopen =>
    helse (by simpa [Tree.endsOpen_mk, h, Tree.foldPayload, Tree.opensNode, Tree.fold_opensNode] using hopen)
  refine ⟨.of (.labeledStatement label (some copy)) u.position, ?_, ?_⟩
  · rw [run_bareStatement hbegins, if_pos hmark]
    simp only [labeledStatement, run_bind, run_here, run_advance, run_skip, htoken, hrun, run_pure]
    rfl
  · rw [Tree.braced_mk (by simp [h, Payload.kind]), h]
    exact .of fun f g hfold => by simp [Tree.foldPayload, Tree.fold_braceNode, hfold _ _ hcopy]

lemma block {body : List Tree} {indent m : Nat} (h : node.payload = .blockStatement (body.map some))
    (hbody : ∀ s ∈ body, Phrase (s.written indent) ∧ ReadsStatement c last d (s.written indent) s) :
    ReadsStatement c last (d + 1) (inBraces m (Tree.writtenLines indent (body.map some))) (.mk node) := by
  refine .of_bare fun ts rest hts _ => ?_
  obtain ⟨copies, position, hcopies, hrun⟩ := run_block hbody hts
  refine ⟨_, hrun, ?_⟩
  rw [Tree.braced_mk (by simp [h, Payload.kind]), h]
  refine .of fun f g hfold => ?_
  have hbraced : (body.map some).map (Option.map (Tree.fold Tree.braceNode)) = (body.map Tree.braced).map some := by
    simp only [List.map_map]
    rfl
  have hfolds : (copies.map some).map (Option.map (Tree.fold f)) =
      ((body.map Tree.braced).map some).map (Option.map (Tree.fold g)) :=
    Tree.Copies.map_fold (List.forall₂_map_right_iff.mpr hcopies) hfold
  simp only [Tree.foldPayload, Tree.foldSlots_eq, hfolds, hbraced]

end ReadsStatement

end PlainScript
