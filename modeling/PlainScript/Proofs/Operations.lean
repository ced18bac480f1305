import PlainScript.Proofs.Operands

/-! How operations are read back. The loop over binary operators takes an operand, an operator and
what binds more tightly than the operator, until the next token is out of reach. -/
namespace PlainScript

open Print Grammar

section Operations

variable {c : Context} {last : Lexeme} (hc : c.inGenerator = false)

/-! ### One operand -/

lemma Spells.operand_iff {op : Text} {x : Layout} {ts rest : List Lexeme} :
    Spells (x.operand op) ts rest ↔ Spells (x.within Level.unary) ts rest := by
  unfold Layout.operand
  simp only
  split
  · exact Spells.spaced_iff
  · exact Iff.rfl

lemma isUnaryOperator_of {op : Text} (hop : op ∈ signs ++ unaryWords) {u : Lexeme}
    (hkind : u.kind = (operatorPiece op).kind) (htext : u.text = (operatorPiece op).text) (next : Token) :
    isUnaryOperator c u.token next = true := by
  have hall : ∀ op ∈ signs ++ unaryWords, isUnaryOperator c (operatorPiece op).token next = true := by
    simp only [signs, unaryWords, List.cons_append, List.nil_append, List.forall_mem_cons]
    refine ⟨rfl, rfl, rfl, rfl, rfl, rfl, rfl, by simp⟩
  rw [← hall op hop]
  unfold isUnaryOperator
  simp only [Lexeme.token, Piece.token, hkind, htext]

include hc

lemma readable_unary {node : Node Tree} {op : Text} {e : Tree}
    (h : node.payload = .unaryExpression op (some e)) (hop : op ∈ signs ++ unaryWords)
    (hread : Readable c last e) : Readable c last (.mk node) := by
  have hlayout := Tree.layout_unary (t := .mk node) h
  have hlevel : (Tree.mk node).layout.level = Level.unary := by rw [hlayout]
  refine .of_unary hc (Nat.le_of_eq hlevel.symm) (fun h => absurd (hlevel ▸ h) (by decide)) fun d hd => ?_
  rw [hlayout]
  intro ts next rest hts hnext
  have := Tree.size_lt (t := .mk node) (c := e) (h ▸ .head _)
  obtain ⟨u, us, rfl, hkind, htext, -, hus⟩ := Spells.cons_iff.mp hts
  obtain ⟨d, rfl⟩ := Nat.exists_eq_add_one_of_ne_zero (by have := e.size_pos; omega : d ≠ 0)
  obtain ⟨copy, hrun, hcopy⟩ := hread.unary_within (d := d) (by omega) us next rest
    (Spells.operand_iff.mp hus) hnext
  have hrule : rulesUpTo (d + 1) .unary = Grammar.unary (rulesUpTo d) := rfl
  have hspelling : u.token.text = op := htext.trans (text_operatorPiece op)
  refine ⟨.of (.unaryExpression op (some copy)) u.position, ?_, .of fun f g hfold => ?_⟩
  · simp only [Grammar.unary, run_bind, run_current, run_read, run_ahead, current_stateAt,
      isUnaryOperator_of hop hkind htext, if_true, run_skip, hspelling]
    simp only [hrule, hrun, run_pure]
    rfl
  · simp [h, Tree.foldPayload, hfold _ _ hcopy]

omit hc in
lemma isTarget_of {copy e : Tree} (hcopy : copy.Copies e) (href : IsReference e) : isTarget copy = true := by
  rw [isTarget, hcopy.kind]
  rcases href with h | h <;> rw [h]

omit hc in
lemma isUpdate_of {op : Text} (hop : op ∈ updateOperators) {u : Lexeme} (hkind : u.kind = .punctuator)
    (htext : u.text = op) :
    (u.token.isPunctuator "++" || u.token.isPunctuator "--") = true ∧ u.reach = Level.postfixed := by
  have hall : ∀ op ∈ updateOperators, (op = "++" ∨ op = "--") ∧
      reachOf .punctuator op = Level.postfixed := by decide
  obtain ⟨hsign, hreach⟩ := hall op hop
  refine ⟨?_, by rw [Lexeme.reach, hkind, htext, hreach]⟩
  rw [Bool.or_eq_true]
  exact hsign.imp (fun h => Lexeme.isPunctuator_of hkind (htext.trans h))
    fun h => Lexeme.isPunctuator_of hkind (htext.trans h)

lemma readable_prefixed {node : Node Tree} {op : Text} {e : Tree}
    (h : node.payload = .updateExpression op true (some e)) (hop : op ∈ updateOperators)
    (href : IsReference e) (hread : Readable c last e) : Readable c last (.mk node) := by
  have hlayout := Tree.layout_prefixed (t := .mk node) h
  have hlevel : (Tree.mk node).layout.level = Level.unary := by rw [hlayout]
  refine .of_unary hc (Nat.le_of_eq hlevel.symm) (fun h => absurd (hlevel ▸ h) (by decide)) fun d hd => ?_
  rw [hlayout]
  intro ts next rest hts hnext
  have := Tree.size_lt (t := .mk node) (c := e) (h ▸ .head _)
  obtain ⟨u, us, rfl, hkind, htext, -, hus⟩ := Spells.cons_iff.mp hts
  obtain ⟨d, rfl⟩ := Nat.exists_eq_add_one_of_ne_zero (by have := e.size_pos; omega : d ≠ 0)
  obtain ⟨copy, hrun, hcopy⟩ := hread.unary_within (d := d) (by omega) us next rest hus hnext
  have hrule : rulesUpTo (d + 1) .unary = Grammar.unary (rulesUpTo d) := rfl
  have hspelling : u.token.text = op := htext
  have hsign (next : Token) : isUnaryOperator c u.token next = false := by
    have hall : ∀ op ∈ updateOperators, (["!", "~", "+", "-"] : List Text).contains op = false := by decide
    have hkind : u.token.kind = .punctuator := hkind
    simp only [isUnaryOperator, hkind, hspelling, hall op hop]
  refine ⟨.of (.updateExpression op true (some copy)) u.position, ?_, .of fun f g hfold => ?_⟩
  · simp only [Grammar.unary, run_bind, run_current, run_read, run_ahead, current_stateAt, hsign,
      (isUpdate_of hop hkind htext).1, Bool.false_eq_true, if_false, if_true, run_skip, hspelling]
    simp only [hrule, hrun, isTarget_of hcopy href, Bool.not_true, Bool.false_eq_true, if_false, run_pure]
    rfl
  · simp [h, Tree.foldPayload, hfold _ _ hcopy]

lemma readable_postfixed {node : Node Tree} {op : Text} {e : Tree}
    (h : node.payload = .updateExpression op false (some e)) (hop : op ∈ updateOperators)
    (href : IsReference e) (hread : Readable c last e) : Readable c last (.mk node) := by
  have hlayout := Tree.layout_postfixed (t := .mk node) h
  have hlevel : (Tree.mk node).layout.level = Level.postfixed := by rw [hlayout]
  refine .of_unary hc (hlevel ▸ by decide) (fun h => absurd (hlevel ▸ h) (by decide)) fun d hd => ?_
  rw [hlayout]
  intro ts next rest hts hnext
  have := Tree.size_lt (t := .mk node) (c := e) (h ▸ .head _)
  obtain ⟨mid, hts, hmid, hlines⟩ := Spells.append hts
  obtain ⟨u, us, rfl, hkind, htext, -, hus⟩ := Spells.cons_iff.mp hmid
  obtain rfl := Spells.nil_iff.mp hus
  have hoperand := hread.operand_within (d := d) (by omega)
  obtain ⟨p, hp, -⟩ := hoperand.1
  have hne : e.layout.within Level.call ≠ [] := List.ne_nil_of_mem (List.mem_of_mem_head? hp)
  obtain ⟨hupdate, hreach⟩ := isUpdate_of hop hkind htext
  obtain ⟨copy, hrun, hcopy⟩ := hoperand.operand hts (by rw [hreach]; decide)
  have hspelling : u.token.text = op := htext
  have hline : u.token.newlineBefore = false := hlines hne _ rfl _ rfl
  refine ⟨.of (.updateExpression op false (some copy)) (stateAt last ts).current.position, ?_,
    .of fun f g hfold => ?_⟩
  · rw [hoperand.run_unary hts]
    simp only [Grammar.postfixed, run_bind, run_here, hrun, run_current, current_stateAt, hupdate, hline,
      isTarget_of hcopy href, Bool.not_false, Bool.and_self, Bool.not_true, Bool.false_eq_true, if_false,
      if_true, run_skip, hspelling, run_pure]
  · simp [h, Tree.foldPayload, hfold _ _ hcopy]

/-! ### Binary operators -/

omit hc in
lemma binaryLevel_of {op : Text} (hop : operatorLevel op ≠ 0) {u : Lexeme}
    (hkind : u.kind = (operatorPiece op).kind) (htext : u.text = (operatorPiece op).text) :
    binaryLevel true u.token = operatorLevel op - 3 ∧ u.reach = operatorLevel op := by
  have hall : ∀ op ∈ binaryOperators, binaryLevel true (operatorPiece op).token = operatorLevel op - 3 ∧
      reachOf (operatorPiece op).kind (operatorPiece op).text = operatorLevel op := by decide
  obtain ⟨hlevel, hreach⟩ := hall op (mem_binaryOperators hop)
  refine ⟨?_, by rw [Lexeme.reach, hkind, htext, hreach]⟩
  rw [← hlevel]
  unfold binaryLevel
  simp only [Lexeme.token, Piece.token, hkind, htext]
  rfl

omit hc in
/-- One more operator is taken if it binds tightly enough. -/
lemma run_binaryStep {rules : Rules} {n level : Nat} {position : Position} {op : Text}
    {left right : Tree} {u : Lexeme} {us rest : List Lexeme} (hop : operatorLevel op ≠ 0)
    (hkind : u.kind = (operatorPiece op).kind) (htext : u.text = (operatorPiece op).text)
    (hmin : 4 ≤ operatorLevel op) (hlevel : level ≤ operatorLevel op)
    (hright : binaryUpTo rules n (if op = "**" then operatorLevel op - 3 else operatorLevel op - 3 + 1) true
      c (stateAt last us) = .ok right (stateAt last rest)) :
    binaryStep rules n (level - 3) position left c (stateAt last (u :: us)) =
      .ok (some (.of (.binaryExpression op (some left) (some right)) position)) (stateAt last rest) := by
  have hbinary := (binaryLevel_of hop hkind htext).1
  have hspelling : u.token.text = op := htext.trans (text_operatorPiece op)
  have hgoes : (decide (operatorLevel op - 3 = 0) || decide (operatorLevel op - 3 < level - 3)) = false := by
    simp only [Bool.or_eq_false_iff, decide_eq_false_iff_not]
    omega
  simp only [binaryStep, run_bind, run_current, current_stateAt, hbinary, hgoes, Bool.false_eq_true,
    if_false, run_skip, hspelling, beq_iff_eq, hright, run_pure]

/-- The operands of an operator bind so tightly that the loop leaves them whole. Only `**` groups to
the right. -/
lemma readable_operator {node : Node Tree} {op : Text} {l r : Tree} {left right : Nat}
    (h : node.payload = .binaryExpression op (some l) (some r)) (hop : operatorLevel op ≠ 0)
    (hpieces : (Tree.mk node).layout.pieces = l.layout.within left ++ spaced [operatorPiece op]
      ++ spaced (r.layout.within right))
    (hlevel : (Tree.mk node).layout.level = operatorLevel op) (hleft : operatorLevel op ≤ left)
    (hpower : op = "**" → 15 < left)
    (hright : (if op = "**" then 15 else operatorLevel op + 1) ≤ right)
    (hl : Readable c last l) (hr : Readable c last r) : Readable c last (.mk node) := by
  have hbounds : ∀ op ∈ binaryOperators, 4 ≤ operatorLevel op ∧ operatorLevel op ≤ 15 ∧
      (operatorLevel op = 15 ↔ op = "**") := by decide
  obtain ⟨hmin, hmax, heq⟩ := hbounds op (mem_binaryOperators hop)
  apply Readable.of_binary hc (hlevel ▸ hmin) (hlevel ▸ Nat.lt_succ_of_le hmax)
  intro level h4 hle d hd
  rw [hlevel] at hle
  have hsl := Tree.size_lt (t := .mk node) (c := l) (h ▸ .head _)
  have hsr := Tree.size_lt (t := .mk node) (c := r) (h ▸ .tail _ (.head _))
  intro ts next rest n hts hn hnext
  rw [hpieces] at hts
  rw [Layout.bound, hlevel] at hnext
  obtain ⟨u, vs, hls, hkind, htext, hus⟩ := hts.joined
  have hlengths := hls.length
  have hlengthr := hus.length
  simp only [List.length_cons] at hlengths hlengthr
  have hleftBound (hge : left ≤ l.layout.level) : operatorLevel op ≤ l.layout.bound := by
    by_cases hop : op = "**"
    · exact hmax.trans (Layout.bound_of_unary ((hpower hop).trans_le hge)).ge
    · exact Layout.le_bound (hleft.trans hge) (Nat.lt_of_le_of_ne hmax (mt heq.mp hop))
  obtain ⟨first, ws, hfirst, hgrows⟩ := hl.binary_within level left _ h4 (hle.trans hleft) hmax
    hleftBound (show 4 * l.size ≤ d + 1 by omega) ts u vs n hls hn (Nat.le_of_eq (binaryLevel_of hop hkind htext).2)
  have hread (least : Nat) (hleast : least ≤ right) (h4 : 4 ≤ least) (h15 : least ≤ 15)
      (hreach : next.reach < least) :
      Gives c last (binaryUpTo (rulesUpTo d) n (least - 3) true) r vs (next :: rest) := by
    have hrightBound (hge : right ≤ r.layout.level) : least - 1 ≤ r.layout.bound :=
      Layout.le_bound (by omega) (by omega)
    exact (hr.binary_within least right (least - 1) h4 hleast (by omega) hrightBound
      (by omega)).gives hus (by omega) (by omega) (by omega) hreach
  obtain ⟨copyr, hrun, hcopyr⟩ : Gives c last (binaryUpTo (rulesUpTo d) n
      (if op = "**" then operatorLevel op - 3 else operatorLevel op - 3 + 1) true) r vs (next :: rest) := by
    by_cases hop : op = "**"
    · rw [if_pos hop] at hright ⊢
      rw [heq.mpr hop] at hnext ⊢
      exact hread 15 hright (by decide) (by decide) (Nat.lt_succ_of_le hnext)
    · rw [if_neg hop] at hright ⊢
      have := mt heq.mp hop
      rw [if_pos (by omega)] at hnext
      rw [show operatorLevel op - 3 + 1 = operatorLevel op + 1 - 3 by omega]
      exact hread _ hright (by omega) (by omega) (Nat.lt_succ_of_le hnext)
  refine ⟨first, ws, hfirst, fun position => ?_⟩
  obtain ⟨copyl, hcopyl, hgrows⟩ := hgrows position
  refine ⟨_, .of fun f g hfold => ?_, hgrows.tail ⟨?_, run_binaryStep hop hkind htext hmin hle hrun⟩⟩
  · simp [h, Tree.foldPayload, hfold _ _ hcopyl, hfold _ _ hcopyr]
  · simp only [List.length_cons]
    omega

omit hc in
lemma le_beside {op : Text} {least : Nat} (x : Layout) (h : least ≤ Level.parenthesized) :
    least ≤ x.beside op least := by
  unfold Layout.beside
  split
  · exact h
  · exact Nat.le_refl _

lemma readable_binary {node : Node Tree} {op : Text} {l r : Tree}
    (h : node.payload = .binaryExpression op (some l) (some r)) (hop : operatorLevel op ≠ 0)
    (hl : Readable c last l) (hr : Readable c last r) : Readable c last (.mk node) := by
  by_cases hpower : op = "**"
  · subst hpower
    have hlayout := Tree.layout_power (t := .mk node) h
    have hlevel : operatorLevel "**" = 15 := by decide
    exact readable_operator hc h hop (by rw [hlayout]; rfl) (by rw [hlayout, hlevel]) (by decide)
      (fun _ => by decide) (by decide) hl hr
  · have hlayout := Tree.layout_binary (t := .mk node) h hpower
    have hmax : ∀ op ∈ binaryOperators, operatorLevel op + 1 ≤ Level.parenthesized := by decide
    have := hmax op (mem_binaryOperators hop)
    refine readable_operator hc h hop (by rw [hlayout]) (by rw [hlayout])
      (le_beside _ (Nat.le_of_succ_le this)) (fun h => absurd h hpower) ?_ hl hr
    rw [if_neg hpower]
    exact le_beside _ this

/-! ### Assignments, conditionals and sequences -/

section Nested

variable {e : Tree} (h : Readable c last e) {d : Nat} (hd : 4 * e.size ≤ d)

include h hd

/-- Where a rule asks for an assignment, an operand of one is read. -/
lemma run_nested {ts rest : List Lexeme} {next : Lexeme}
    (hts : Spells (e.layout.within Level.assignment) ts (next :: rest)) (hnext : next.reach < Level.assignment) :
    Gives c last (rulesUpTo d (.assignment true)) e ts (next :: rest) := by
  have := e.size_pos
  obtain ⟨d, rfl⟩ := Nat.exists_eq_add_one_of_ne_zero (by omega : d ≠ 0)
  exact h.assignment_within hc hd ts next rest hts hnext

end Nested

lemma readable_assignment {node : Node Tree} {op : Text} {l r : Tree}
    (h : node.payload = .assignmentExpression op (some l) (some r)) (hop : op ∈ assignmentOperators)
    (href : IsReference l) (hl : Readable c last l) (hr : Readable c last r) :
    Readable c last (.mk node) := by
  have hlayout := Tree.layout_assignment (t := .mk node) h
  apply Readable.of_assignment (by rw [hlayout]; exact (by decide : Level.assignment < 4))
  intro d hd
  have hsl := Tree.size_lt (t := .mk node) (c := l) (h ▸ .head _)
  have hsr := Tree.size_lt (t := .mk node) (c := r) (h ▸ .tail _ (.head _))
  rw [hlayout]
  intro ts next rest hts hnext
  obtain ⟨u, vs, hls, hkind, htext, hus⟩ := hts.joined
  have hall : ∀ op ∈ assignmentOperators, reachOf .punctuator op = Level.assignment := by decide
  have hreach : u.reach = Level.assignment := (congrArg₂ reachOf hkind htext).trans (hall op hop)
  have hassigns : isAssignmentOperator u.token = true := by
    simp [isAssignmentOperator, Lexeme.token, hkind, htext, Piece.punctuator, hop]
  have hspelling : u.token.text = op := htext
  have hbound (hge : Level.postfixed ≤ l.layout.level) : 15 ≤ l.layout.bound :=
    (Layout.bound_of_unary (Nat.le_trans (by decide) hge)).ge
  obtain ⟨copyl, hrunl, hcopyl⟩ := (hl.binary_within 4 Level.postfixed 15 (by decide) (by decide)
    (by decide) hbound (show 4 * l.size ≤ d + 1 by omega)).conditional (by decide) hls
      (by rw [hreach]; decide)
  obtain ⟨copyr, hrunr, hcopyr⟩ := run_nested hc hr (d := d) (by omega) hus hnext
  refine ⟨.of (.assignmentExpression op (some copyl) (some copyr)) (stateAt last ts).current.position, ?_,
    .of fun f g hfold => ?_⟩
  · simp only [run_assignment hc hrunl, run_bind, run_current, current_stateAt, hassigns, Bool.not_true,
      Bool.false_eq_true, if_false, isTarget_of hcopyl href, run_skip, hrunr, run_pure, hspelling]
  · simp [h, Tree.foldPayload, hfold _ _ hcopyl, hfold _ _ hcopyr]

lemma readable_conditional {node : Node Tree} {test yes no : Tree}
    (h : node.payload = .conditionalExpression (some test) (some yes) (some no))
    (htest : Readable c last test) (hyes : Readable c last yes) (hno : Readable c last no) :
    Readable c last (.mk node) := by
  have hlayout := Tree.layout_conditional (t := .mk node) h
  apply Readable.of_assignment (by rw [hlayout]; exact (by decide : Level.conditional < 4))
  intro d hd
  have hst := Tree.size_lt (t := .mk node) (c := test) (h ▸ .head _)
  have hsy := Tree.size_lt (t := .mk node) (c := yes) (h ▸ .tail _ (.head _))
  have hsn := Tree.size_lt (t := .mk node) (c := no) (h ▸ .tail _ (.tail _ (.head _)))
  rw [hlayout]
  intro ts next rest hts hnext
  obtain ⟨colon, us, hfront, hkind, htext, hus⟩ := hts.joined
  obtain ⟨mark, ws, htests, hkind', htext', hws⟩ := hfront.joined
  have hcolon : colon.token.isPunctuator ":" = true := Lexeme.isPunctuator_of hkind htext
  have hmark : mark.token.isPunctuator "?" = true := Lexeme.isPunctuator_of hkind' htext'
  have hcolonReach : colon.reach = 0 := congrArg₂ reachOf hkind htext
  have hmarkReach : mark.reach = Level.conditional := congrArg₂ reachOf hkind' htext'
  have hbound (hge : Level.conditional + 1 ≤ test.layout.level) : 3 ≤ test.layout.bound :=
    Layout.le_bound (Nat.le_trans (by decide) hge) (by decide)
  obtain ⟨copyt, hrunt, hcopyt⟩ := (htest.binary_within 4 (Level.conditional + 1) 3 (by decide)
    (by decide) (by decide) hbound (show 4 * test.size ≤ d + 1 by omega)).whole (by decide) htests
      (by rw [hmarkReach]; decide)
  obtain ⟨copyy, hruny, hcopyy⟩ := run_nested hc hyes (d := d) (by omega) hws
    (by rw [hcolonReach]; decide)
  obtain ⟨copyn, hrunn, hcopyn⟩ := run_nested hc hno (d := d) (by omega) hus hnext
  refine ⟨.of (.conditionalExpression (some copyt) (some copyy) (some copyn))
    (stateAt last ts).current.position, ?_, .of fun f g hfold => ?_⟩
  · have hrun : Grammar.conditional (rulesUpTo d) true c (stateAt last ts) =
        .ok (.of (.conditionalExpression (some copyt) (some copyy) (some copyn))
          (stateAt last ts).current.position) (stateAt last (next :: rest)) := by
      simp only [Grammar.conditional, run_bind, run_here, hrunt, run_eat hmark, Bool.not_true,
        Bool.false_eq_true, if_false, hruny, run_expect hcolon, hrunn, run_pure]
    simp only [run_assignment hc hrun, run_bind, run_current, current_stateAt,
      Lexeme.not_isAssignmentOperator hnext, Bool.not_false, if_true, run_pure]
  · simp [h, Tree.foldPayload, hfold _ _ hcopyt, hfold _ _ hcopyy, hfold _ _ hcopyn]

omit hc in
/-- The first element of a sequence is read, and then the others with the commas before them. -/
lemma repeats_sequence {rules : Rules} {es : List Tree} (hne : es ≠ [])
    (hes : ∀ e ∈ es, Listable c last rules e) {ts rest : List Lexeme} {next : Lexeme}
    (hts : Spells (Layout.list (es.map fun e => some e.layout)) ts (next :: rest))
    (hnext : next.reach < Level.sequence) :
    ∃ copy copies mid, List.Forall₂ Tree.Copies (copy :: copies) es ∧ mid.length ≤ ts.length ∧
      rules (.assignment true) c (stateAt last ts) = .ok copy (stateAt last mid) ∧
      (2 ≤ es.length → (stateAt last mid).current.isPunctuator "," = true) ∧
      Repeats c last (return !(← atPunct ",")) (do skip; rules (.assignment true)) mid copies
        (next :: rest) := by
  induction es generalizing ts with
  | nil => exact absurd rfl hne
  | cons e es ih =>
    have he := hes e (by simp)
    cases es with
    | nil =>
      obtain ⟨copy, hrun, hcopy⟩ := he.gives ts next rest hts (hnext.trans (by decide))
      have hcomma : next.token.isPunctuator "," = false :=
        Lexeme.not_isPunctuator_of_reach (hnext.trans_le (by decide))
      refine ⟨copy, [], next :: rest, .cons hcopy .nil, by rw [hts.length]; omega, hrun, by simp,
        .nil ?_⟩
      simp only [run_bind, run_atPunct, current_stateAt, hcomma, Bool.not_false, run_pure]
    | cons e' es =>
      obtain ⟨mid, helement, hmid, -⟩ := Spells.append hts
      obtain ⟨comma, vs, rfl, hkind, htext, -, hvs⟩ := Spells.cons_iff.mp hmid
      have hcomma : comma.token.isPunctuator "," = true := Lexeme.isPunctuator_of hkind htext
      have hreach : comma.reach = Level.sequence := congrArg₂ reachOf hkind htext
      obtain ⟨copy, hrun, hcopy⟩ := he.gives ts comma vs helement (by rw [hreach]; decide)
      obtain ⟨copy', copies, mid', hcopies, hlength, hrun', -, hrepeats⟩ :=
        ih (by simp) (fun e he => hes e (by simp [he])) (Spells.spaced_iff.mp hvs)
      refine ⟨copy, copy' :: copies, comma :: vs, .cons hcopy hcopies, by rw [helement.length]; omega,
        hrun, fun _ => hcomma, .cons ?_ ?_ (Nat.lt_succ_of_le hlength) hrepeats⟩
      · simp only [run_bind, run_atPunct, current_stateAt, hcomma, Bool.not_true, run_pure]
      · simp only [run_bind, run_skip, hrun']

lemma readable_sequence {node : Node Tree} {es : List Tree}
    (h : node.payload = .sequenceExpression (es.map some)) (hlength : 2 ≤ es.length)
    (hsound : ∀ e ∈ es, Sound e.layout.pieces) (hread : ∀ e ∈ es, Readable c last e) :
    Readable c last (.mk node) := by
  have hlayout := Tree.layout_sequence (t := .mk node) h
  refine .of_expression (by rw [hlayout]; exact (by decide : Level.sequence < Level.assignment))
    fun d hd => ?_
  rw [hlayout]
  intro ts next rest hts hnext
  have hes (e : Tree) (he : e ∈ es) : Listable c last (rulesUpTo d) e := by
    have := Tree.size_lt (t := .mk node) (h ▸ mem_children_sequence he)
    exact (hread e he).listable hc (hsound e he) (by omega)
  obtain ⟨copy, copies, mid, hcopies, -, hrun, hcomma, hrepeats⟩ :=
    repeats_sequence (by rintro rfl; simp at hlength) hes hts hnext
  refine ⟨.of (.sequenceExpression (some copy :: copies.map some)) (stateAt last ts).current.position, ?_,
    .of fun f g hfold => ?_⟩
  · simp only [Grammar.expression, run_bind, run_here, hrun, run_atPunct, hcomma hlength, Bool.not_true,
      Bool.false_eq_true, if_false]
    simp only [run_repeatUntil hrepeats, run_pure]
  · have hfolds := Tree.Copies.map_fold hcopies hfold
    simp only [List.map_cons] at hfolds
    simp only [h, Tree.foldPayload, Tree.foldSlots_eq, List.map_cons, hfolds]

omit hc in
lemma Operators.level_lt {t : Tree} (h : Operators t) : t.layout.level < Level.parenthesized := by
  rw [← h.level_eq]
  cases h with
  | @binary node op l r h hop =>
    have hall : ∀ op ∈ binaryOperators, operatorLevel op < Level.parenthesized := by decide
    rw [Tree.node_mk, h]
    exact hall op (mem_binaryOperators hop)
  | @unary node op e h hop =>
    have hall : ∀ op ∈ signs ++ unaryWords, isYield op = false := by decide
    rw [Tree.node_mk, h, level, hall op hop]
    decide
  | @update node op isPrefixed e h =>
    rw [Tree.node_mk, h]
    cases isPrefixed <;> exact of_decide_eq_true rfl
  | _ h =>
    rw [Tree.node_mk, h]
    simp only [level]
    decide

/-- Every operator expression is read back from its pieces. -/
theorem Operators.readable {t : Tree} (h : Operators t) : Readable c last t := by
  induction h with
  | identifier h _ hplain => exact readable_identifier hc h hplain
  | null h => exact .word hc (by rw [h]; simp [wordPayloads]) (Tree.layout_null h)
  | @boolean node value h =>
    refine .word hc ?_ (Tree.layout_boolean h)
    rw [h]
    cases value <;> simp [wordPayloads]
  | this h => exact .word hc (by rw [h]; simp [wordPayloads]) (Tree.layout_this h)
  | string h => exact readable_string hc h
  | array h helements ih => exact readable_array hc h (fun e he => (helements e he).sound) ih
  | unary h hop _ ih => exact readable_unary hc h hop ih
  | @update node op isPrefixed e h hop _ href ih =>
    cases isPrefixed with
    | true => exact readable_prefixed hc h hop href ih
    | false => exact readable_postfixed hc h hop href ih
  | binary h hop _ _ ihl ihr => exact readable_binary hc h hop ihl ihr
  | assignment h hop _ href _ ihl ihr => exact readable_assignment hc h hop href ihl ihr
  | conditional h _ _ _ iht ihy ihn => exact readable_conditional hc h iht ihy ihn
  | sequence h hlength hes ih => exact readable_sequence hc h hlength (fun e he => (hes e he).sound) ih
  | call h _ hargs ihc iha => exact readable_call hc h ihc (fun e he => (hargs e he).sound) iha
  | new h hcallee hargs ihc iha =>
    exact readable_new hc h hcallee.level_lt hcallee.sound ihc (fun e he => (hargs e he).sound) iha
  | index h _ _ iho ihk => exact readable_index hc h iho ihk
  | member h _ hkey _ iho => exact readable_member hc h hkey iho

end Operations

end PlainScript
