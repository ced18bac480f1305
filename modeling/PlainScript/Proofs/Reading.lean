import PlainScript.Proofs.Stream
import PlainScript.Proofs.Printing

/-! What it means that pieces are read as an expression, rule by rule. An expression that one rule reads
is read by those around it too, as long as the next token does not carry it on; and between
parentheses it is read as an operand. -/
namespace PlainScript

open Print Grammar

namespace Tree

/-- The one tree is the other again, without its positions and comments. -/
def Copies (copy t : Tree) : Prop := copy.unplaced = t.bare

namespace Copies

variable {copy t : Tree}

lemma kind (h : copy.Copies t) : copy.kind = t.kind := by
  have hfold (f : Node Tree → Tree) (p : Payload Tree) : (foldPayload f p).unspelled.kind = p.kind := by
    cases p <;> rfl
  obtain ⟨n⟩ := copy
  obtain ⟨m⟩ := t
  simp only [Copies, unplaced, bare, fold_mk] at h
  have := congrArg Tree.kind h
  simpa only [Tree.kind, Tree.node, hfold] using this

/-- A node is copied if its payload is, whatever becomes of the children. -/
lemma of {node : Node Tree} {payload : Payload Tree} {position : Position}
    (h : ∀ f g : Node Tree → Tree, (∀ copy t : Tree, copy.Copies t → copy.fold f = t.fold g) →
      (foldPayload f payload).unspelled = (foldPayload g node.payload).unspelled) :
    (Tree.of payload position).Copies (.mk node) := by
  simp only [Copies, Tree.of, unplaced, bare, fold_mk]
  exact congrArg (fun p => mk { payload := p }) (h _ _ fun copy t hcopy => hcopy)

end Copies

end Tree

namespace Piece

/-- The piece can be the first one of an operand that no operator stands in front of. -/
def BeginsHead (p : Piece) : Prop :=
  match p.kind with
  | .identifier => p.text ∉ contextualNames
  | .string _ => True
  | .keyword => p.text = "new" ∨ p.text ∈ operandWords
  | .punctuator => p.text ∈ (["(", "["] : List Text)
  | _ => False

end Piece

namespace Grammar

/-- What may follow an operand: a member, or at some place a call as well. -/
def follow (rules : Rules) : Option Position → Tree → Parser (Option Tree)
  | some position => suffix rules position
  | none => fun owner => do plainMember rules owner (← here)

/-- One more operator and its right operand. -/
def binaryStep (rules : Rules) (n least : Nat) (position : Position) (left : Tree) :
    Parser (Option Tree) := do
  let t ← current
  let level := binaryLevel true t
  if level = 0 || level < least then return none
  skip
  let right ← binaryUpTo rules n (if t.text == "**" then level else level + 1) true
  return some (.of (.binaryExpression t.text (some left) (some right)) position)

lemma binaryUpTo_eq (rules : Rules) (n least : Nat) : binaryUpTo rules (n + 1) least true = (do
    let position ← here
    extend (binaryStep rules n least position) (← rules .unary)) := rfl

variable (c : Context) (last : Lexeme)

/-- A rule reads a tree from some tokens and leaves the others. -/
def Gives (rule : Parser Tree) (t : Tree) (ts rest : List Lexeme) : Prop :=
  ∃ copy, rule c (stateAt last ts) = .ok copy (stateAt last rest) ∧ copy.Copies t

variable (d : Nat) (ps : List Piece) (t : Tree)

/-- The pieces are an operand and what extends it to the tree. -/
def ReadsOperand (calls : Bool) : Prop :=
  (∃ p ∈ ps.head?, p.BeginsHead) ∧
    ∀ ts rest n, Spells ps ts rest → ts.length ≤ n →
      ∃ head mid, headUpTo (rulesUpTo d) n c (stateAt last ts) = .ok head (stateAt last mid) ∧
        ∀ place, (calls = true → place.isSome) → ∃ copy : Tree, copy.Copies t ∧
          Grows c last (follow (rulesUpTo d) place) (head, mid) (copy, rest)

def ReadsUnary : Prop :=
  ∀ ts next rest, Spells ps ts (next :: rest) → next.reach < Level.unary →
    Gives c last (unary (rulesUpTo d)) t ts (next :: rest)

/-- The pieces are an operand and what operators of at least a level make of it, before a token whose
reach is bounded. -/
def ReadsBinary (level bound : Nat) : Prop :=
  ∀ ts next rest n, Spells ps ts (next :: rest) → ts.length ≤ n → next.reach ≤ bound →
    ∃ first mid, rulesUpTo d .unary c (stateAt last ts) = .ok first (stateAt last mid) ∧
      ∀ position, ∃ copy : Tree, copy.Copies t ∧
        Grows c last (binaryStep (rulesUpTo d) n (level - 3) position) (first, mid) (copy, next :: rest)

def ReadsAssignment : Prop :=
  ∀ ts next rest, Spells ps ts (next :: rest) → next.reach < Level.assignment →
    Gives c last (assignment (rulesUpTo d) true) t ts (next :: rest)

def ReadsExpression : Prop :=
  ∀ ts next rest, Spells ps ts (next :: rest) → next.reach < Level.sequence →
    Gives c last (expression (rulesUpTo d) true) t ts (next :: rest)

variable {c last d ps t}

/-! ### Operands -/

section Operands

variable {rules : Rules} {next : Lexeme} {rest : List Lexeme}

lemma plainMember_stop {owner : Tree} {position : Position}
    (hdot : next.token.isPunctuator "." = false) (hbracket : next.token.isPunctuator "[" = false) :
    plainMember rules owner position c (stateAt last (next :: rest)) =
      .ok none (stateAt last (next :: rest)) := by
  simp only [plainMember, run_bind, run_eat_not (s := stateAt last (next :: rest)) hdot,
    run_eat_not (s := stateAt last (next :: rest)) hbracket, Bool.false_eq_true, if_false, run_pure]

lemma suffix_stop {owner : Tree} {position : Position} (h : next.reach < Level.call) :
    suffix rules position owner c (stateAt last (next :: rest)) =
      .ok none (stateAt last (next :: rest)) := by
  have hnot (p : Text) (hp : p ∈ ([".", "[", "(", "?."] : List Text)) :
      next.token.isPunctuator p = false := by
    have hall : ∀ p ∈ ([".", "[", "(", "?."] : List Text), reachOf .punctuator p = Level.call := by
      decide
    exact Lexeme.not_isPunctuator_of_reach ((hall p hp).symm ▸ h)
  have htemplate : (next.token.kind == .template) = false := by
    simpa [Lexeme.token] using Lexeme.kind_ne_template h
  simp only [suffix, run_bind, plainMember_stop (hnot "." (by simp)) (hnot "[" (by simp)),
    run_eat_not (s := stateAt last (next :: rest)) (hnot "?." (by simp)), run_atPunct,
    current_stateAt, hnot "(" (by simp), run_current, htemplate, Bool.false_eq_true, if_false, run_pure]

end Operands

lemma ReadsOperand.operand {calls : Bool} (h : ReadsOperand c last d ps t calls) {ts rest : List Lexeme}
    {next : Lexeme} (hts : Spells ps ts (next :: rest)) (hnext : next.reach < Level.call) :
    Gives c last (operand (rulesUpTo d)) t ts (next :: rest) := by
  obtain ⟨head, mid, hhead, hgrows⟩ := h.2 ts _ (2 * ts.length + 1) hts (by omega)
  obtain ⟨copy, hcopy, hgrows⟩ := hgrows (some (stateAt last ts).current.position) fun _ => rfl
  refine ⟨copy, ?_, hcopy⟩
  have hextend := run_extend hgrows (suffix_stop hnext)
  have hfuel : 2 * (ts.length + 1) = 2 * ts.length + 1 + 1 := by omega
  simp only [Grammar.operand, run_bind, run_tokensLeft, hfuel, operandUpTo, run_here, hhead]
  exact hextend

lemma ReadsOperand.postfixed {calls : Bool} (h : ReadsOperand c last d ps t calls)
    {ts rest : List Lexeme} {next : Lexeme} (hts : Spells ps ts (next :: rest))
    (hnext : next.reach < Level.unary) :
    Gives c last (postfixed (rulesUpTo d)) t ts (next :: rest) := by
  obtain ⟨copy, hrun, hcopy⟩ := h.operand hts (hnext.trans (by decide))
  have hnot (op : Text) (hop : op ∈ updateOperators) : next.token.isPunctuator op = false := by
    have hall : ∀ op ∈ updateOperators, Level.unary ≤ reachOf .punctuator op := by decide
    exact Lexeme.not_isPunctuator_of_reach (hnext.trans_le (hall op hop))
  refine ⟨copy, ?_, hcopy⟩
  simp only [Grammar.postfixed, run_bind, run_here, hrun, run_current, current_stateAt,
    hnot "++" (by decide), hnot "--" (by decide), Bool.or_self, Bool.false_and, Bool.false_eq_true,
    if_false, run_pure]

/-- No operator begins with the first piece of an operand. -/
lemma not_operator_of_beginsHead {p : Piece} {u : Lexeme} (h : p.BeginsHead) (hkind : u.kind = p.kind)
    (htext : u.text = p.text) : (∀ next, isUnaryOperator c u.token next = false) ∧
      u.token.isPunctuator "++" = false ∧ u.token.isPunctuator "--" = false := by
  obtain ⟨kind, text, margin⟩ := p
  obtain ⟨ukind, utext, start, stop, position, isPlain⟩ := u
  obtain rfl : ukind = kind := hkind
  obtain rfl : utext = text := htext
  cases ukind with
  | identifier =>
    have hawait : (utext == Text.ofString "await") = false := by
      rw [beq_eq_false_iff_ne]
      rintro rfl
      exact h (by decide : Text.ofString "await" ∈ contextualNames)
    simp [isUnaryOperator, Token.isPunctuator, Lexeme.token, hawait]
  | string value => simp [isUnaryOperator, Token.isPunctuator, Lexeme.token]
  | keyword =>
    have hall : ∀ text ∈ ("new" : Text) :: Piece.operandWords,
        text ≠ "typeof" ∧ text ≠ "void" ∧ text ≠ "delete" := by decide
    have hword := hall utext (List.mem_cons.mpr h)
    simp [isUnaryOperator, Token.isPunctuator, Lexeme.token, hword]
  | punctuator =>
    have hall : ∀ text ∈ (["(", "["] : List Text),
        text ≠ "!" ∧ text ≠ "~" ∧ text ≠ "+" ∧ text ≠ "-" ∧ text ≠ "++" ∧ text ≠ "--" := by decide
    simp [isUnaryOperator, Token.isPunctuator, Lexeme.token, hall utext h]
  | _ => exact h.elim

lemma ReadsOperand.run_unary {calls : Bool} (h : ReadsOperand c last d ps t calls) {rules : Rules}
    {ts rest : List Lexeme} (hts : Spells ps ts rest) :
    Grammar.unary rules c (stateAt last ts) = Grammar.postfixed rules c (stateAt last ts) := by
  obtain ⟨⟨p, hp, hhead⟩, -⟩ := h
  obtain ⟨ps, rfl⟩ := List.head?_eq_some_iff.mp hp
  obtain ⟨u, us, rfl, hkind, htext, -, -⟩ := Spells.cons_iff.mp hts
  obtain ⟨hunary, hplus, hminus⟩ := not_operator_of_beginsHead (c := c) hhead hkind htext
  simp only [Grammar.unary, run_bind, run_current, run_read, run_ahead, current_stateAt, hunary, hplus,
    hminus, Bool.or_self, Bool.false_eq_true, if_false]

lemma ReadsOperand.unary {calls : Bool} (h : ReadsOperand c last d ps t calls) :
    ReadsUnary c last d ps t := by
  intro ts next rest hts hnext
  obtain ⟨copy, hrun, hcopy⟩ := h.postfixed hts hnext
  exact ⟨copy, (h.run_unary hts).trans hrun, hcopy⟩

/-- An operand that one more step extends. -/
lemma ReadsOperand.extended {qs : List Piece} {owner : Tree} {calls calls' : Bool}
    (h : ReadsOperand c last d ps owner calls) (hcalls : calls = true → calls' = true) (hne : qs ≠ [])
    (hstep : ∀ ts rest place (copy : Tree), Spells qs ts rest → copy.Copies owner →
      (calls' = true → place.isSome) → ∃ longer : Tree, longer.Copies t ∧
        follow (rulesUpTo d) place copy c (stateAt last ts) = .ok (some longer) (stateAt last rest)) :
    ReadsOperand c last d (ps ++ qs) t calls' := by
  obtain ⟨⟨p, hp, hhead⟩, h⟩ := h
  refine ⟨⟨p, by simp [List.head?_append, Option.mem_def.mp hp], hhead⟩, fun ts rest n hts hn => ?_⟩
  obtain ⟨mid, hps, hqs, -⟩ := Spells.append hts
  obtain ⟨head, us, hhead, hgrows⟩ := h ts mid n hps hn
  refine ⟨head, us, hhead, fun place hplace => ?_⟩
  obtain ⟨copy, hcopy, hgrows⟩ := hgrows place fun h => hplace (hcalls h)
  obtain ⟨longer, hlonger, hrun⟩ := hstep mid rest place copy hqs hcopy hplace
  refine ⟨longer, hlonger, hgrows.tail ⟨?_, hrun⟩⟩
  have := List.length_pos_iff.mpr hne
  have := hqs.length
  simp only
  omega

/-! ### Lifts -/

lemma ReadsUnary.binary (h : ReadsUnary c last d ps t) (level : Nat) :
    ReadsBinary c last (d + 1) ps t level 15 := by
  intro ts next rest n hts hn hnext
  obtain ⟨copy, hrun, hcopy⟩ := h ts next rest hts (Nat.lt_succ_of_le hnext)
  exact ⟨copy, next :: rest, hrun, fun _ => ⟨copy, hcopy, .refl⟩⟩

lemma binaryStep_stop {rules : Rules} {n least : Nat} {position : Position} {left : Tree}
    {next : Lexeme} {rest : List Lexeme} (h : next.reach < least + 3) :
    binaryStep rules n least position left c (stateAt last (next :: rest)) =
      .ok none (stateAt last (next :: rest)) := by
  have hstop : (decide (binaryLevel true next.token = 0) || decide (binaryLevel true next.token < least))
      = true := by
    by_cases hzero : binaryLevel true next.token = 0
    · simp [hzero]
    · have := next.binaryLevel_le hzero
      simp only [Bool.or_eq_true, decide_eq_true_eq]
      omega
  simp only [binaryStep, run_bind, run_current, current_stateAt, hstop, if_true, run_pure]

lemma ReadsBinary.mono {level bound bound' : Nat} (h : ReadsBinary c last d ps t level bound)
    (hle : bound' ≤ bound) : ReadsBinary c last d ps t level bound' :=
  fun ts next rest n hts hn hnext => h ts next rest n hts hn (hnext.trans hle)

lemma ReadsBinary.gives {level bound : Nat} (h : ReadsBinary c last d ps t level bound)
    {ts rest : List Lexeme} {next : Lexeme} {n : Nat} (hts : Spells ps ts (next :: rest))
    (hn : ts.length < n) (hlevel : 3 ≤ level) (hbound : next.reach ≤ bound) (hnext : next.reach < level) :
    Gives c last (binaryUpTo (rulesUpTo d) n (level - 3) true) t ts (next :: rest) := by
  obtain ⟨n, rfl⟩ := Nat.exists_eq_add_one_of_ne_zero (Nat.ne_of_gt (Nat.zero_lt_of_lt hn))
  obtain ⟨first, mid, hfirst, hgrows⟩ := h ts next rest n hts (by omega) hbound
  obtain ⟨copy, hcopy, hgrows⟩ := hgrows (stateAt last ts).current.position
  refine ⟨copy, ?_, hcopy⟩
  have hextend := run_extend hgrows (binaryStep_stop (by omega))
  simp only [binaryUpTo_eq, run_bind, run_here, hfirst]
  exact hextend

lemma ReadsBinary.whole {bound : Nat} (h : ReadsBinary c last d ps t 4 bound) (hbound : 3 ≤ bound)
    {ts rest : List Lexeme} {next : Lexeme} (hts : Spells ps ts (next :: rest))
    (hnext : next.reach < 4) : Gives c last (binary (rulesUpTo d) true) t ts (next :: rest) := by
  obtain ⟨copy, hrun, hcopy⟩ := h.gives hts (Nat.lt_succ_self _) (by decide) (by omega) hnext
  refine ⟨copy, ?_, hcopy⟩
  simp only [binary, run_bind, run_tokensLeft]
  exact hrun

lemma arrowFollows_eq_false (depth : Nat) (ts : List Token)
    (h : ∀ t ∈ ts, t.isPunctuator "=>" = false) : arrowFollows depth ts = false := by
  induction ts generalizing depth with
  | nil => rfl
  | cons t ts ih =>
    have ih (depth : Nat) := ih depth fun u hu => h u (by simp [hu])
    have hhead : (ts.head?.any fun arrow => arrow.isPunctuator "=>" && !arrow.newlineBefore) = false := by
      cases ts with
      | nil => rfl
      | cons u us => simp [h u (by simp)]
    simp [arrowFollows, ih, hhead]

lemma beginsArrow_eq_false (ts : List Token) (h : ∀ t ∈ ts, t.isPunctuator "=>" = false) :
    beginsArrow ts = false := by
  have hmem (isAsync : Bool) : ∀ u ∈ (if isAsync then ts.tail else ts), u ∈ ts := by
    cases isAsync with
    | false => exact fun u hu => hu
    | true => exact fun u hu => List.mem_of_mem_tail hu
  unfold beginsArrow
  dsimp only
  split
  · next t arrow rest heq =>
    have hkept : ∀ u ∈ t :: arrow :: rest, u ∈ ts := heq ▸ hmem _
    have hdepth := arrowFollows_eq_false 1 (arrow :: rest) fun u hu => h u (hkept u (.tail _ hu))
    simp [h arrow (hkept arrow (by simp)), hdepth]
  · rfl

lemma not_beginsArrow {ts : List Lexeme} :
    beginsArrow ((stateAt last ts).current :: (stateAt last ts).later) = false := by
  have htokens : (stateAt last ts).current :: (stateAt last ts).later = (ts ++ [last]).map Lexeme.token := by
    cases ts <;> simp [stateAt]
  rw [htokens]
  apply beginsArrow_eq_false _
  intro t ht
  obtain ⟨u, -, rfl⟩ := List.mem_map.mp ht
  exact Lexeme.not_isPunctuator u.isPlain

lemma ReadsBinary.conditional {bound : Nat} (h : ReadsBinary c last d ps t 4 bound) (hbound : 3 ≤ bound)
    {ts rest : List Lexeme} {next : Lexeme} (hts : Spells ps ts (next :: rest))
    (hnext : next.reach < Level.conditional) :
    Gives c last (conditional (rulesUpTo d) true) t ts (next :: rest) := by
  obtain ⟨copy, hrun, hcopy⟩ := h.whole hbound hts (hnext.trans (by decide))
  have hquestion : next.token.isPunctuator "?" = false :=
    Lexeme.not_isPunctuator_of_reach (hnext.trans_le (by decide))
  refine ⟨copy, ?_, hcopy⟩
  simp only [Grammar.conditional, run_bind, run_here, hrun,
    run_eat_not (s := stateAt last (next :: rest)) hquestion, Bool.not_false, if_true, run_pure]

lemma run_assignment (hc : c.inGenerator = false) {rules : Rules} {ts us : List Lexeme} {left : Tree}
    (h : conditional rules true c (stateAt last ts) = .ok left (stateAt last us)) :
    assignment rules true c (stateAt last ts) =
      (do
        let t ← current
        if !isAssignmentOperator t then return left
        if !isTarget left then fail .assignmentTarget
        skip
        let right ← rules (.assignment true)
        return .of (.assignmentExpression t.text (some left) (some right))
          (stateAt last ts).current.position : Parser Tree) c (stateAt last us) := by
  simp only [Grammar.assignment, run_bind, run_get, run_here, not_beginsArrow, Bool.false_eq_true, if_false,
    run_read, run_atName, hc, Bool.false_and, h]

lemma ReadsBinary.assignment {bound : Nat} (h : ReadsBinary c last d ps t 4 bound) (hbound : 3 ≤ bound)
    (hc : c.inGenerator = false) : ReadsAssignment c last d ps t := by
  intro ts next rest hts hnext
  obtain ⟨copy, hrun, hcopy⟩ := h.conditional hbound hts (hnext.trans (by decide))
  refine ⟨copy, ?_, hcopy⟩
  simp only [run_assignment hc hrun, run_bind, run_current, current_stateAt,
    Lexeme.not_isAssignmentOperator hnext, Bool.not_false, if_true, run_pure]

lemma ReadsAssignment.expression (h : ReadsAssignment c last d ps t) :
    ReadsExpression c last (d + 1) ps t := by
  intro ts next rest hts hnext
  obtain ⟨copy, hrun, hcopy⟩ := h ts next rest hts (hnext.trans (by decide))
  have hcomma : next.token.isPunctuator "," = false :=
    Lexeme.not_isPunctuator_of_reach (hnext.trans_le (by decide))
  refine ⟨copy, ?_, hcopy⟩
  have hrule : rulesUpTo (d + 1) (.assignment true) = Grammar.assignment (rulesUpTo d) true := rfl
  simp only [Grammar.expression, run_bind, run_here, hrule, hrun, run_atPunct, current_stateAt, hcomma,
    Bool.not_false, if_true, run_pure]

/-- What `primary` reads is an operand. -/
lemma ReadsOperand.of_primary {p : Piece} (hhead : p.BeginsHead)
    (hnew : p.kind = .keyword → p.text ≠ "new") (calls : Bool)
    (h : ∀ base ts rest, Spells (p :: ps) ts rest → Gives c last (primary (rulesUpTo d) base) t ts rest) :
    ReadsOperand c last d (p :: ps) t calls := by
  refine ⟨⟨p, rfl, hhead⟩, fun ts rest n hts hn => ?_⟩
  obtain ⟨u, us, rfl, hkind, htext, -, -⟩ := Spells.cons_iff.mp hts
  obtain ⟨n, rfl⟩ := Nat.exists_eq_add_one_of_ne_zero (by simp at hn; omega : n ≠ 0)
  obtain ⟨copy, hrun, hcopy⟩ := h (operandUpTo (rulesUpTo d) n) _ _ hts
  have hword : u.token.isKeyword "new" = false := by
    simpa [Token.isKeyword, Lexeme.token, hkind, htext] using hnew
  refine ⟨copy, rest, ?_, fun place _ => ⟨copy, hcopy, .refl⟩⟩
  simp only [headUpTo, run_bind, run_atWord, current_stateAt, hword, Bool.false_eq_true, if_false, hrun]

/-- Between parentheses every expression is an operand. -/
lemma ReadsExpression.parenthesized (h : ReadsExpression c last d ps t) (calls : Bool) :
    ReadsOperand c last d (inBrackets "(" ps ")") t calls := by
  refine .of_primary (p := .punctuator "(") (.head _) nofun calls fun base ts rest hts => ?_
  obtain ⟨u, us, rfl, hkind, htext, -, hus⟩ := Spells.cons_iff.mp hts
  obtain ⟨mid, hps, hclosing, -⟩ := Spells.append hus
  obtain ⟨v, vs, rfl, hkind', htext', -, hvs⟩ := Spells.cons_iff.mp hclosing
  obtain rfl := Spells.nil_iff.mp hvs
  have hopen : u.token.isPunctuator "(" = true := Lexeme.isPunctuator_of hkind htext
  have hclose : v.token.isPunctuator ")" = true := Lexeme.isPunctuator_of hkind' htext'
  obtain ⟨copy, hrun, hcopy⟩ := h us v vs hps (by rw [Lexeme.reach, hkind', htext']; decide)
  refine ⟨copy, ?_, hcopy⟩
  have hpunct : u.token.kind = .punctuator := hkind
  simp only [primary, run_bind, run_here, run_current, current_stateAt, hpunct, run_eat hopen, if_true,
    hrun, run_expect hclose, run_pure]

end Grammar

/-! ### Expressions in their places -/

/-- The largest reach of a token at which the operators of an expression stop. Powers group to the
right, so that another one does not stop them. -/
def Layout.bound (x : Layout) : Nat :=
  if x.level < 15 then x.level else if x.level = 15 then 14 else 15

namespace Layout

variable {x : Layout} {n : Nat}

lemma le_bound (h : n ≤ x.level) (hn : n < 15) : n ≤ x.bound := by
  unfold bound
  split_ifs <;> omega

lemma bound_of_unary (h : Level.unary ≤ x.level) : x.bound = 15 := by
  simp only [Level.unary] at h
  unfold bound
  split_ifs <;> omega

end Layout

/-- The pieces of an expression are read by every rule that is loose enough. Each node takes at most
four levels of depth. -/
structure Readable (c : Context) (last : Lexeme) (t : Tree) : Prop where
  operand : Level.call ≤ t.layout.level → ∀ d, 4 * t.size ≤ d + 4 →
    ReadsOperand c last d t.layout.pieces t t.layout.calls
  unary : Level.unary ≤ t.layout.level → ∀ d, 4 * t.size ≤ d + 4 →
    ReadsUnary c last d t.layout.pieces t
  binary : ∀ level, 4 ≤ level → level ≤ t.layout.level → ∀ d, 4 * t.size ≤ d + 3 →
    ReadsBinary c last d t.layout.pieces t level t.layout.bound
  assignment : Level.assignment ≤ t.layout.level → ∀ d, 4 * t.size ≤ d + 3 →
    ReadsAssignment c last d t.layout.pieces t
  expression : ∀ d, 4 * t.size ≤ d + 2 → ReadsExpression c last d t.layout.pieces t

namespace Readable

variable {c : Context} {last : Lexeme} {t : Tree}

lemma of_expression (hlevel : t.layout.level < Level.assignment)
    (h : ∀ d, 4 * t.size ≤ d + 2 → ReadsExpression c last d t.layout.pieces t) : Readable c last t where
  operand hle := by simp only [Level.assignment, Level.call] at *; omega
  unary hle := by simp only [Level.assignment, Level.unary] at *; omega
  binary level h4 hle := by simp only [Level.assignment] at *; omega
  assignment hle := absurd hlevel (Nat.not_lt.mpr hle)
  expression := h

lemma expression_of_assignment
    (h : ∀ d, 4 * t.size ≤ d + 3 → ReadsAssignment c last d t.layout.pieces t) (d : Nat)
    (hd : 4 * t.size ≤ d + 2) : ReadsExpression c last d t.layout.pieces t := by
  have := t.size_pos
  obtain ⟨d, rfl⟩ := Nat.exists_eq_add_one_of_ne_zero (by omega : d ≠ 0)
  exact (h d (by omega)).expression

lemma of_assignment (hlevel : t.layout.level < 4)
    (h : ∀ d, 4 * t.size ≤ d + 3 → ReadsAssignment c last d t.layout.pieces t) : Readable c last t where
  operand hle := by simp only [Level.call] at *; omega
  unary hle := by simp only [Level.unary] at *; omega
  binary level h4 hle := by omega
  assignment _ := h
  expression := expression_of_assignment h

lemma assignment_of_binary (hc : c.inGenerator = false) (hlevel : 4 ≤ t.layout.level)
    (h : ∀ level, 4 ≤ level → level ≤ t.layout.level → ∀ d, 4 * t.size ≤ d + 3 →
      ReadsBinary c last d t.layout.pieces t level t.layout.bound) (d : Nat)
    (hd : 4 * t.size ≤ d + 3) : ReadsAssignment c last d t.layout.pieces t := by
  exact (h 4 (Nat.le_refl _) hlevel d hd).assignment
    (Layout.le_bound (Nat.le_of_succ_le hlevel) (by decide)) hc

lemma of_binary (hc : c.inGenerator = false) (hleast : 4 ≤ t.layout.level)
    (hlevel : t.layout.level < Level.unary)
    (h : ∀ level, 4 ≤ level → level ≤ t.layout.level → ∀ d, 4 * t.size ≤ d + 3 →
      ReadsBinary c last d t.layout.pieces t level t.layout.bound) : Readable c last t where
  operand hle := by simp only [Level.call, Level.unary] at *; omega
  unary hle := absurd hlevel (Nat.not_lt.mpr hle)
  binary := h
  assignment _ := assignment_of_binary hc hleast h
  expression := expression_of_assignment (assignment_of_binary hc hleast h)

lemma binary_of_unary (hlevel : Level.unary ≤ t.layout.level)
    (h : ∀ d, 4 * t.size ≤ d + 4 → ReadsUnary c last d t.layout.pieces t) (level d : Nat)
    (hd : 4 * t.size ≤ d + 3) : ReadsBinary c last d t.layout.pieces t level t.layout.bound := by
  have := t.size_pos
  obtain ⟨d, rfl⟩ := Nat.exists_eq_add_one_of_ne_zero (by omega : d ≠ 0)
  rw [Layout.bound_of_unary hlevel]
  exact (h d (by omega)).binary level

lemma of_unary (hc : c.inGenerator = false) (hleast : Level.unary ≤ t.layout.level)
    (hoperand : Level.call ≤ t.layout.level → ∀ d, 4 * t.size ≤ d + 4 →
      ReadsOperand c last d t.layout.pieces t t.layout.calls)
    (h : ∀ d, 4 * t.size ≤ d + 4 → ReadsUnary c last d t.layout.pieces t) : Readable c last t := by
  have hbinary (level : Nat) (_ : 4 ≤ level) (_ : level ≤ t.layout.level) (d : Nat)
      (hd : 4 * t.size ≤ d + 3) := binary_of_unary hleast h level d hd
  have hassignment := assignment_of_binary hc (Nat.le_trans (by decide) hleast) hbinary
  exact ⟨hoperand, fun _ => h, hbinary, fun _ => hassignment, expression_of_assignment hassignment⟩

lemma of_operand (hc : c.inGenerator = false) (hleast : Level.call ≤ t.layout.level)
    (h : ∀ d, 4 * t.size ≤ d + 4 → ReadsOperand c last d t.layout.pieces t t.layout.calls) :
    Readable c last t :=
  of_unary hc (Nat.le_trans (by decide) hleast) (fun _ => h) fun d hd => (h d hd).unary

section Within

variable (h : Readable c last t) {d : Nat}

include h

lemma parenthesized (hd : 4 * t.size ≤ d + 2) (calls : Bool) :
    ReadsOperand c last d (inBrackets "(" t.layout.pieces ")") t calls :=
  (h.expression d hd).parenthesized calls

lemma operand_within (hd : 4 * t.size ≤ d + 2) :
    ReadsOperand c last d (t.layout.within Level.call) t t.layout.calls := by
  unfold Layout.within
  split
  · exact h.parenthesized hd _
  · next hlevel => exact h.operand (Nat.not_lt.mp hlevel) d (by omega)

/-- In a construction a callee that contains a call is parenthesized. -/
lemma callee_within (hlevel : t.layout.level < Level.parenthesized) (hd : 4 * t.size ≤ d + 2) :
    ReadsOperand c last d
      (t.layout.within (if t.layout.calls then Level.parenthesized else Level.call)) t false := by
  cases hcalls : t.layout.calls with
  | false =>
    rw [if_neg Bool.false_ne_true, ← hcalls]
    exact h.operand_within hd
  | true =>
    rw [if_pos rfl, Layout.within, if_pos hlevel]
    exact h.parenthesized hd false

lemma unary_within (hd : 4 * t.size ≤ d + 2) :
    ReadsUnary c last d (t.layout.within Level.unary) t := by
  unfold Layout.within
  split
  · exact (h.parenthesized hd false).unary
  · next hlevel => exact h.unary (Nat.not_lt.mp hlevel) d (by omega)

lemma binary_within (level least bound : Nat) (hlevel : 4 ≤ level) (hleast : level ≤ least)
    (hmax : bound ≤ 15) (hbound : least ≤ t.layout.level → bound ≤ t.layout.bound)
    (hd : 4 * t.size ≤ d + 1) : ReadsBinary c last d (t.layout.within least) t level bound := by
  unfold Layout.within
  split
  · have := t.size_pos
    obtain ⟨d, rfl⟩ := Nat.exists_eq_add_one_of_ne_zero (by omega : d ≠ 0)
    exact ((h.parenthesized (by omega) false).unary.binary level).mono hmax
  · next hlt =>
    exact (h.binary level hlevel (hleast.trans (Nat.not_lt.mp hlt)) d (by omega)).mono
      (hbound (Nat.not_lt.mp hlt))

lemma assignment_within (hc : c.inGenerator = false) (hd : 4 * t.size ≤ d + 1) :
    ReadsAssignment c last d (t.layout.within Level.assignment) t := by
  unfold Layout.within
  split
  · have := t.size_pos
    obtain ⟨d, rfl⟩ := Nat.exists_eq_add_one_of_ne_zero (by omega : d ≠ 0)
    exact ((h.parenthesized (by omega) false).unary.binary 4).assignment (by decide) hc
  · next hlevel => exact h.assignment (Nat.not_lt.mp hlevel) d (by omega)

end Within

end Readable

end PlainScript
