import PlainScript.Print.Printer
import PlainScript.Proofs.Wording

/-! The printer writes operator expressions as their layouts say. A run of operators of one level is
printed at once, and that gives the same text as printing the operators one by one. -/
namespace PlainScript

open Print

/-! ### Children -/

lemma Tree.node_mk (node : Node Tree) : (mk node).node = node := rfl

lemma mem_children_array {elements : List (Option Tree)} {e : Tree} (he : some e ∈ elements) :
    e ∈ (Payload.arrayExpression elements).children := by
  change e ∈ elements.filterMap id ++ []
  simpa using he

lemma mem_children_sequence {es : List Tree} {e : Tree} (he : e ∈ es) :
    e ∈ (Payload.sequenceExpression (es.map some)).children := by
  change e ∈ (es.map some).filterMap id ++ []
  simpa using he

lemma mem_children_call {args : List Tree} {e : Tree} (callee : Option Tree) (optional : Bool)
    (he : e ∈ args) : e ∈ (Payload.callExpression callee (args.map some) optional).children := by
  change e ∈ callee.toList ++ ((args.map some).filterMap id ++ [])
  simp [he]

lemma mem_children_new {args : List Tree} {e : Tree} (callee : Option Tree) (he : e ∈ args) :
    e ∈ (Payload.newExpression callee (args.map some)).children := by
  change e ∈ callee.toList ++ ((args.map some).filterMap id ++ [])
  simp [he]

/-! ### Texts of layouts -/

lemma spellings_spaced {ps : List Piece} (h : ∃ p ∈ ps.head?, p.margin = .none) :
    spellings (spaced ps) = 0x20 :: spellings ps := by
  obtain ⟨p, hp, hunspaced⟩ := h
  obtain ⟨rest, rfl⟩ := List.head?_eq_some_iff.mp hp
  simp [spaced, Piece.spelling, hunspaced]

lemma Sound.unspaced {ps : List Piece} (h : Sound ps) : ∃ p ∈ ps.head?, p.margin = .none :=
  h.begins.imp fun _ hp => ⟨hp.1, hp.2.1⟩

lemma spellings_inBrackets (opening closing : Text) (ps : List Piece) :
    spellings (inBrackets opening ps closing) = opening ++ (spellings ps ++ closing) := by
  simp [inBrackets, Piece.spelling, Piece.punctuator]

lemma spellings_within (x : Layout) (least : Nat) :
    spellings (x.within least) =
      if x.level < least then parenthesize (spellings x.pieces) else spellings x.pieces := by
  unfold Layout.within
  split
  · rw [spellings_inBrackets, parenthesize]
  · rfl

lemma list_unspaced {xs : List (Option Layout)} (hne : xs ≠ [])
    (h : ∀ x, some x ∈ xs → Sound x.pieces) : ∃ p ∈ (Layout.list xs).head?, p.margin = .none := by
  cases xs using Layout.list.fun_cases with
  | case1 => exact absurd rfl hne
  | case2 x => exact ((h x (by simp)).within _).unspaced
  | case3 rest => exact ⟨_, rfl, rfl⟩
  | case4 x rest hrest =>
    obtain ⟨p, hp, hunspaced⟩ := ((h x (by simp)).within Level.assignment).unspaced
    rw [Layout.list]
    · exact ⟨p, by simp [List.head?_append, Option.mem_def.mp hp], hunspaced⟩
    · exact hrest

/-- Joining the texts of operands gives the text of their pieces. A hole at the end has a comma of its
own. -/
lemma join_operands (xs : List (Option Layout)) (h : ∀ x, some x ∈ xs → Sound x.pieces) :
    commaSeparated (xs.map fun x => x.elim [] fun x => spellings (x.within Level.assignment))
        ++ (if (xs.getLast?).any Option.isNone then (",": Text) else []) =
      spellings (Layout.list xs) := by
  have hcomma : Text.ofString ", " = (",": Text) ++ [0x20] := by decide
  induction xs using Layout.list.induct with
  | case1 => rfl
  | case2 x => simp [commaSeparated, Layout.list]
  | case3 rest ih =>
    have ih := ih fun x hx => h x (by simp [hx])
    cases rest with
    | nil => rfl
    | cons y ys =>
      rw [Layout.list, spellings_cons, spellings_spaced (list_unspaced (by simp) fun x hx =>
        h x (by simp [hx])), ← ih]
      simp [commaSeparated, Text.join, hcomma, Piece.spelling, Piece.punctuator]
  | case4 x rest hrest ih =>
    have ih := ih fun x hx => h x (by simp [hx])
    rw [Layout.list]
    · cases rest with
      | nil => exact absurd rfl hrest
      | cons y ys =>
        rw [spellings_append, spellings_cons, spellings_spaced (list_unspaced (by simp) fun x hx =>
          h x (by simp [hx])), ← ih]
        simp [commaSeparated, Text.join, hcomma, Piece.spelling, Piece.punctuator]
    · exact hrest

/-- The texts of operands that are all there, joined. -/
lemma join_all {es : List Tree} (hsound : ∀ e ∈ es, Sound e.layout.pieces) :
    commaSeparated (es.map fun e => spellings (e.layout.within Level.assignment)) =
      spellings (Layout.list (es.map fun e => some e.layout)) := by
  have hjoin := join_operands (es.map fun e => some e.layout) fun x hx => by
    obtain ⟨e, he, hex⟩ := List.mem_map.mp hx
    exact Option.some.inj hex ▸ hsound e he
  have hlast : ((es.map fun e => some e.layout).getLast?).any Option.isNone = false := by
    rw [List.getLast?_map]
    cases es.getLast? <;> rfl
  rw [hlast] at hjoin
  simpa [Function.comp_def] using hjoin

lemma ok_bind {ε α β : Type} (a : α) (f : α → Except ε β) :
    ((.ok a : Except ε α) >>= f) = f a := rfl

lemma mapM_ok {ε α β : Type} {f : α → Except ε β} {g : α → β} {xs : List α}
    (h : ∀ a ∈ xs, f a = .ok (g a)) : xs.mapM f = .ok (xs.map g) := by
  induction xs with
  | nil => rfl
  | cons a rest ih =>
    rw [List.mapM_cons, h a (by simp), ih fun b hb => h b (by simp [hb])]
    rfl

/-! ### Operands in their places -/

section Printing

variable {source : NodeSource Tree} (hsource : ∀ t, source.node? t = some t.node)

include hsource

lemma need_some (what : Text) (t : Tree) : source.need what (some t) = .ok (t, t.node) := by
  simp [NodeSource.need, hsource]

lemma payload?_eq (t : Tree) : source.payload? t = some t.node.payload := by
  simp [NodeSource.payload?, hsource]

end Printing

/-- Some way to print parts writes an expression as its layout. -/
def Prints (inner : Part → Tree → Except PrintError Text) (t : Tree) : Prop :=
  ∀ indent least, inner (.expression indent least) t = .ok (spellings (t.layout.within least))

lemma Operators.level_eq {t : Tree} (h : Operators t) : level t.node.payload = t.layout.level := by
  have hunary : ∀ op ∈ signs ++ unaryWords, isYield op = false := by decide
  cases h with
  | unary h hop he =>
    simp [Tree.layout_mk, h, Tree.node, Tree.foldPayload, layoutNode, level, hunary _ hop]
  | update h hop he href =>
    rename_i isPrefixed _
    cases isPrefixed <;> simp [Tree.layout_mk, h, Tree.node, Tree.foldPayload, layoutNode, level]
  | _ h => simp [Tree.layout_mk, h, Tree.node, Tree.foldPayload, layoutNode, level, Layout.leaf]

lemma mustNotMix_nil (op : Text) : mustNotMix op [] = false := by
  have hlogical : isLogical [] = false := by decide
  have hne : (([] : Text) == ("??" : Text)) = false := by decide
  simp [mustNotMix, hlogical, hne]

lemma Operators.operandLevel_eq {source : NodeSource Tree}
    (hsource : ∀ t, source.node? t = some t.node) {t : Tree} (h : Operators t) (op : Text)
    (least : Nat) : operandLevel source op least t = t.layout.beside op least := by
  rw [operandLevel, payload?_eq hsource]
  cases h with
  | update h hop he href =>
    rename_i isPrefixed _
    cases isPrefixed <;>
      simp [Tree.layout_mk, h, Tree.node, Tree.foldPayload, layoutNode, Layout.beside, mustNotMix_nil]
  | _ h =>
    simp [Tree.layout_mk, h, Tree.node, Tree.foldPayload, layoutNode, Layout.beside, Layout.leaf,
      mustNotMix_nil]

lemma Operators.containsCall_eq {source : NodeSource Tree}
    (hsource : ∀ t, source.node? t = some t.node) {t : Tree} (h : Operators t) {n : Nat}
    (hn : t.size ≤ n) : containsCall source n t = t.layout.calls := by
  induction h generalizing n with
  | @index node object key h hobject hkey iho ihk =>
    have hsize : object.size < (Tree.mk node).size := Tree.size_lt (h ▸ .head _)
    obtain ⟨m, rfl⟩ := Nat.exists_eq_add_one_of_ne_zero (by omega : n ≠ 0)
    rw [containsCall, payload?_eq hsource]
    simp [Tree.layout_mk, h, Tree.node, Tree.foldPayload, layoutNode, iho (n := m) (by omega)]
  | @member node object key name h hobject hkey hname iho =>
    have hsize : object.size < (Tree.mk node).size := Tree.size_lt (h ▸ .head _)
    obtain ⟨m, rfl⟩ := Nat.exists_eq_add_one_of_ne_zero (by omega : n ≠ 0)
    rw [containsCall, payload?_eq hsource]
    simp [Tree.layout_mk, h, Tree.node, Tree.foldPayload, layoutNode, iho (n := m) (by omega)]
  | @update node op isPrefixed e h hop he href ih =>
    have hpos := Tree.size_pos (.mk node)
    obtain ⟨m, rfl⟩ := Nat.exists_eq_add_one_of_ne_zero (by omega : n ≠ 0)
    rw [containsCall, payload?_eq hsource]
    cases isPrefixed <;> simp [Tree.layout_mk, h, Tree.node, Tree.foldPayload, layoutNode]
  | @identifier node _ h | @null node h | @boolean node _ h | @this node h | @string node _ h
  | @array node _ h | @unary node _ _ h | @binary node _ _ _ h | @assignment node _ _ _ h
  | @conditional node _ _ _ h | @sequence node _ h | @call node _ _ h | @new node _ _ h =>
    have hpos := Tree.size_pos (.mk node)
    obtain ⟨m, rfl⟩ := Nat.exists_eq_add_one_of_ne_zero (by omega : n ≠ 0)
    rw [containsCall, payload?_eq hsource]
    simp [Tree.layout_mk, h, Tree.node, Tree.foldPayload, layoutNode, Layout.leaf]

/-! ### Runs of operators -/

section Runs

variable {source : NodeSource Tree} (hsource : ∀ t, source.node? t = some t.node)
  {inner : Part → Tree → Except PrintError Text}

include hsource

lemma leftChain_stop {t : Tree} {lv steps : Nat} {links : List (Text × Option Tree)}
    (h : ∀ op l r, t.node.payload = .binaryExpression op l r → op = "**" ∨ operatorLevel op ≠ lv) :
    leftChain source lv steps (some t) links = .ok (t, links) := by
  cases steps with
  | zero =>
    simp only [leftChain, need_some hsource, ok_bind]
    rfl
  | succ steps =>
    simp only [leftChain, need_some hsource, ok_bind]
    split
    · next op l r hp =>
      rw [if_neg]
      · rfl
      · rcases h op l r hp with rfl | hne
        · simp
        · simp [hne]
    · rfl

lemma leftChain_step {t : Tree} {lv steps : Nat} {links : List (Text × Option Tree)} {op : Text}
    {l r : Option Tree} (hp : t.node.payload = .binaryExpression op l r) (hop : op ≠ "**")
    (hlv : operatorLevel op = lv) :
    leftChain source lv (steps + 1) (some t) links =
      leftChain source lv steps l ((op, r) :: links) := by
  simp [leftChain, need_some hsource, ok_bind, hp, hop, hlv]

/-- The text of the head of a run and of its links is that of the expression as the left operand of
`op`. -/
def ChainPrints (source : NodeSource Tree) (inner : Part → Tree → Except PrintError Text)
    (steps : Nat) (t : Tree) : Prop :=
  ∀ indent (op : Text) right links, op ≠ "**" →
    ∃ head more text texts,
      leftChain source (operatorLevel op) steps (some t) ((op, right) :: links) =
        .ok (head, more ++ (op, right) :: links) ∧
      inner (.expression indent (operandLevel source
        ((more ++ (op, right) :: links).headD (op, right)).1 (operatorLevel op) head)) head = .ok text ∧
      more.mapM (chainLink source inner indent (operatorLevel op)) = .ok texts ∧
      text ++ texts.flatten = spellings (t.layout.within (t.layout.beside op (operatorLevel op)))

omit hsource in
lemma mustNotMix_of_level {op op' : Text} (h : operatorLevel op = operatorLevel op') :
    mustNotMix op op' = false := by
  by_contra hmix
  have hlogical : ∀ op, isLogical op = true → op = "||" ∨ op = "&&" := by
    intro op hop
    simpa [isLogical] using hop
  simp only [mustNotMix, Bool.or_eq_true, Bool.and_eq_true, beq_iff_eq, Bool.not_eq_false] at hmix
  rcases hmix with ⟨rfl, hop⟩ | ⟨hop, rfl⟩ <;> rcases hlogical _ hop with rfl | rfl <;>
    exact absurd h (by decide)

omit hsource in
lemma spellings_joined {ps qs : List Piece} {p : Piece} (hp : p.margin = .none)
    (hq : ∃ q ∈ qs.head?, q.margin = .none) :
    spellings (ps ++ spaced [p] ++ spaced qs) =
      spellings ps ++ ((" " : Text) ++ (p.text ++ ((" " : Text) ++ spellings qs))) := by
  have hblank : Text.ofString " " = [0x20] := by decide
  rw [spellings_append, spellings_append, spellings_spaced hq]
  simp [spaced, Piece.spelling, hp, hblank]

omit hsource in
lemma text_operatorPiece (op : Text) : (operatorPiece op).text = op := by
  unfold operatorPiece
  split <;> rfl

omit hsource in
lemma margin_operatorPiece (op : Text) : (operatorPiece op).margin = .none := by
  unfold operatorPiece
  split <;> rfl

lemma chainLink_ok (indent : Nat) (op : Text) {r : Tree} (hr : Operators r) (h : Prints inner r) :
    chainLink source inner indent (operatorLevel op) (op, some r) =
      .ok ((" " : Text) ++ op ++ (" " : Text) ++
        spellings (r.layout.within (r.layout.beside op (operatorLevel op + 1)))) := by
  simp only [chainLink, need_some hsource, ok_bind, hr.operandLevel_eq hsource, h indent]
  rfl

omit hsource in
lemma Operators.operands {t : Tree} (h : Operators t) {op : Text} {l r : Option Tree}
    (hp : t.node.payload = .binaryExpression op l r) :
    ∃ l' r', l = some l' ∧ r = some r' ∧ Operators l' ∧ Operators r' := by
  cases h with
  | @binary node op l r h hop hl hr => cases h.symm.trans hp; exact ⟨_, _, rfl, rfl, hl, hr⟩
  | _ h => cases h.symm.trans hp

lemma Operators.chainPrints_step {t : Tree} (h : Operators t) (ht : Prints inner t) {steps : Nat}
    (hstep : ∀ op l r, t.node.payload = .binaryExpression op (some l) (some r) → op ≠ "**" →
      (∃ n, steps = n + 1 ∧ ChainPrints source inner n l) ∧ Operators r ∧ Prints inner r) :
    ChainPrints source inner steps t := by
  intro indent op right links hop
  by_cases hrun : ∃ op' l r, t.node.payload = .binaryExpression op' (some l) (some r) ∧
      op' ≠ "**" ∧ operatorLevel op' = operatorLevel op
  · obtain ⟨op', l, r, hp, hop', hlv⟩ := hrun
    obtain ⟨⟨n, rfl, hl⟩, hr, hprints⟩ := hstep op' l r hp hop'
    obtain ⟨head, more, text, texts, hchain, hhead, hmore, htext⟩ :=
      hl indent op' (some r) ((op, right) :: links) hop'
    rw [hlv] at hchain hhead hmore htext
    have hlink := chainLink_ok hsource indent op' hr hprints
    refine ⟨head, more ++ [(op', some r)], text, texts ++ [(" " : Text) ++ op' ++ (" " : Text) ++
      spellings (r.layout.within (r.layout.beside op' (operatorLevel op' + 1)))], ?_, ?_, ?_, ?_⟩
    · rw [leftChain_step hsource hp hop' hlv, hchain]
      simp
    · rw [List.append_assoc, List.singleton_append, ← hhead]
      cases more <;> rfl
    · rw [List.mapM_append, hmore, ← hlv]
      simp only [ok_bind, List.mapM_cons, hlink]
      rfl
    · have hbare : t.layout.within (t.layout.beside op (operatorLevel op)) = t.layout.pieces := by
        rw [Tree.layout_binary hp hop', Layout.beside_of_not_mix (mustNotMix_of_level hlv.symm),
          Layout.within_of_le (Nat.le_of_eq hlv.symm)]
      rw [hbare, List.flatten_append, ← List.append_assoc, htext, Tree.layout_binary hp hop',
        spellings_joined (margin_operatorPiece _) (hr.sound.within _).unspaced,
        text_operatorPiece, hlv]
      simp
  · refine ⟨t, [], _, [], leftChain_stop hsource fun op' l r hp => ?_, ht indent _, rfl, ?_⟩
    · by_contra hne
      rw [not_or, not_not] at hne
      obtain ⟨l', r', rfl, rfl, -⟩ := h.operands hp
      exact hrun ⟨op', l', r', hp, hne⟩
    · simp [h.operandLevel_eq hsource]

lemma Operators.chainPrints {t : Tree} (h : Operators t) {steps : Nat} (hsteps : t.size ≤ steps)
    (hinner : ∀ t', Operators t' → t'.size ≤ t.size → Prints inner t') :
    ChainPrints source inner steps t := by
  induction steps generalizing t with
  | zero =>
    have := t.size_pos
    omega
  | succ steps ih =>
    apply h.chainPrints_step hsource (hinner t h (Nat.le_refl _))
    intro op l r hp hop
    obtain ⟨l', r', hl', hr', hl, hr⟩ := h.operands hp
    cases hl'
    cases hr'
    have hsl : l.size < t.size := Tree.size_lt (hp ▸ .head _)
    have hsr : r.size < t.size := Tree.size_lt (hp ▸ .tail _ (.head _))
    exact ⟨⟨steps, rfl, ih hl (by omega) fun t' h' hs => hinner t' h' (by omega)⟩, hr,
      hinner r hr (by omega)⟩

/-! ### Expressions -/

lemma expression_ok {t : Tree} (h : Prints inner t) (indent least : Nat) (what : Text) :
    expression source inner indent least what (some t) =
      .ok (spellings (t.layout.within least)) := by
  simp only [expression, need_some hsource, ok_bind]
  exact h indent least

lemma mapM_expression {es : List Tree} (h : ∀ e ∈ es, Prints inner e) (indent least : Nat)
    (what : Text) :
    (es.map some).mapM (expression source inner indent least what) =
      .ok (es.map fun e => spellings (e.layout.within least)) := by
  rw [List.mapM_map]
  exact mapM_ok fun e he => expression_ok hsource (h e he) indent least what

lemma argumentsText_ok {es : List Tree} (hes : ∀ e ∈ es, Operators e)
    (h : ∀ e ∈ es, Prints inner e) (indent : Nat) :
    argumentsText source inner indent (es.map some) =
      .ok (spellings (inBrackets "(" (Layout.list (es.map fun e => some e.layout)) ")")) := by
  simp only [argumentsText, mapM_expression hsource h, ok_bind, join_all fun e he => (hes e he).sound]
  rw [spellings_inBrackets, parenthesize]
  rfl

omit hsource in
lemma arrayText_ok {elements : List (Option Tree)} (helements : ∀ e, some e ∈ elements → Operators e)
    (h : ∀ e, some e ∈ elements → Prints inner e) (indent : Nat) :
    arrayText inner indent elements =
      .ok (spellings (inBrackets "[" (Layout.list (elements.map (Option.map Tree.layout))) "]")) := by
  have hjoin := join_operands (elements.map (Option.map Tree.layout)) fun x hx => by
    obtain ⟨o, ho, hox⟩ := List.mem_map.mp hx
    obtain ⟨e, rfl, rfl⟩ := Option.map_eq_some_iff.mp hox
    exact (helements e ho).sound
  have hlast : ((elements.map (Option.map Tree.layout)).getLast?).any Option.isNone =
      (elements.getLast?).any Option.isNone := by
    rw [List.getLast?_map]
    rcases elements.getLast? with _ | _ | _ <;> rfl
  rw [hlast, List.map_map] at hjoin
  unfold arrayText
  rw [mapM_ok (g := (fun x : Option Layout => x.elim [] fun x =>
    spellings (x.within Level.assignment)) ∘ Option.map Tree.layout) (fun e he => ?_), ok_bind,
    spellings_inBrackets, ← hjoin]
  · simp only [List.append_assoc]
    split <;> rfl
  · cases e with
    | none => rfl
    | some e => exact h e he indent _

lemma signText_ok {e : Tree} {op : Text} (he : Operators e) (h : Prints inner e) (hop : op ∈ signs)
    (indent : Nat) : unaryText source inner indent op (some e) =
      .ok (spellings (operatorPiece op :: e.layout.operand op)) := by
  have hall : ∀ op ∈ signs, isWordOperator op = false ∧ op.head? ≠ none := by decide
  obtain ⟨hword, hne⟩ := hall op hop
  have hunspaced := (he.sound.within Level.unary).unspaced
  have hfuses : ∀ text : Text, (!text.isEmpty && text.head? == op.head?) = (text.head? == op.head?) := by
    intro text
    cases text with
    | nil => simp [Ne.symm hne]
    | cons c rest => rfl
  simp only [unaryText, hword, expression_ok hsource h, ok_bind, Layout.operand, Bool.false_or,
    (operatorPiece_sign op hop).1, spellings_cons, Bool.false_eq_true, if_false, Bool.and_assoc, hfuses]
  by_cases happart : ((op == ("-" : Text) || op == ("+" : Text)) &&
      (spellings (e.layout.within Level.unary)).head? == op.head?) = true
  · rw [if_pos happart, if_pos happart, spellings_spaced hunspaced]
    have hblank : Text.ofString " " = [0x20] := by decide
    simp [Piece.spelling, Piece.punctuator, hblank]
    rfl
  · rw [if_neg happart, if_neg happart]
    simp [Piece.spelling, Piece.punctuator]
    rfl

omit hsource in
lemma wordText_ok {e : Tree} {op : Text} (he : Operators e) (h : Prints inner e)
    (hop : op ∈ unaryWords) (indent : Nat) : unaryText source inner indent op (some e) =
      .ok (spellings (operatorPiece op :: e.layout.operand op)) := by
  have hyield : ∀ op ∈ unaryWords, isYield op = false := by decide
  obtain ⟨hpiece, -, -, hword⟩ := operatorPiece_word op hop
  have hblank : Text.ofString " " = [0x20] := by decide
  simp only [unaryText, hword, hyield op hop, h indent, ok_bind, Layout.operand, Bool.true_or, hpiece,
    if_true, Bool.false_eq_true, if_false, spellings_cons,
    spellings_spaced (he.sound.within Level.unary).unspaced]
  simp [Piece.spelling, Piece.keyword, hblank]
  rfl

omit hsource in
lemma Operators.not_number {t : Tree} (h : Operators t) :
    (t.node.payload.kind == .numericLiteral) = false := by
  cases h with
  | _ h => simp only [Tree.node, h]; rfl

/-! One lemma for each kind of expression that holds others. -/

section Kinds

variable {node : Node Tree} {op : Text} {e l r test yes no callee object key : Tree} {es args : List Tree}

lemma updateText_ok {isPrefixed : Bool} (h : node.payload = .updateExpression op isPrefixed (some e))
    (he : Prints inner e) (indent : Nat) :
    expressionText source inner indent node = .ok (spellings (Tree.mk node).layout.pieces) := by
  cases isPrefixed
  · simp only [expressionText, h, Tree.layout_postfixed (t := .mk node) h, expression_ok hsource he, ok_bind]
    simp [Piece.spelling, Piece.punctuator]
    rfl
  · simp only [expressionText, h, Tree.layout_prefixed (t := .mk node) h, expression_ok hsource he, ok_bind]
    simp [Piece.spelling, Piece.punctuator]
    rfl

lemma powerText_ok (h : node.payload = .binaryExpression "**" (some l) (some r)) (hl : Prints inner l)
    (hr : Operators r) (hr' : Prints inner r) (indent : Nat) :
    binaryText source inner indent "**" (some l) (some r) = .ok (spellings (Tree.mk node).layout.pieces) := by
  have hlevel : operatorLevel "**" = 15 := by decide
  have hmark : Text.ofString " ** " = (" " : Text) ++ (("**" : Text) ++ (" " : Text)) := by decide
  simp only [binaryText, hlevel, expression_ok hsource hl, expression_ok hsource hr', ok_bind,
    Tree.layout_power (t := .mk node) h, beq_self_eq_true, if_true]
  rw [spellings_joined rfl (hr.sound.within _).unspaced, hmark]
  simp [Piece.punctuator]
  rfl

/-- A chain of operators is printed from its first operand on. -/
lemma chainText_ok (h : node.payload = .binaryExpression op (some l) (some r)) (hop : operatorLevel op ≠ 0)
    (hpower : op ≠ "**") (hl : ChainPrints source inner source.size l) (hr : Operators r) (hr' : Prints inner r)
    (indent : Nat) :
    binaryText source inner indent op (some l) (some r) = .ok (spellings (Tree.mk node).layout.pieces) := by
  obtain ⟨head, more, text, texts, hrun, hhead, hmore, htext⟩ := hl indent op (some r) [] hpower
  have hlink := chainLink_ok hsource indent op hr hr'
  rw [Tree.layout_binary (t := .mk node) h hpower,
    spellings_joined (margin_operatorPiece _) (hr.sound.within _).unspaced, ← htext, text_operatorPiece]
  simp only [binaryText, hop, hpower, if_false, beq_iff_eq, hrun, ok_bind, hhead, List.mapM_append,
    hmore, List.mapM_cons, hlink]
  simp
  rfl

lemma assignmentText_ok (h : node.payload = .assignmentExpression op (some l) (some r)) (hl : Prints inner l)
    (hr : Operators r) (hr' : Prints inner r) (indent : Nat) :
    expressionText source inner indent node = .ok (spellings (Tree.mk node).layout.pieces) := by
  simp only [expressionText, h, Tree.layout_assignment (t := .mk node) h,
    expression_ok hsource hl, expression_ok hsource hr', ok_bind]
  rw [spellings_joined rfl (hr.sound.within _).unspaced]
  simp [Piece.punctuator]
  rfl

lemma conditionalText_ok (h : node.payload = .conditionalExpression (some test) (some yes) (some no))
    (ht : Prints inner test) (hyes : Operators yes) (hy : Prints inner yes) (hno : Operators no)
    (hn : Prints inner no) (indent : Nat) :
    expressionText source inner indent node = .ok (spellings (Tree.mk node).layout.pieces) := by
  simp only [expressionText, h, Tree.layout_conditional (t := .mk node) h,
    expression_ok hsource ht, expression_ok hsource hy, expression_ok hsource hn, ok_bind]
  rw [spellings_joined rfl (hno.sound.within _).unspaced, spellings_joined rfl (hyes.sound.within _).unspaced]
  have hyesMark : Text.ofString " ? " = (" " : Text) ++ (("?" : Text) ++ (" " : Text)) := by decide
  have hnoMark : Text.ofString " : " = (" " : Text) ++ ((":" : Text) ++ (" " : Text)) := by decide
  simp [Piece.punctuator, hyesMark, hnoMark]
  rfl

lemma sequenceText_ok (h : node.payload = .sequenceExpression (es.map some)) (hlength : 2 ≤ es.length)
    (hes : ∀ e ∈ es, Operators e) (hinner : ∀ e ∈ es, Prints inner e) (indent : Nat) :
    expressionText source inner indent node = .ok (spellings (Tree.mk node).layout.pieces) := by
  simp only [expressionText, h, Tree.layout_sequence (t := .mk node) h,
    mapM_expression hsource hinner, ok_bind, join_all fun e he => (hes e he).sound]
  rw [if_neg (by cases es <;> simp_all)]
  rfl

lemma callText_ok (h : node.payload = .callExpression (some callee) (args.map some) false)
    (hcallee : Prints inner callee) (hargs : ∀ e ∈ args, Operators e) (hargs' : ∀ e ∈ args, Prints inner e)
    (indent : Nat) :
    expressionText source inner indent node = .ok (spellings (Tree.mk node).layout.pieces) := by
  simp only [expressionText, h, Tree.layout_call (t := .mk node) h,
    expression_ok hsource hcallee, ok_bind, argumentsText_ok hsource hargs hargs']
  rw [spellings_append]
  rfl

lemma constructionText_ok (h : node.payload = .newExpression (some callee) (args.map some))
    (hcallee : Operators callee) (hcallee' : Prints inner callee) (hsize : callee.size ≤ source.size)
    (hargs : ∀ e ∈ args, Operators e) (hargs' : ∀ e ∈ args, Prints inner e) (indent : Nat) :
    expressionText source inner indent node = .ok (spellings (Tree.mk node).layout.pieces) := by
  simp only [expressionText, h, Tree.layout_new (t := .mk node) h, newText,
    need_some hsource, ok_bind, argumentsText_ok hsource hargs hargs', hcallee' indent,
    hcallee.containsCall_eq hsource hsize]
  have hword : Text.ofString "new " = ("new" : Text) ++ [0x20] := by decide
  rw [spellings_append, spellings_cons, spellings_spaced (hcallee.sound.within _).unspaced, hword]
  simp [Piece.spelling, Piece.keyword]
  rfl

lemma indexText_ok (h : node.payload = .memberExpression (some object) (some key) true false)
    (hobject : Prints inner object) (hkey : Prints inner key) (indent : Nat) :
    expressionText source inner indent node = .ok (spellings (Tree.mk node).layout.pieces) := by
  simp only [expressionText, h, Tree.layout_index (t := .mk node) h, memberText,
    need_some hsource, ok_bind, hobject indent, hkey indent, Layout.within_of_le (Nat.zero_le _), if_true,
    Bool.not_true, Bool.and_false, Bool.false_and, Bool.false_eq_true, if_false]
  rw [spellings_append, spellings_inBrackets]
  simp
  rfl

lemma namedMemberText_ok {name : Text} (h : node.payload = .memberExpression (some object) (some key) false false)
    (hobject : Operators object) (hobject' : Prints inner object) (hkey : key.node.payload = .identifier name)
    (indent : Nat) :
    expressionText source inner indent node = .ok (spellings (Tree.mk node).layout.pieces) := by
  simp only [expressionText, h, Tree.layout_member (t := .mk node) h hkey, memberText,
    need_some hsource, ok_bind, hobject' indent, hobject.not_number, hkey, Bool.false_and,
    Bool.false_eq_true, if_false]
  simp [Piece.spelling, Piece.punctuator]
  rfl

end Kinds

/-- An expression is printed in the pieces of its layout if what it holds is. -/
lemma Operators.expressionText_ok {t : Tree} (h : Operators t) (hsize : t.size ≤ source.size)
    (hinner : ∀ t', Operators t' → t'.size < t.size → Prints inner t') (indent : Nat) :
    expressionText source inner indent t.node = .ok (spellings t.layout.pieces) := by
  cases h with
  | @identifier node name h hname hplain =>
    simp only [expressionText, Tree.node_mk, h, Tree.layout_identifier (t := .mk node) h, Layout.leaf]
    simp [Piece.spelling]
    rfl
  | @null node h =>
    simp only [expressionText, Tree.node_mk, h, Tree.layout_null (t := .mk node) h, Layout.leaf]
    simp [Piece.spelling, Piece.keyword]
    rfl
  | @boolean node value h =>
    simp only [expressionText, Tree.node_mk, h, Tree.layout_boolean (t := .mk node) h, Layout.leaf]
    simp [Piece.spelling, Piece.keyword]
    cases value <;> rfl
  | @this node h =>
    simp only [expressionText, Tree.node_mk, h, Tree.layout_this (t := .mk node) h, Layout.leaf]
    simp [Piece.spelling, Piece.keyword]
    rfl
  | @string node value h =>
    simp only [expressionText, Tree.node_mk, h, Tree.layout_string (t := .mk node) h, Layout.leaf]
    simp [Piece.spelling]
    rfl
  | @array node elements h helements =>
    have hinner' : ∀ e, some e ∈ elements → Prints inner e := fun e he =>
      hinner e (helements e he) (Tree.size_lt (h ▸ mem_children_array he))
    simp only [expressionText, Tree.node_mk, h, Tree.layout_array (t := .mk node) h]
    exact arrayText_ok helements hinner' indent
  | @unary node op e h hop he =>
    have hinner' := hinner e he (Tree.size_lt (h ▸ .head _))
    simp only [expressionText, Tree.node_mk, h, Tree.layout_unary (t := .mk node) h]
    rcases List.mem_append.mp hop with hsign | hword
    · exact signText_ok hsource he hinner' hsign indent
    · exact wordText_ok he hinner' hword indent
  | update h hop he href => exact updateText_ok hsource h (hinner _ he (Tree.size_lt (h ▸ .head _))) indent
  | @binary node op l r h hop hl hr =>
    have hl' := hinner l hl (Tree.size_lt (h ▸ .head _))
    have hr' := hinner r hr (Tree.size_lt (h ▸ .tail _ (.head _)))
    have hsl : l.size < (Tree.mk node).size := Tree.size_lt (h ▸ .head _)
    have hpayload : expressionText source inner indent (Tree.mk node).node =
        binaryText source inner indent op (some l) (some r) := by
      simp only [expressionText, Tree.node, h]
    rw [hpayload]
    by_cases hpower : op = "**"
    · subst hpower
      exact powerText_ok hsource h hl' hr hr' indent
    · exact chainText_ok hsource h hop hpower (hl.chainPrints hsource (Nat.le_trans (Nat.le_of_lt hsl) hsize)
        fun t' h' hs => hinner t' h' (Nat.lt_of_le_of_lt hs hsl)) hr hr' indent
  | assignment h hop hl href hr =>
    exact assignmentText_ok hsource h (hinner _ hl (Tree.size_lt (h ▸ .head _))) hr
      (hinner _ hr (Tree.size_lt (h ▸ .tail _ (.head _)))) indent
  | conditional h htest hyes hno =>
    exact conditionalText_ok hsource h (hinner _ htest (Tree.size_lt (h ▸ .head _))) hyes
      (hinner _ hyes (Tree.size_lt (h ▸ .tail _ (.head _)))) hno
      (hinner _ hno (Tree.size_lt (h ▸ .tail _ (.tail _ (.head _))))) indent
  | sequence h hlength hes =>
    exact sequenceText_ok hsource h hlength hes
      (fun e he => hinner e (hes e he) (Tree.size_lt (h ▸ mem_children_sequence he))) indent
  | call h hcallee hargs =>
    exact callText_ok hsource h (hinner _ hcallee (Tree.size_lt (h ▸ .head _))) hargs
      (fun e he => hinner e (hargs e he) (Tree.size_lt (h ▸ mem_children_call _ _ he))) indent
  | @new node callee args h hcallee hargs =>
    have hsc : callee.size < (Tree.mk node).size := Tree.size_lt (h ▸ .head _)
    exact constructionText_ok hsource h hcallee (hinner callee hcallee hsc)
      (Nat.le_trans (Nat.le_of_lt hsc) hsize) hargs
      (fun e he => hinner e (hargs e he) (Tree.size_lt (h ▸ mem_children_new _ he))) indent
  | index h hobject hkey =>
    exact indexText_ok hsource h (hinner _ hobject (Tree.size_lt (h ▸ .head _)))
      (hinner _ hkey (Tree.size_lt (h ▸ .tail _ (.head _)))) indent
  | member h hobject hkey hname =>
    exact namedMemberText_ok hsource h hobject (hinner _ hobject (Tree.size_lt (h ▸ .head _))) hkey indent

lemma Operators.prints {t : Tree} (h : Operators t) {limit : Int} {room : Nat} (hroom : t.size ≤ room)
    (hsize : t.size ≤ source.size) : Prints (partUpTo source limit room) t := by
  induction room generalizing t with
  | zero =>
    have := t.size_pos
    omega
  | succ room ih =>
    intro indent least
    have htext : expressionText source (partUpTo source limit room) indent t.node =
        .ok (spellings t.layout.pieces) :=
      h.expressionText_ok hsource hsize (fun t' h' hlt => ih h' (by omega) (by omega)) indent
    simp only [partUpTo, partText, need_some hsource, ok_bind, htext, h.level_eq, spellings_within]
    rfl

end Runs

/-! ### Programs of one expression -/

namespace Tree

/-- A program with one statement, which is an expression. -/
def asStatement (t : Tree) : Tree :=
  of (.program [some (of (.expressionStatement (some t)) {})]) {}

/-- The pieces of an expression that is a statement. -/
def statementPieces (t : Tree) : List Piece :=
  (if readsAsDeclaration (spellings t.layout.pieces) then inBrackets "(" t.layout.pieces ")"
    else t.layout.pieces) ++ [.punctuator ";"]

end Tree

theorem Operators.print_ok {t : Tree} (h : Operators t) {options : PrintOptions}
    (hdepth : (t.size : Int) + 1 ≤ options.maxDepth) :
    t.asStatement.print options = .ok (spellings t.statementPieces) := by
  obtain ⟨room, hroom⟩ : ∃ room, options.maxDepth.toNat = room + 1 := ⟨options.maxDepth.toNat - 1, by omega⟩
  have hsource : ∀ t' : Tree, t.asStatement.source.node? t' = some t'.node := fun _ => rfl
  have hsize : t.size ≤ t.asStatement.source.size := by
    have hstatement : t.size < (Tree.of (.expressionStatement (some t)) {}).size :=
      Tree.size_lt (.head _)
    have hprogram : (Tree.of (.expressionStatement (some t)) {}).size < t.asStatement.size :=
      Tree.size_lt (.head _)
    exact Nat.le_of_lt (hstatement.trans hprogram)
  have hprints : Prints (partUpTo t.asStatement.source options.maxDepth room) t :=
    h.prints hsource (by omega) hsize
  have htext := expression_ok hsource hprints 0 0 "expression"
  rw [Layout.within_of_le (Nat.zero_le _)] at htext
  have hstatement : partUpTo t.asStatement.source options.maxDepth (room + 1) (.statement 0)
      (.of (.expressionStatement (some t)) {}) = .ok (spellings t.statementPieces) := by
    simp only [partUpTo, partText, need_some hsource, ok_bind, statementText, Tree.of, Tree.node_mk, htext,
      Tree.statementPieces]
    split <;> simp [spellings_inBrackets, parenthesize, Piece.spelling, Piece.punctuator] <;> rfl
  have hlines : statementLines t.asStatement.source
      (partUpTo t.asStatement.source options.maxDepth (room + 1)) 0
      [some (.of (.expressionStatement (some t)) {})] [] = .ok [spellings t.statementPieces] := by
    simp only [statementLines, List.mapM_cons, List.mapM_nil, statementLine, need_some hsource, ok_bind,
      hstatement]
    rfl
  rw [Tree.print, NodeSource.print, hroom, need_some hsource, ok_bind]
  change (statementLines _ _ 0 [some (Tree.of (.expressionStatement (some t)) {})] [] >>=
    fun lines => pure (Text.join "\n" lines)) = _
  rw [hlines, ok_bind]
  simp [Text.join]
  rfl

end PlainScript
