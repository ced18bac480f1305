import PlainScript.Proofs.PrintRuns
import PlainScript.Proofs.PrintSuccess

/-! Runs of operators. The printer walks down a run to its left end and prints the operands one behind the other. The
text is that of a printer that calls itself for every left operand, but the run costs one level however long it is. -/
namespace PlainScript

namespace Print

variable {α : Type} (source : NodeSource α) (inner : Part → α → Except PrintError Text)

/-! ### A printer that calls itself for every left operand -/

/-- The text of an operator between its operands, the left one printed like any other operand. -/
def recursiveBinary (indent : Nat) (op : Text) (left right : Option α) : Except PrintError Text := do
  let opLevel := operatorLevel op
  if opLevel = 0 ∨ op = "**" then binaryText source inner indent op left right
  else
    let (a, _) ← source.need "left operand" left
    let text ← inner (.expression indent (operandLevel source op opLevel a)) a
    return text ++ (← chainLink source inner indent opLevel (op, right))

def recursiveExpression (indent : Nat) (node : Node α) : Except PrintError Text :=
  match node.payload with
  | .binaryExpression op left right => recursiveBinary source inner indent op left right
  | _ => expressionText source inner indent node

def recursivePart : Part → α → Except PrintError Text
  | .statement indent, a => partText source inner (.statement indent) a
  | .expression indent least, a => do
    let (_, node) ← source.need "expression" (some a)
    let text ← recursiveExpression source inner indent node
    return if level node.payload < least then parenthesize text else text

/-- A part that nests at most `room` levels, where every left operand is a level. -/
def recursiveUpTo (limit : Int) : Nat → Part → α → Except PrintError Text
  | 0, _, _ => .error (.tooDeep limit)
  | room + 1, part, a => recursivePart source (recursiveUpTo limit room) part a

variable {source inner} {inner' : Part → α → Except PrintError Text} {same : Prop} {limit limit' : Int} {n m : Nat}
  {indent i j : Nat}

lemma Mirrors.trans {inner'' : Part → α → Except PrintError Text} (h : Mirrors True inner inner')
    (h' : Mirrors True inner' inner'') : Mirrors True inner inner'' := by
  intro p q x hlike
  exact (h p p x (.refl p)).trans (h' p q x hlike)

lemma Mirrors.recursiveBinary (h : Mirrors same inner inner') (hi : same → i = j) (op : Text) (left right : Option α) :
    Echoes same (Print.recursiveBinary source inner i op left right)
      (Print.recursiveBinary source inner' j op left right) := by
  unfold Print.recursiveBinary
  dsimp only
  split
  · exact h.binaryText hi _ _ _
  · exact echoes_bind_same _ fun _ => (h.part hi (fun _ => rfl) _).bind fun _ _ htext =>
      (h.chainLink hi _ _).bind_pure fun hs => by rw [htext hs]

lemma Mirrors.recursivePart (h : Mirrors same inner inner') :
    Mirrors same (Print.recursivePart source inner) (Print.recursivePart source inner') := by
  intro p q x hlike
  cases hlike with
  | statement hi => exact h.partText _ _ x (.statement hi)
  | @expression i j _ _ hi hl =>
    refine echoes_bind_same _ fun r => ?_
    have htext : Echoes same (recursiveExpression source inner i r.2) (recursiveExpression source inner' j r.2) := by
      unfold recursiveExpression
      split
      · exact h.recursiveBinary hi _ _ _
      · exact h.expressionText hi _
    exact htext.bind fun v w hvw => echoes_pure fun hs => by rw [hvw hs, hl hs]

lemma mirrors_recursiveUpTo (source : NodeSource α) (same : Prop) (limit limit' : Int) (hle : n ≤ m) :
    Mirrors same (recursiveUpTo source limit n) (recursiveUpTo source limit' m) := by
  induction n generalizing m with
  | zero => exact fun p q x _ => echoes_error _
  | succ n ih =>
    obtain ⟨m, rfl⟩ := Nat.exists_eq_add_of_le' (Nat.one_le_of_lt hle)
    exact (ih (Nat.le_of_succ_le_succ hle)).recursivePart

/-! ### Runs -/

lemma bind_eq_ok {ε β γ : Type} {x : Except ε β} {f : β → Except ε γ} {w : γ} :
    x >>= f = .ok w ↔ ∃ v, x = .ok v ∧ f v = .ok w := by
  cases x with
  | error e => simp [bind, Except.bind]
  | ok v => simp [bind, Except.bind]

section Runs

variable {op op' : Text} {x y : α} {node : Node α} {left right : Option α} {lv steps : Nat}
  {links : List (Text × Option α)} {text : Text} {texts : List Text}

/-- Operators of one level may stand side by side. -/
lemma not_mustNotMix (h : operatorLevel op = operatorLevel op') : mustNotMix op op' = false := by
  by_contra hmix
  simp only [mustNotMix, isLogical, Bool.not_eq_false, Bool.or_eq_true, Bool.and_eq_true, beq_iff_eq] at hmix
  obtain ⟨rfl, rfl | rfl⟩ | ⟨rfl | rfl, rfl⟩ := hmix <;> revert h <;> decide

lemma operandLevel_of_level (hnode : source.node? x = some node) (hp : node.payload = .binaryExpression op' left right)
    (h : operatorLevel op = operatorLevel op') (least : Nat) : operandLevel source op least x = least := by
  rw [operandLevel, NodeSource.payload?, hnode, Option.map_some, hp]
  exact if_neg (by rw [not_mustNotMix h]; decide)

/-- The text of a run that was walked some steps to the left. -/
def runText (source : NodeSource α) (inner : Part → α → Except PrintError Text) (indent lv steps : Nat)
    (left : Option α) (link : Text × Option α) (links : List (Text × Option α)) : Except PrintError Text := do
  let (head, links) ← leftChain source lv steps left (link :: links)
  let text ← inner (.expression indent (operandLevel source (links.headD ([], none)).1 lv head)) head
  return text ++ (← links.mapM (chainLink source inner indent lv)).flatten

lemma leftChain_zero (hnode : source.node? x = some node) :
    leftChain source lv 0 (some x) links = .ok (x, links) := by
  simp only [leftChain, NodeSource.need, hnode]
  rfl

/-- The printer walks one operator to the left, or it stops. -/
lemma leftChain_cases (hnode : source.node? x = some node) (lv steps : Nat) (links : List (Text × Option α)) :
    leftChain source lv steps (some x) links = .ok (x, links) ∨ ∃ op left right k, steps = k + 1 ∧
      node.payload = .binaryExpression op left right ∧ op ≠ "**" ∧ operatorLevel op = lv ∧
        leftChain source lv steps (some x) links = leftChain source lv k left ((op, right) :: links) := by
  cases steps with
  | zero => exact .inl (leftChain_zero hnode)
  | succ k =>
    obtain ⟨op, left, right, hp, hlink⟩ | hnot := isLink_cases node lv
    · rw [leftChain_eq hnode, hp]
      have hop : op ≠ "**" ∧ operatorLevel op = lv := by simpa using hlink
      exact .inr ⟨op, left, right, k, rfl, rfl, hop.1, hop.2, if_pos hlink⟩
    · exact .inl (leftChain_of_not_link hnode hnot)

lemma exists_of_leftChain {found : α × List (Text × Option α)} (h : leftChain source lv steps left links = .ok found) :
    ∃ x node, left = some x ∧ source.node? x = some node := by
  cases left with
  | none => cases steps <;> cases h
  | some x =>
    cases hnode : source.node? x with
    | none => cases steps <;> simp [leftChain, NodeSource.need, hnode, bind, Except.bind] at h
    | some node => exact ⟨x, node, rfl, hnode⟩

/-- The walk puts the operators that it finds in front of those it has. -/
lemma suffix_leftChain {head : α} {found : List (Text × Option α)}
    (h : leftChain source lv steps left links = .ok (head, found)) : links <:+ found := by
  induction steps generalizing left links with
  | zero =>
    obtain ⟨x, node, rfl, hnode⟩ := exists_of_leftChain h
    obtain ⟨-, rfl⟩ := Prod.mk.inj (Except.ok.inj ((leftChain_zero hnode).symm.trans h))
    exact List.suffix_rfl
  | succ steps ih =>
    obtain ⟨x, node, rfl, hnode⟩ := exists_of_leftChain h
    obtain hstop | ⟨op, left, right, k, hk, -, -, -, hwalk⟩ := leftChain_cases hnode lv (steps + 1) links
    · obtain ⟨-, rfl⟩ := Prod.mk.inj (Except.ok.inj (hstop.symm.trans h))
      exact List.suffix_rfl
    · obtain rfl := Nat.succ.inj hk
      exact (List.suffix_cons _ _).trans (ih (hwalk.symm.trans h))

lemma binaryText_eq (hlevel : operatorLevel op ≠ 0) (hpower : op ≠ "**") :
    binaryText source inner indent op left right =
      runText source inner indent (operatorLevel op) source.size left (op, right) [] := by
  unfold binaryText
  dsimp only
  rw [if_neg hlevel, if_neg (by simpa using hpower), runText]
  cases hwalk : leftChain source (operatorLevel op) source.size left [(op, right)] with
  | error e => rfl
  | ok r =>
    obtain ⟨head, found⟩ := r
    cases found with
    | nil => cases List.suffix_nil.mp (suffix_leftChain hwalk)
    | cons link found => rfl

variable {link : Text × Option α}

/-- The operand before the run is printed in front of what follows the operators. -/
lemma runText_of_stop (hstop : leftChain source lv steps (some x) (link :: links) = .ok (x, link :: links)) :
    runText source inner indent lv steps (some x) link links = do
      let text ← inner (.expression indent (operandLevel source link.1 lv x)) x
      return text ++ (← (link :: links).mapM (chainLink source inner indent lv)).flatten := by
  unfold runText
  rw [hstop]
  rfl

lemma runText_eq_ok_of_stop (hstop : leftChain source lv steps (some x) (link :: links) = .ok (x, link :: links))
    (hrun : runText source inner indent lv steps (some x) link links = .ok text) :
    ∃ first texts, inner (.expression indent (operandLevel source link.1 lv x)) x = .ok first ∧
      (link :: links).mapM (chainLink source inner indent lv) = .ok texts ∧ text = first ++ texts.flatten := by
  rw [runText_of_stop hstop] at hrun
  obtain ⟨first, hfirst, hrest⟩ := bind_eq_ok.mp hrun
  obtain ⟨texts, htexts, heq⟩ := bind_eq_ok.mp hrest
  exact ⟨first, texts, hfirst, htexts, (Except.ok.inj heq).symm⟩

lemma runText_of_walk (hwalk : leftChain source lv (steps + 1) (some x) (link :: links) =
      leftChain source lv steps left ((op, right) :: link :: links)) :
    runText source inner indent lv (steps + 1) (some x) link links =
      runText source inner indent lv steps left (op, right) (link :: links) := by
  unfold runText
  rw [hwalk]

/-- An operator of a run gets no parentheses there. -/
lemma recursivePart_link {least : Nat} (hnode : source.node? x = some node)
    (hp : node.payload = .binaryExpression op left right) (hleast : least ≤ operatorLevel op) :
    recursivePart source inner (.expression indent least) x = recursiveBinary source inner indent op left right := by
  have hlevel : ¬ level node.payload < least := by
    rw [hp]
    exact Nat.not_lt.mpr hleast
  have htext : recursiveExpression source inner indent node = recursiveBinary source inner indent op left right := by
    unfold recursiveExpression
    rw [hp]
  rw [← htext, recursivePart, NodeSource.need, hnode]
  cases hresult : recursiveExpression source inner indent node with
  | error e => simp [bind, Except.bind, hresult]
  | ok text => simp [bind, Except.bind, hresult, pure, Except.pure, hlevel]

lemma recursiveBinary_eq_ok (hlevel : operatorLevel op ≠ 0) (hpower : op ≠ "**") :
    recursiveBinary source inner indent op left right = .ok text ↔ ∃ y node first last, left = some y ∧
      source.node? y = some node ∧
      inner (.expression indent (operandLevel source op (operatorLevel op) y)) y = .ok first ∧
        chainLink source inner indent (operatorLevel op) (op, right) = .ok last ∧ text = first ++ last := by
  unfold recursiveBinary
  dsimp only
  rw [if_neg (by simp [hlevel, hpower])]
  cases left with
  | none => simp [NodeSource.need, bind, Except.bind]
  | some y =>
    cases hnode : source.node? y with
    | none => simp [NodeSource.need, hnode, bind, Except.bind]
    | some node =>
      simp only [NodeSource.need, hnode, bind, Except.bind]
      cases hfirst : inner (.expression indent (operandLevel source op (operatorLevel op) y)) y with
      | error e => simp [hfirst]
      | ok first =>
        cases hlast : chainLink source inner indent (operatorLevel op) (op, right) with
        | error e => simp
        | ok last => simp [hfirst, hnode, eq_comm, pure, Except.pure]

lemma mapM_cons_ok {f : Text × Option α → Except PrintError Text} {last : Text} (hlast : f link = .ok last)
    (hlinks : links.mapM f = .ok texts) : (link :: links).mapM f = .ok (last :: texts) := by
  rw [List.mapM_cons, hlast, hlinks]
  rfl

/-- What the calls for the left operands give is what the walk gives. -/
lemma runText_of_recursive (h : Mirrors True (recursiveUpTo source limit n) inner) (hlv : lv ≠ 0)
    (hnode : source.node? x = some node) (hlink : operatorLevel link.1 = lv)
    (hleft : recursiveUpTo source limit n (.expression indent (operandLevel source link.1 lv x)) x = .ok text)
    (hlinks : (link :: links).mapM (chainLink source inner indent lv) = .ok texts) :
    runText source inner indent lv steps (some x) link links = .ok (text ++ texts.flatten) := by
  -- The walk may stop early, since a call goes on where it stops; so `steps` need not be tied to `n`.
  induction steps generalizing x node link links text texts with
  | zero =>
    rw [runText_of_stop (leftChain_zero hnode), (h.part (fun _ => rfl) (fun _ => rfl) x).ok hleft, hlinks]
    rfl
  | succ steps ih =>
    obtain hstop | ⟨op, left, right, k, hk, hp, hpower, rfl, hwalk⟩ :=
      leftChain_cases hnode lv (steps + 1) (link :: links)
    · rw [runText_of_stop hstop, (h.part (fun _ => rfl) (fun _ => rfl) x).ok hleft, hlinks]
      rfl
    · obtain rfl := Nat.succ.inj hk
      cases n with
      | zero => cases hleft
      | succ n =>
        rw [operandLevel_of_level hnode hp hlink] at hleft
        have hbinary : recursiveBinary source (recursiveUpTo source limit n) indent op left right = .ok text :=
          (recursivePart_link hnode hp (Nat.le_refl _)).symm.trans hleft
        obtain ⟨y, node', first, last, rfl, hnode', hfirst, hlast, rfl⟩ := (recursiveBinary_eq_ok hlv hpower).mp hbinary
        have hmore := mirrors_recursiveUpTo source True limit limit (Nat.le_succ n)
        have hlast' : chainLink source inner indent (operatorLevel op) (op, right) = .ok last :=
          ((hmore.chainLink (fun _ => rfl) _ _).trans (h.chainLink (fun _ => rfl) _ _)).ok hlast
        have hfirst' := (hmore.part (fun _ => rfl) (fun _ => rfl) y).ok hfirst
        have htext : runText source inner indent (operatorLevel op) steps (some y) (op, right) (link :: links) =
            .ok (first ++ (last :: texts).flatten) := ih hnode' rfl hfirst' (mapM_cons_ok hlast' hlinks)
        rw [runText_of_walk hwalk, htext, List.flatten_cons, List.append_assoc]

/-- What the walk gives is what the calls for the left operands give, with one level more for each step. -/
lemma recursive_of_runText (h : Mirrors True inner (recursiveUpTo source limit n)) (hlv : lv ≠ 0)
    (hlink : operatorLevel link.1 = lv) (hrun : runText source inner indent lv steps left link links = .ok text) :
    ∃ x node first texts, left = some x ∧ source.node? x = some node ∧
      recursiveUpTo source limit (n + steps) (.expression indent (operandLevel source link.1 lv x)) x = .ok first ∧
        (link :: links).mapM (chainLink source inner indent lv) = .ok texts ∧ text = first ++ texts.flatten := by
  obtain ⟨r, hwalked⟩ : ∃ r, leftChain source lv steps left (link :: links) = .ok r := by
    cases hwalked : leftChain source lv steps left (link :: links) with
    | error e => rw [runText, hwalked] at hrun; cases hrun
    | ok r => exact ⟨r, rfl⟩
  have hmore (steps : Nat) := h.trans (mirrors_recursiveUpTo source True limit limit (Nat.le_add_right n steps))
  -- Each step of the walk stands for one call more, which is where the levels `n + steps` come from.
  induction steps generalizing left link links text with
  | zero =>
    obtain ⟨x, node, rfl, hnode⟩ := exists_of_leftChain hwalked
    obtain ⟨first, texts, hfirst, htexts, heq⟩ := runText_eq_ok_of_stop (leftChain_zero hnode) hrun
    exact ⟨x, node, first, texts, rfl, hnode, ((hmore 0).part (fun _ => rfl) (fun _ => rfl) x).ok hfirst, htexts, heq⟩
  | succ steps ih =>
    obtain ⟨x, node, rfl, hnode⟩ := exists_of_leftChain hwalked
    obtain hstop | ⟨op, left, right, k, hk, hp, hpower, rfl, hwalk⟩ :=
      leftChain_cases hnode lv (steps + 1) (link :: links)
    · obtain ⟨first, texts, hfirst, htexts, heq⟩ := runText_eq_ok_of_stop hstop hrun
      exact ⟨x, node, first, texts, rfl, hnode, ((hmore _).part (fun _ => rfl) (fun _ => rfl) x).ok hfirst, htexts, heq⟩
    · obtain rfl := Nat.succ.inj hk
      rw [runText_of_walk hwalk] at hrun
      obtain ⟨y, node', first, texts, rfl, hnode', hfirst, htexts, rfl⟩ := ih rfl hrun (hwalk.symm.trans hwalked)
      rw [List.mapM_cons] at htexts
      obtain ⟨last, hlast, htexts⟩ := bind_eq_ok.mp htexts
      obtain ⟨others, hothers, heq⟩ := bind_eq_ok.mp htexts
      obtain rfl := Except.ok.inj heq
      have hlast' := ((hmore steps).chainLink (fun _ => rfl) _ _).ok hlast
      have hbinary := (recursiveBinary_eq_ok hlv hpower).mpr ⟨y, node', first, last, rfl, hnode', hfirst, hlast', rfl⟩
      refine ⟨x, node, first ++ last, others, rfl, hnode, ?_, hothers, ?_⟩
      · rw [operandLevel_of_level hnode hp hlink]
        exact (recursivePart_link hnode hp (Nat.le_refl _)).trans hbinary
      · rw [List.flatten_cons, List.append_assoc]

lemma recursiveBinary_echoes (h : Mirrors True (recursiveUpTo source limit n) inner) (op : Text)
    (left right : Option α) :
    Echoes True (recursiveBinary source (recursiveUpTo source limit n) indent op left right)
      (binaryText source inner indent op left right) := by
  by_cases hloop : operatorLevel op = 0 ∨ op = "**"
  · rw [recursiveBinary]
    simp only [if_pos hloop]
    exact h.binaryText (fun _ => rfl) _ _ _
  · obtain ⟨hlevel, hpower⟩ := not_or.mp hloop
    intro text htext
    obtain ⟨x, node, first, last, rfl, hnode, hfirst, hlast, rfl⟩ := (recursiveBinary_eq_ok hlevel hpower).mp htext
    have hlinks : [(op, right)].mapM (chainLink source inner indent (operatorLevel op)) = .ok [last] :=
      mapM_cons_ok ((h.chainLink (fun _ => rfl) _ _).ok hlast) rfl
    refine ⟨first ++ last, ?_, fun _ => rfl⟩
    rw [binaryText_eq hlevel hpower, runText_of_recursive h hlevel hnode rfl hfirst hlinks, List.flatten_cons,
      List.flatten_nil, List.append_nil]

lemma binaryText_echoes (h : Mirrors True inner (recursiveUpTo source limit n)) (op : Text)
    (left right : Option α) :
    Echoes True (binaryText source inner indent op left right)
      (recursiveBinary source (recursiveUpTo source limit (n + source.size)) indent op left right) := by
  have hmore := h.trans (mirrors_recursiveUpTo source True limit limit (Nat.le_add_right n source.size))
  by_cases hloop : operatorLevel op = 0 ∨ op = "**"
  · rw [recursiveBinary]
    simp only [if_pos hloop]
    exact hmore.binaryText (fun _ => rfl) _ _ _
  · obtain ⟨hlevel, hpower⟩ := not_or.mp hloop
    intro text htext
    rw [binaryText_eq hlevel hpower] at htext
    obtain ⟨x, node, first, texts, rfl, hnode, hfirst, htexts, rfl⟩ := recursive_of_runText h hlevel rfl htext
    rw [List.mapM_cons] at htexts
    obtain ⟨last, hlast, hnone⟩ := bind_eq_ok.mp htexts
    obtain rfl := Except.ok.inj hnone
    refine ⟨_, (recursiveBinary_eq_ok hlevel hpower).mpr ⟨x, node, first, last, rfl, hnode, hfirst, ?_, rfl⟩, fun _ => ?_⟩
    · exact (hmore.chainLink (fun _ => rfl) _ _).ok hlast
    · rw [List.flatten_cons, List.reverse_nil, List.flatten_nil, List.append_nil]

end Runs

/-! ### The two printers -/

lemma expressionText_binary {inner : Part → α → Except PrintError Text} {indent : Nat} {node : Node α} {op : Text}
    {left right : Option α} (hp : node.payload = .binaryExpression op left right) :
    expressionText source inner indent node = binaryText source inner indent op left right := by
  unfold expressionText
  rw [hp]

/-- The calls for the left operands give what the walk down the run gives. -/
lemma mirrors_partUpTo_recursive (source : NodeSource α) (limit : Int) (n : Nat) :
    Mirrors True (recursiveUpTo source limit n) (partUpTo source limit n) := by
  induction n with
  | zero => exact fun p q x _ => echoes_error _
  | succ n ih =>
    intro p q x hlike
    cases hlike with
    | statement hi => exact ih.partText _ _ x (.statement hi)
    | @expression i j l m hi hl =>
      obtain rfl := hi trivial
      obtain rfl := hl trivial
      refine echoes_bind_same _ fun r => ?_
      have htext : Echoes True (recursiveExpression source (recursiveUpTo source limit n) i r.2)
          (expressionText source (partUpTo source limit n) i r.2) := by
        rw [recursiveExpression]
        split
        next op left right hp =>
          rw [expressionText_binary hp]
          exact recursiveBinary_echoes ih op left right
        · exact ih.expressionText (fun _ => rfl) _
      exact htext.bind_pure fun _ => rfl

/-- The walk down a run gives what the calls for the left operands give, if there is a level for each of them. -/
lemma mirrors_recursive_partUpTo (source : NodeSource α) (limit : Int) (n : Nat) :
    Mirrors True (partUpTo source limit n) (recursiveUpTo source limit (n * (source.size + 1))) := by
  induction n with
  | zero => exact fun p q x _ => echoes_error _
  | succ n ih =>
    have hroom : (n + 1) * (source.size + 1) = n * (source.size + 1) + source.size + 1 := by
      rw [Nat.add_mul, Nat.one_mul, Nat.add_assoc]
    rw [hroom]
    have hmore := ih.trans (mirrors_recursiveUpTo source True limit limit (Nat.le_add_right _ source.size))
    intro p q x hlike
    cases hlike with
    | statement hi => exact hmore.partText _ _ x (.statement hi)
    | @expression i j l m hi hl =>
      obtain rfl := hi trivial
      obtain rfl := hl trivial
      refine echoes_bind_same _ fun r => ?_
      have htext : Echoes True (expressionText source (partUpTo source limit n) i r.2)
          (recursiveExpression source (recursiveUpTo source limit (n * (source.size + 1) + source.size)) i r.2) := by
        rw [recursiveExpression]
        split
        next op left right hp =>
          rw [expressionText_binary hp]
          exact binaryText_echoes ih op left right
        · exact hmore.expressionText (fun _ => rfl) _
      exact htext.bind_pure fun _ => rfl

end Print

end PlainScript
