import PlainScript.Proofs.Chains
import Mathlib.Data.List.Perm.Subperm

/-! How much room a run of operators takes. A level is enough for all the operators of one level, since the walk down
the run meets every node once and so comes to the operand before it. -/
namespace PlainScript

namespace Print

variable {α : Type} {source : NodeSource α} {inner inner' : Part → α → Except PrintError Text} {same : Prop}
  {limit limit' : Int} {n m k opLevel : Nat} {x y : α} {top : Option α}

/-! ### Whole texts -/

/-- The text under a reference, given how the parts of it are printed. -/
def textWith (source : NodeSource α) (inner : Part → α → Except PrintError Text) (top : Option α) :
    Except PrintError Text := do
  let (a, node) ← source.need "root node" top
  match node.payload with
  | .program body => return Text.join "\n" (← statementLines source inner 0 body node.trailing)
  | .property key value kind computed shorthand isStatic =>
    property source inner 0 key value kind computed shorthand isStatic
  | other =>
    if other.kind.isStatement then return commentLines 0 node.leading ++ (← inner (.statement 0) a)
    inner (.expression 0 0) a

lemma print_eq (source : NodeSource α) (top : Option α) (options : PrintOptions) :
    source.print top options = textWith source (partUpTo source options.maxDepth options.maxDepth.toNat) top := rfl

lemma Mirrors.textWith (h : Mirrors same inner inner') (top : Option α) :
    Echoes same (Print.textWith source inner top) (Print.textWith source inner' top) := by
  refine echoes_bind_same _ fun r => ?_
  dsimp only
  split
  · exact (h.statementLines (fun _ => rfl) _ _).bind_pure fun _ => rfl
  · exact h.property (fun _ => rfl) _ _ _ _ _ _
  · split
    · exact (h.statement (fun _ => rfl) _).bind_pure fun _ => rfl
    · exact h.part (fun _ => rfl) (fun _ => rfl) _

end Print

open Print in
/-- The text under a reference by a printer that calls itself for every left operand. -/
def NodeSource.printRecursively {α : Type} (source : NodeSource α) (top : Option α) (options : PrintOptions) :
    Except PrintError Text :=
  textWith source (recursiveUpTo source options.maxDepth options.maxDepth.toNat) top

/-- What stands between operators: a node that is printed as an expression wherever it stands. -/
def Kind.isOperand (kind : Kind) : Bool := !kind.isStatement && kind != .program && kind != .property

def Arena.isOperand (a : Arena) (id : NodeId) : Bool := (a.kind? id).any Kind.isOperand

namespace Print

section Runs

variable {α : Type} {source : NodeSource α} {limit limit' : Int} {n m k opLevel : Nat} {x y : α}

/-- The node is an operator of some level with the operands on both sides of it. -/
def IsLink (source : NodeSource α) (opLevel : Nat) (x left right : α) : Prop :=
  ∃ node op, source.node? x = some node ∧ node.payload = .binaryExpression op (some left) (some right) ∧
    op ≠ "**" ∧ operatorLevel op = opLevel

/-- A run of operators of one level that leads to the left, with its operands in the order of the text. -/
inductive Run (source : NodeSource α) (opLevel : Nat) : α → List α → Prop
  | operand (x : α) : Run source opLevel x [x]
  | link {x left right : α} {operands : List α} (hlink : IsLink source opLevel x left right)
    (h : Run source opLevel left operands) : Run source opLevel x (operands ++ [right])

/-- The node is printed as an expression of its own. -/
def FitsIn (source : NodeSource α) (n : Nat) (x : α) : Prop :=
  ∃ text, partUpTo source 0 n (.expression 0 0) x = .ok text

/-- It does not matter how far it is indented, whether it gets parentheses and what the limit is called. -/
lemma fitsIn_iff {indent least : Nat} :
    FitsIn source n x ↔ ∃ text, partUpTo source limit n (.expression indent least) x = .ok text := by
  constructor
  · rintro ⟨text, htext⟩
    obtain ⟨text', htext', -⟩ := (mirrors_partUpTo source False 0 limit (Nat.le_refl n)).part nofun nofun x text htext
    exact ⟨text', htext'⟩
  · rintro ⟨text, htext⟩
    obtain ⟨text', htext', -⟩ := (mirrors_partUpTo source False limit 0 (Nat.le_refl n)).part nofun nofun x text htext
    exact ⟨text', htext'⟩

lemma FitsIn.mono (h : FitsIn source n x) (hle : n ≤ m) : FitsIn source m x := by
  obtain ⟨text, htext⟩ := h
  exact ⟨text, ((mirrors_partUpTo source True 0 0 hle).part (fun _ => rfl) (fun _ => rfl) x).ok htext⟩

/-- A run of so many operators down to an operand that is none of them, with operands that have some property. -/
inductive Spans (source : NodeSource α) (opLevel : Nat) (P : α → Prop) : Nat → α → Prop
  | stop {x : α} {node : Node α} (hnode : source.node? x = some node)
    (hstop : ∀ op left right, node.payload = .binaryExpression op left right →
      (op != "**" && operatorLevel op == opLevel) = false) (hx : P x) : Spans source opLevel P 0 x
  | link {k : Nat} {x left right : α} (hlink : IsLink source opLevel x left right) (hright : P right)
    (h : Spans source opLevel P k left) : Spans source opLevel P (k + 1) x

variable {P Q : α → Prop} {operands : List α} {links : List (Text × Option α)} {steps : Nat}

lemma Spans.mono (h : Spans source opLevel P k x) (hPQ : ∀ y, P y → Q y) : Spans source opLevel Q k x := by
  induction h with
  | stop hnode hstop hx => exact .stop hnode hstop (hPQ _ hx)
  | link hlink hright _ ih => exact .link hlink (hPQ _ hright) ih

lemma Spans.exists_fits (h : Spans source opLevel P k x) : ∃ y, P y := by
  induction h with
  | stop _ _ hx => exact ⟨_, hx⟩
  | link _ hright => exact ⟨_, hright⟩

lemma Spans.exists_node (h : Spans source opLevel P k x) : ∃ node, source.node? x = some node := by
  cases h with
  | stop hnode => exact ⟨_, hnode⟩
  | link hlink =>
    obtain ⟨node, -, hnode, -⟩ := hlink
    exact ⟨node, hnode⟩

/-- There is one way down a run. -/
lemma Spans.length_eq (h : Spans source opLevel P k x) (h' : Spans source opLevel Q m x) : k = m := by
  induction h generalizing m with
  | stop hnode hstop hx =>
    cases h' with
    | stop => rfl
    | link hlink =>
      obtain ⟨node, op, hnode', hp, hpower, rfl⟩ := hlink
      obtain rfl := Option.some.inj (hnode.symm.trans hnode')
      simpa [hpower] using hstop _ _ _ hp
  | link hlink hright _ ih =>
    obtain ⟨node, op, hnode, hp, hpower, rfl⟩ := hlink
    cases h' with
    | stop hnode' hstop =>
      obtain rfl := Option.some.inj (hnode.symm.trans hnode')
      simpa [hpower] using hstop _ _ _ hp
    | link hlink' _ h' =>
      obtain ⟨node', op', hnode', hp', -⟩ := hlink'
      obtain rfl := Option.some.inj (hnode.symm.trans hnode')
      obtain ⟨-, hleft, -⟩ := Payload.binaryExpression.inj (hp.symm.trans hp')
      obtain rfl := Option.some.inj hleft
      rw [ih h']

/-- The walk down a run comes to its end, and what it finds are the operands. -/
lemma Spans.exists_leftChain (h : Spans source opLevel P k x) (hsteps : k ≤ steps)
    (hlinks : ∀ link ∈ links, ∃ y ∈ link.2, P y) :
    ∃ head found, leftChain source opLevel steps (some x) links = .ok (head, found) ∧ P head ∧
      ∀ link ∈ found, ∃ y ∈ link.2, P y := by
  induction h generalizing steps links with
  | @stop x node hnode hstop hx =>
    refine ⟨x, links, ?_, hx, hlinks⟩
    cases steps with
    | zero => exact leftChain_zero hnode
    | succ steps => exact leftChain_of_not_link hnode hstop
  | @link k x left right hlink hright _ ih =>
    obtain ⟨node, op, hnode, hp, hpower, hlevel⟩ := hlink
    obtain ⟨steps, rfl⟩ := Nat.exists_eq_add_of_le' (Nat.one_le_of_lt hsteps)
    have hwalk : leftChain source opLevel (steps + 1) (some x) links =
        leftChain source opLevel steps (some left) ((op, some right) :: links) := by
      rw [leftChain_eq hnode, hp]
      exact if_pos (by simp [hpower, hlevel])
    rw [hwalk]
    exact ih (Nat.le_of_succ_le_succ hsteps) (List.forall_mem_cons.mpr ⟨⟨right, rfl, hright⟩, hlinks⟩)

/-- What the walk comes to is part of the run that it began with. -/
lemma Spans.of_leftChain {left : Option α} {head : α} {found : List (Text × Option α)}
    (hwalk : Print.leftChain source opLevel steps left links = .ok (head, found))
    (hfound : ∀ link ∈ found, ∃ y ∈ link.2, P y) (h : Spans source opLevel P k head) :
    ∃ x k', left = some x ∧ Spans source opLevel P k' x := by
  induction steps generalizing left links with
  | zero =>
    obtain ⟨x, node, rfl, hnode⟩ := exists_of_leftChain hwalk
    obtain ⟨rfl, -⟩ := Prod.mk.inj (Except.ok.inj ((leftChain_zero hnode).symm.trans hwalk))
    exact ⟨x, k, rfl, h⟩
  | succ steps ih =>
    obtain ⟨x, node, rfl, hnode⟩ := exists_of_leftChain hwalk
    obtain hstop | ⟨op, left, right, j, hj, hp, hpower, hlevel, hstep⟩ :=
      leftChain_cases hnode opLevel (steps + 1) links
    · obtain ⟨rfl, -⟩ := Prod.mk.inj (Except.ok.inj (hstop.symm.trans hwalk))
      exact ⟨x, k, rfl, h⟩
    · obtain rfl := Nat.succ.inj hj
      have hrest := hstep.symm.trans hwalk
      obtain ⟨y, k', rfl, hy⟩ := ih hrest
      obtain ⟨z, hz, hfits⟩ := hfound _ ((suffix_leftChain hrest).subset List.mem_cons_self)
      obtain rfl := Option.mem_def.mp hz
      exact ⟨x, k' + 1, rfl, .link ⟨node, op, hnode, hp, hpower, hlevel⟩ hfits hy⟩

/-! ### Room -/

lemma FitsIn.exists_node (h : FitsIn source n x) : ∃ node, source.node? x = some node := by
  obtain ⟨text, htext⟩ := h
  cases n with
  | zero => cases htext
  | succ n =>
    cases hnode : source.node? x with
    | none => simp [partUpTo, partText, NodeSource.need, hnode, bind, Except.bind] at htext
    | some node => exact ⟨node, rfl⟩

lemma fitsIn_succ {node : Node α} (hnode : source.node? x = some node) :
    FitsIn source (n + 1) x ↔ ∃ text, expressionText source (partUpTo source 0 n) 0 node = .ok text := by
  simp only [FitsIn, partUpTo, partText, NodeSource.need, hnode, bind, Except.bind]
  cases expressionText source (partUpTo source 0 n) 0 node <;> simp [pure, Except.pure]

lemma fitsIn_succ_binary {node : Node α} {op : Text} {left right : Option α} (hnode : source.node? x = some node)
    (hp : node.payload = .binaryExpression op left right) :
    FitsIn source (n + 1) x ↔ ∃ text, binaryText source (partUpTo source 0 n) 0 op left right = .ok text := by
  rw [fitsIn_succ hnode]
  unfold expressionText
  rw [hp]

lemma need_eq_ok {what : Text} {slot : Option α} {node : Node α} :
    source.need what slot = .ok (x, node) ↔ slot = some x ∧ source.node? x = some node := by
  cases slot <;> grind [NodeSource.need]

lemma isOk_chainLink {indent : Nat} {link : Text × Option α} :
    (chainLink source (partUpTo source limit n) indent opLevel link).isOk = true ↔ ∃ y ∈ link.2, FitsIn source n y := by
  rw [chainLink, isOk_bind]
  constructor
  · rintro ⟨⟨y, node⟩, hneed, hok⟩
    obtain ⟨hslot, -⟩ := need_eq_ok.mp hneed
    rw [isOk_bind_pure, isOk_iff, ← fitsIn_iff] at hok
    exact ⟨y, hslot, hok⟩
  · rintro ⟨y, hslot, hfits⟩
    obtain ⟨node, hnode⟩ := hfits.exists_node
    refine ⟨(y, node), need_eq_ok.mpr ⟨hslot, hnode⟩, ?_⟩
    rw [isOk_bind_pure, isOk_iff, ← fitsIn_iff]
    exact hfits

/-- A run has a text if there is room for what the walk finds. -/
lemma isOk_runText {indent : Nat} {left : Option α} {link : Text × Option α} :
    (runText source (partUpTo source limit n) indent opLevel steps left link links).isOk = true ↔
      ∃ head found, Print.leftChain source opLevel steps left (link :: links) = .ok (head, found) ∧
        FitsIn source n head ∧ ∀ link ∈ found, ∃ y ∈ link.2, FitsIn source n y := by
  have hparts (head : α) (found : List (Text × Option α)) :
      (do
        let text ← partUpTo source limit n
          (.expression indent (operandLevel source (found.headD ([], none)).1 opLevel head)) head
        return text ++ (← found.mapM (chainLink source (partUpTo source limit n) indent opLevel)).flatten :
          Except PrintError Text).isOk = true ↔
        FitsIn source n head ∧ ∀ link ∈ found, ∃ y ∈ link.2, FitsIn source n y := by
    rw [isOk_bind_of fun _ => by rw [isOk_bind_pure, isOk_mapM], isOk_iff, ← fitsIn_iff]
    simp only [isOk_chainLink]
  rw [runText, isOk_bind]
  constructor
  · rintro ⟨⟨head, found⟩, hwalk, hok⟩
    exact ⟨head, found, hwalk, (hparts head found).mp hok⟩
  · rintro ⟨head, found, hwalk, hfits⟩
    exact ⟨(head, found), hwalk, (hparts head found).mpr hfits⟩

/-- What is printed has an end to its left. -/
lemma FitsIn.exists_spans (hlevel : opLevel ≠ 0) (h : FitsIn source n x) :
    ∃ k, Spans source opLevel (FitsIn source n) k x := by
  induction n generalizing x with
  | zero =>
    obtain ⟨text, htext⟩ := h
    cases htext
  | succ n ih =>
    obtain ⟨node, hnode⟩ := h.exists_node
    obtain ⟨op, left, right, hp, hlink⟩ | hstop := isLink_cases node opLevel
    · obtain ⟨hpower, rfl⟩ : op ≠ "**" ∧ operatorLevel op = opLevel := by simpa using hlink
      rw [fitsIn_succ_binary hnode hp, binaryText_eq hlevel hpower, ← isOk_iff, isOk_runText] at h
      obtain ⟨head, found, hwalk, hhead, hfound⟩ := h
      obtain ⟨k, hspans⟩ := ih hhead
      obtain ⟨y, k', rfl, hy⟩ := hspans.of_leftChain hwalk hfound
      obtain ⟨z, hz, hright⟩ := hfound _ ((suffix_leftChain hwalk).subset List.mem_cons_self)
      obtain rfl := Option.mem_def.mp hz
      have hmore : ∀ y, FitsIn source n y → FitsIn source (n + 1) y := fun y hy => hy.mono (Nat.le_succ n)
      exact ⟨k' + 1, .link ⟨node, op, hnode, hp, hpower, rfl⟩ (hmore _ hright) (hy.mono hmore)⟩
    · exact ⟨0, .stop hnode hstop h⟩

lemma Run.exists_spans (hlevel : opLevel ≠ 0) (h : Run source opLevel x operands)
    (hfits : ∀ y ∈ operands, FitsIn source n y) : ∃ k, Spans source opLevel (FitsIn source n) k x := by
  induction h with
  | operand x => exact (hfits x (List.mem_singleton_self x)).exists_spans hlevel
  | @link x left right operands hlink _ ih =>
    obtain ⟨k, hleft⟩ := ih fun y hy => hfits y (List.mem_append_left _ hy)
    exact ⟨k + 1, .link hlink (hfits right (by simp)) hleft⟩

/-- However long a run is, it takes one level more than its operands if the walk has enough steps. -/
lemma Spans.fitsIn (hlevel : opLevel ≠ 0) (h : Spans source opLevel (FitsIn source n) k x) (hsize : k ≤ source.size) :
    FitsIn source (n + 1) x := by
  cases h with
  | stop _ _ hx => exact hx.mono (Nat.le_succ n)
  | @link k _ left right hlink hright h =>
    obtain ⟨node, op, hnode, hp, hpower, rfl⟩ := hlink
    rw [fitsIn_succ_binary hnode hp, binaryText_eq hlevel hpower, ← isOk_iff, isOk_runText]
    exact h.exists_leftChain (Nat.le_of_succ_le hsize) (by simpa using hright)

end Runs

/-! ### Runs in an arena -/

section Arena

variable {a : Arena} {opLevel k : Nat} {P : NodeId → Prop} {x : NodeId}

/-- The nodes on the way down a run are all different. -/
lemma Spans.exists_nodes (h : Spans a.source opLevel P k x) : ∃ way : List NodeId, way.length = k + 1 ∧ way.Nodup ∧
    ∀ y ∈ way, y < a.size ∧ ∃ j ≤ k, Spans a.source opLevel P j y := by
  have hlt {k : Nat} {x : NodeId} (h : Spans a.source opLevel P k x) : x < a.size := by
    obtain ⟨node, hnode⟩ := h.exists_node
    obtain ⟨cell, hcell, -⟩ := Option.map_eq_some_iff.mp hnode
    exact (Array.getElem?_eq_some_iff.mp hcell).1
  induction h with
  | @stop x node hnode hstop hx =>
    have hspans := Spans.stop hnode hstop hx
    exact ⟨[x], rfl, by simp, by simpa using ⟨hlt hspans, hspans⟩⟩
  | @link k x left right hlink hright h ih =>
    have hspans := Spans.link hlink hright h
    obtain ⟨way, hlength, hnodup, hway⟩ := ih
    refine ⟨x :: way, by rw [List.length_cons, hlength], List.nodup_cons.mpr ⟨fun hx => ?_, hnodup⟩, ?_⟩
    · obtain ⟨-, j, hj, hother⟩ := hway x hx
      have := hspans.length_eq hother
      omega
    · refine List.forall_mem_cons.mpr ⟨⟨hlt hspans, k + 1, Nat.le_refl _, hspans⟩, fun y hy => ?_⟩
      obtain ⟨hy, j, hj, hother⟩ := hway y hy
      exact ⟨hy, j, Nat.le_succ_of_le hj, hother⟩

/-- A run has not more operators than there are nodes. -/
lemma Spans.lt_size (h : Spans a.source opLevel P k x) : k < a.size := by
  obtain ⟨way, hlength, hnodup, hway⟩ := h.exists_nodes
  have hsub : way ⊆ List.range a.size := fun y hy => List.mem_range.mpr (hway y hy).1
  have hle := (List.subperm_of_subset hnodup hsub).length_le
  rw [hlength, List.length_range] at hle
  exact hle

lemma textWith_operand {α : Type} {source : NodeSource α} {inner : Part → α → Except PrintError Text} {x : α}
    {node : Node α} (hnode : source.node? x = some node) (hkind : node.payload.kind.isOperand = true) :
    textWith source inner (some x) = inner (.expression 0 0) x := by
  simp only [textWith, NodeSource.need, hnode, bind, Except.bind]
  cases hp : node.payload <;> simp_all [Kind.isOperand, Payload.kind, Kind.isStatement]

lemma exists_operand (h : a.isOperand x = true) :
    ∃ node, a.source.node? x = some node ∧ node.payload.kind.isOperand = true := by
  unfold Arena.isOperand Arena.kind? at h
  cases hcell : a.cell? x with
  | none => simp [hcell] at h
  | some cell => exact ⟨cell.toNode, by simp [Arena.source, hcell], by simpa [hcell, Cell.kind] using h⟩

/-- What stands between operators is printed on its own if there is room for it as an expression. -/
lemma fitsIn_iff_print {d : Int} (h : a.isOperand x = true) :
    FitsIn a.source d.toNat x ↔ ∃ text, a.print (some x) ⟨d⟩ = .ok text := by
  obtain ⟨node, hnode, hkind⟩ := exists_operand h
  rw [Arena.print, print_eq, textWith_operand hnode hkind, ← fitsIn_iff]

lemma FitsIn.pos {n : Nat} (h : FitsIn a.source n x) : 0 < n := by
  cases n with
  | zero => obtain ⟨text, htext⟩ := h; cases htext
  | succ n => exact Nat.succ_pos n

lemma Run.isOperand {operands : List NodeId} (h : Run a.source opLevel x operands)
    (hoperands : ∀ y ∈ operands, a.isOperand y = true) : a.isOperand x = true := by
  cases h with
  | operand => exact hoperands x (List.mem_singleton_self x)
  | link hlink =>
    obtain ⟨node, op, hnode, hp, -⟩ := hlink
    obtain ⟨cell, hcell, rfl⟩ := Option.map_eq_some_iff.mp hnode
    rw [Arena.isOperand, Arena.kind?, hcell, Option.map_some, Option.any_some, Cell.kind, hp]
    rfl

/-- A run is printed in one level more than its operands, however long it is. -/
lemma Run.print_ok {d : Int} {operands : List NodeId} (hlevel : opLevel ≠ 0) (h : Run a.source opLevel x operands)
    (hoperands : ∀ y ∈ operands, a.isOperand y = true ∧ ∃ text, a.print (some y) ⟨d⟩ = .ok text) :
    ∃ text, a.print (some x) ⟨d + 1⟩ = .ok text := by
  have hfits : ∀ y ∈ operands, FitsIn a.source d.toNat y := fun y hy =>
    (fitsIn_iff_print (hoperands y hy).1).mpr (hoperands y hy).2
  obtain ⟨k, hspans⟩ := h.exists_spans hlevel hfits
  have hroom : 0 < d.toNat := hspans.exists_fits.elim fun _ => FitsIn.pos
  rw [← fitsIn_iff_print (h.isOperand fun y hy => (hoperands y hy).1), show (d + 1).toNat = d.toNat + 1 by omega]
  exact hspans.fitsIn hlevel (Nat.le_of_lt hspans.lt_size)

end Arena

end Print

section

open Print

/-- Names with an operator between them, which are all of them operands to the left of the next one. -/
def leftRun (op : Text) : Arena where
  cells := #[{ payload := .identifier "a", parent := some 2 }, { payload := .identifier "b", parent := some 2 },
    { payload := .binaryExpression op (some 0) (some 1), parent := some 4 },
    { payload := .identifier "c", parent := some 4 },
    { payload := .binaryExpression op (some 2) (some 3), parent := some 6 },
    { payload := .identifier "d", parent := some 6 }, { payload := .binaryExpression op (some 4) (some 5) }]
  root := some 6

/-- A sum of a property of an object and a name. -/
def propertySum : Arena where
  cells := #[{ payload := .identifier "a", parent := some 2 }, { payload := .identifier "b", parent := some 2 },
    { payload := .property (some 0) (some 1) .init false false false, parent := some 4 },
    { payload := .identifier "c", parent := some 4 }, { payload := .binaryExpression "+" (some 2) (some 3) }]
  root := some 4

/-- More room does not change a text. A run of operators has the text that a printer gives it which calls itself for
every left operand, and it takes one level more than its operands. -/
theorem print_depth (a : Arena) (d : Int) :
    (∀ top text, a.print top ⟨d⟩ = .ok text → ∀ d', d ≤ d' → a.print top ⟨d'⟩ = .ok text) ∧
      (∀ top text, a.source.printRecursively top ⟨d⟩ = .ok text → a.print top ⟨d⟩ = .ok text) ∧
      (∀ top text, a.print top ⟨d⟩ = .ok text → ∃ d', a.source.printRecursively top ⟨d'⟩ = .ok text) ∧
      ∀ opLevel x operands, opLevel ≠ 0 → Print.Run a.source opLevel x operands →
        (∀ y ∈ operands, a.isOperand y = true ∧ ∃ text, a.print (some y) ⟨d⟩ = .ok text) →
          ∃ text, a.print (some x) ⟨d + 1⟩ = .ok text := by
  refine ⟨fun top text htext d' hle => ?_, fun top text htext => ?_, fun top text htext => ?_,
    fun opLevel x operands => ?_⟩
  · exact ((mirrors_partUpTo a.source True d d' (Int.toNat_le_toNat hle)).textWith top).ok htext
  · exact ((mirrors_partUpTo_recursive a.source d d.toNat).textWith top).ok htext
  · refine ⟨(d.toNat * (a.source.size + 1) : Nat), ?_⟩
    have hroom := mirrors_recursiveUpTo a.source True d (d.toNat * (a.source.size + 1) : Nat)
      (Nat.le_refl (d.toNat * (a.source.size + 1)))
    exact (((mirrors_recursive_partUpTo a.source d d.toNat).trans hroom).textWith top).ok htext
  · exact Run.print_ok

theorem print_depth_sum : (∃ text, (leftRun "+").print (some 0) ⟨1⟩ = .ok text) ∧
    ∃ text, (leftRun "+").print (some 6) ⟨1 + 1⟩ = .ok text := by
  have hoperands : ∀ y ∈ [0, 1, 3, 5], (leftRun "+").isOperand y = true ∧
      ((leftRun "+").print (some y) ⟨1⟩).isOk = true := by decide +kernel
  have hrun : Print.Run (leftRun "+").source 13 6 [0, 1, 3, 5] := by
    have hfirst : Print.Run (leftRun "+").source 13 2 [0, 1] := .link ⟨_, "+", rfl, rfl, by decide, rfl⟩ (.operand 0)
    have hsecond : Print.Run (leftRun "+").source 13 4 [0, 1, 3] := .link ⟨_, "+", rfl, rfl, by decide, rfl⟩ hfirst
    exact .link ⟨_, "+", rfl, rfl, by decide, rfl⟩ hsecond
  refine ⟨isOk_iff.mp (hoperands 0 (by decide)).2, ?_⟩
  exact (print_depth (leftRun "+") 1).2.2.2 13 6 [0, 1, 3, 5] (by decide) hrun fun y hy =>
    ⟨(hoperands y hy).1, isOk_iff.mp (hoperands y hy).2⟩

/-- A run of powers takes a level for each of them, and a property takes one more as an operand than on its own. -/
theorem print_depth_not_powers_properties :
    ((∀ y ∈ [0, 1, 3, 5], ((leftRun "**").print (some y) ⟨1⟩).isOk = true) ∧
      (leftRun "**").print (some 6) ⟨1 + 1⟩ = .error (.tooDeep 2)) ∧
    (∀ y ∈ [2, 3], (propertySum.print (some y) ⟨1⟩).isOk = true) ∧
      propertySum.print (some 4) ⟨1 + 1⟩ = .error (.tooDeep 2) := by
  decide +kernel

end

end PlainScript
