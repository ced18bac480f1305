import PlainScript.Proofs.Bearing
import PlainScript.Proofs.Finished

/-! Trees that are read back. A tree in an arena is mirrored by a tree that was read if both have the same nodes, but for
positions and comments, with their literals as they are printed; a number that is printed with a sign, or as a name, is
mirrored by what that is read as. What a run leaves nothing of in the one tree is not in the other either. -/
namespace PlainScript

open Relation

namespace Payload

variable {α β : Type} {p : Payload α} {q : Payload β}

/-- A literal as it is printed. -/
def printed : Payload α → Payload α
  | stringLiteral value raw => .stringLiteral [] (if raw.isEmpty then Print.quoted value else raw)
  | numericLiteral value raw isBigInt =>
    .numericLiteral value (if raw.isEmpty then Print.number value ++ (if isBigInt then "n" else "") else raw) isBigInt
  | p => p

lemma outline_eq_map (p : Payload α) : p.outline = p.map fun _ => () := by
  cases p <;> rfl

/-- The same node, but for its children, with literals as they are printed. -/
def Alike (p : Payload α) (q : Payload β) : Prop := p.outline.printed = q.outline.printed

instance (p : Payload α) (q : Payload β) : Decidable (p.Alike q) :=
  inferInstanceAs (Decidable (p.outline.printed = q.outline.printed))

lemma children_printed (p : Payload α) : p.printed.children = p.children := by
  cases p <;> rfl

lemma kind_printed (p : Payload α) : p.printed.kind = p.kind := by
  cases p <;> rfl

lemma Alike.symm (h : p.Alike q) : q.Alike p := Eq.symm h

lemma Alike.kind_eq (h : p.Alike q) : p.kind = q.kind := by
  rw [← kind_outline, ← kind_printed, h, kind_printed, kind_outline]

lemma Alike.length_eq (h : p.Alike q) : p.children.length = q.children.length := by
  have hlength {γ : Type} (r : Payload γ) : r.children.length = r.outline.printed.children.length := by
    rw [children_printed, outline_eq_map, children_map, List.length_map]
  rw [hlength p, h, ← hlength q]

section Cases

variable {name op raw : Text} {v : Bool} {string : Text} {value : Float} {isBigInt : Bool} {x y : β}
  {consequent alternate : Option β}

lemma Alike.expressionStatement (h : p.Alike (.expressionStatement (some x))) :
    ∃ e : α, p = .expressionStatement (some e) := by
  cases p with
  | expressionStatement e => cases e <;> simp_all [Alike, outline, traverse, printed, Slot.mark]
  | _ => cases h.kind_eq

lemma Alike.ifStatement (h : p.Alike (.ifStatement (some x) consequent alternate)) :
    ∃ (test : α) (consequent alternate : Option α), p = .ifStatement (some test) consequent alternate := by
  cases p with
  | ifStatement test consequent alternate =>
    obtain ⟨test, rfl, -⟩ : ∃ t, test = some t ∧ True := by
      cases test <;> simp [Alike, outline, traverse, printed, Slot.mark] at h ⊢
    exact ⟨test, consequent, alternate, rfl⟩
  | _ => cases h.kind_eq

lemma Alike.booleanLiteral (h : p.Alike (.booleanLiteral v : Payload β)) : p = .booleanLiteral v := by
  cases p with
  | booleanLiteral w =>
    obtain rfl : w = v := by simpa [Alike, outline, traverse, printed] using h
    rfl
  | _ => cases h.kind_eq

lemma Alike.numericLiteral (h : p.Alike (.numericLiteral value raw isBigInt : Payload β)) :
    ∃ raw', p = .numericLiteral value raw' isBigInt := by
  cases p with
  | numericLiteral w raw' isBigInt' =>
    obtain ⟨rfl, -, rfl⟩ : w = value ∧ _ ∧ isBigInt' = isBigInt := by
      simpa [Alike, outline, traverse, printed] using h
    exact ⟨raw', rfl⟩
  | _ => cases h.kind_eq

/-- A string that was read is spelled as the one that was printed, or as that is quoted. -/
lemma Alike.stringLiteral (h : p.Alike (.stringLiteral string raw : Payload β)) (hraw : raw ≠ []) :
    ∃ string' raw', p = .stringLiteral string' raw' ∧ (raw = raw' ∨ raw = Print.quoted string') := by
  cases p with
  | stringLiteral string' raw' =>
    refine ⟨string', raw', rfl, ?_⟩
    have htext : (if raw'.isEmpty then Print.quoted string' else raw') = raw := by
      simpa [Alike, outline, traverse, printed, hraw] using h
    split_ifs at htext
    · exact .inr htext.symm
    · exact .inl htext.symm
  | _ => cases h.kind_eq

lemma Alike.binaryExpression (h : p.Alike (.binaryExpression op (some x) (some y))) :
    ∃ left right : α, p = .binaryExpression op (some left) (some right) := by
  cases p with
  | binaryExpression op' left right =>
    cases left <;> cases right <;> simp_all [Alike, outline, traverse, printed, Slot.mark]
  | _ => cases h.kind_eq

end Cases

/-- The text of a number, or of a name with perhaps a sign in front. -/
def numberText? : Payload (Option Text) → Option Text
  | numericLiteral _ raw _ => some raw
  | identifier name => some name
  | unaryExpression op argument => argument.join.map (op ++ ·)
  | _ => none

/-- The kinds of nodes with such a text. -/
def numberKinds : List Kind := [.numericLiteral, .identifier, .unaryExpression]

/-- A number without a spelling of its own that is printed as the text. -/
def isPrintedAs (text : Option Text) : Payload α → Bool
  | numericLiteral value [] false => text == some (Print.number value)
  | _ => false

lemma kind_of_isPrintedAs {text : Option Text} (h : p.isPrintedAs text = true) :
    p.kind = .numericLiteral ∧ text.isSome = true := by
  cases p with
  | numericLiteral value raw isBigInt =>
    unfold isPrintedAs at h
    split at h
    · exact ⟨rfl, by rw [eq_of_beq h]; rfl⟩
    · cases h
  | _ => cases h

end Payload

/-- A list in step with the first one and the second one in step with it are in step with each other. -/
lemma forall₂_of_zip {α β γ : Type} {P : β → α → Prop} {Q : β → γ → Prop} {xs : List α} {ts : List β}
    {ys : List γ}
    (hlength : xs.length = ts.length) (hP : ∀ c ∈ xs.zip ts, P c.2 c.1) (hQ : List.Forall₂ Q ts ys) :
    List.Forall₂ (fun x y => ∃ t, P t x ∧ Q t y) xs ys := by
  induction hQ generalizing xs with
  | nil =>
    obtain rfl := List.eq_nil_of_length_eq_zero hlength
    exact .nil
  | @cons t y ts ys hty _ ih =>
    obtain ⟨x, xs, rfl⟩ := List.exists_cons_of_length_eq_add_one hlength
    rw [List.zip_cons_cons] at hP
    exact .cons ⟨t, hP (x, t) List.mem_cons_self, hty⟩
      (ih (Nat.succ.inj hlength) fun c hc => hP c (List.mem_cons_of_mem _ hc))

namespace Tree

/-- The text that the tree has as a number. -/
def numberText? (t : Tree) : Option Text := t.fold fun node => node.payload.numberText?

variable {node : Node Tree}

lemma numberText?_mk (h : (mk node).numberText?.isSome = true) :
    node.payload.kind ∈ Payload.numberKinds ∧ ∀ c ∈ node.payload.children, c.numberText?.isSome = true := by
  rw [numberText?, fold_mk] at h
  obtain ⟨payload, position, leading, trailing⟩ := node
  cases payload with
  | numericLiteral | identifier => exact ⟨List.mem_of_elem_eq_true rfl, nofun⟩
  | unaryExpression op argument =>
    refine ⟨List.mem_of_elem_eq_true rfl, fun c hc => ?_⟩
    cases argument with
    | none => cases hc
    | some d =>
      obtain rfl := List.mem_singleton.mp hc
      exact (Option.isSome_map ..).symm.trans h
  | _ => cases h

end Tree

namespace Arena

variable {a b : Arena} {t : Tree} {x y root root' : NodeId} {options : PassOptions}

/-- The text that a tree has as a number, and the nodes of which it is the mirror. -/
def mirroring (a : Arena) (t : Tree) : Option Text × (NodeId → Bool) := t.fold fun node =>
  let text := (node.payload.map Prod.fst).numberText?
  (text, fun id => (a.payload? id).any fun p => node.payload.kind != .numericLiteral && p.isPrintedAs text ||
    decide (p.Alike node.payload) && (p.children.zip node.payload.children).all fun (child, t) => t.2 child)

/-- The tree is the mirror of the node. -/
def mirrors (a : Arena) (t : Tree) : NodeId → Bool := (a.mirroring t).2

lemma mirroring_fst (a : Arena) (t : Tree) : (a.mirroring t).1 = t.numberText? := by
  induction t using Tree.induction with
  | h node ih =>
    unfold mirroring Tree.numberText? at ih ⊢
    rw [Tree.fold_mk, Tree.fold_mk]
    obtain ⟨payload, position, leading, trailing⟩ := node
    cases payload with
    | unaryExpression op argument =>
      cases argument with
      | none => rfl
      | some c => exact congrArg (Option.map (op ++ ·)) (ih c (List.mem_singleton_self c))
    | _ => rfl

lemma mirrors_mk {node : Node Tree} : a.mirrors (.mk node) x = true ↔ ∃ p, a.payload? x = some p ∧
    (node.payload.kind ≠ .numericLiteral ∧ p.isPrintedAs (Tree.mk node).numberText? = true ∨
      p.Alike node.payload ∧ ∀ c ∈ p.children.zip node.payload.children, a.mirrors c.2 c.1 = true) := by
  have halike {β : Type} (f : Node β → β) (p : Payload NodeId) :
      p.Alike (Tree.foldPayload f node.payload) ↔ p.Alike node.payload := by
    rw [Payload.Alike, Payload.Alike, Payload.outline_foldPayload]
  rw [← mirroring_fst a]
  unfold mirrors mirroring
  rw [Tree.fold_mk, Option.any_eq_true]
  simp only [Bool.or_eq_true, Bool.and_eq_true, bne_iff_ne, decide_eq_true_eq, Tree.kind_foldPayload,
    Tree.children_foldPayload, List.zip_map_right, List.all_map, List.all_eq_true, halike, Function.comp_apply,
    Prod.map_fst, Prod.map_snd, id]

/-- Two nodes that stand for the same tree, as it is printed. -/
def Twins (a b : Arena) (x y : NodeId) : Prop := ∃ t, a.mirrors t x = true ∧ b.Bears t y

/-- The node stands for a number, or for a name with perhaps a sign in front. -/
def IsNumber (b : Arena) (y : NodeId) : Prop := ∃ t, t.numberText?.isSome = true ∧ b.Bears t y

lemma IsNumber.kind (h : b.IsNumber y) : ∃ k ∈ Payload.numberKinds, b.kind? y = some k := by
  obtain ⟨⟨node⟩, htext, hbears⟩ := h
  exact ⟨_, (Tree.numberText?_mk htext).1, hbears.kind?_eq⟩

lemma IsNumber.child {q : NodeId} (h : b.IsNumber q) (hy : y ∈ b.childIds q) : b.IsNumber y := by
  obtain ⟨⟨node⟩, htext, hbears⟩ := h
  obtain ⟨c, hc, hnode⟩ := bears_mk.mp hbears
  have hpayload : b.payload? q = some c.payload := by rw [payload?, hc]; rfl
  obtain ⟨t, ht, hty⟩ := exists_of_forall₂ (SameSlots.children hnode.slots) (childIds_eq hpayload ▸ hy)
  exact ⟨t, (Tree.numberText?_mk htext).2 t ht, hty⟩

/-- The two nodes are alike, and their children are twins. -/
structure Matched (a b : Arena) (x y : NodeId) (p q : Payload NodeId) : Prop where
  left : a.payload? x = some p
  right : b.payload? y = some q
  alike : p.Alike q
  children : List.Forall₂ (a.Twins b) p.children q.children

lemma Matched.kind {p q : Payload NodeId} {k : Kind} (h : a.Matched b x y p q) (hk : a.kind? x = some k) :
    b.kind? y = some k := by
  rw [kind?_eq, h.right, Option.map_some, ← h.alike.kind_eq, ← hk, kind?_eq, h.left, Option.map_some]

/-- Twins are alike, unless they are a number and what else it is read as. -/
lemma Twins.cases (h : a.Twins b x y) :
    (a.kind? x = some .numericLiteral ∧ b.IsNumber y ∧ b.kind? y ≠ some .numericLiteral) ∨ ∃ p q, a.Matched b x y p q := by
  obtain ⟨⟨node⟩, hx, hy⟩ := h
  obtain ⟨p, hp, ⟨hne, hnumber⟩ | ⟨halike, hchildren⟩⟩ := mirrors_mk.mp hx
  · obtain ⟨hkind, hsome⟩ := Payload.kind_of_isPrintedAs hnumber
    refine .inl ⟨by rw [kind?_eq, hp, Option.map_some, hkind], ⟨.mk node, hsome, hy⟩, ?_⟩
    rw [hy.kind?_eq]
    exact fun heq => hne (Option.some.inj heq)
  · obtain ⟨c, hc, hnode⟩ := bears_mk.mp hy
    refine .inr ⟨p, c.payload, hp, by rw [payload?, hc]; rfl, ?_, ?_⟩
    · have houtline : c.payload.outline = node.payload.outline := hnode.outline_eq
      rw [Payload.Alike, houtline]
      exact halike
    · exact forall₂_of_zip halike.length_eq hchildren (SameSlots.children hnode.slots)

lemma Twins.matched_of_left (h : a.Twins b x y) (hx : a.kind? x ≠ some .numericLiteral) :
    ∃ p q, a.Matched b x y p q :=
  h.cases.resolve_left fun hnumber => hx hnumber.1

lemma Twins.matched_of_right {k : Kind} (h : a.Twins b x y) (hy : b.kind? y = some k)
    (hk : k ∉ ([.identifier, .unaryExpression] : List Kind)) : ∃ p q, a.Matched b x y p q := by
  refine h.cases.resolve_left ?_
  rintro ⟨-, hnumber, hne⟩
  obtain ⟨k', hmem, hk'⟩ := hnumber.kind
  obtain rfl := Option.some.inj (hy.symm.trans hk')
  exact hk ((List.mem_cons.mp hmem).resolve_left fun heq => hne (heq ▸ hy))

/-! ### Places -/

/-- The nodes are twins at the same place below their roots. -/
inductive Paired (a b : Arena) (root root' : NodeId) : NodeId → NodeId → Prop
  | root (h : a.Twins b root root') : Paired a b root root' root root'
  | child {p q x y : NodeId} {payload payload' : Payload NodeId} (h : Paired a b root root' p q)
      (hmatched : a.Matched b p q payload payload') (hmem : (x, y) ∈ payload.children.zip payload'.children) :
      Paired a b root root' x y

namespace Paired

lemma attached (h : a.Paired b root root' x y) (ha : Firm a.parentOf a.childIds) :
    ReflTransGen a.HasParent x root := by
  induction h with
  | root => exact .refl
  | child _ hmatched hmem ih =>
    exact .head (ha.mem_iff.mp (childIds_eq hmatched.left ▸ (List.of_mem_zip hmem).1)) ih

/-- The nodes around them are at the same place too. -/
lemma parent {p : NodeId} (h : a.Paired b root root' x y) (ha : a.Rooted root) (hb : Firm b.parentOf b.childIds)
    (hp : a.HasParent x p) : ∃ q payload payload', a.Paired b root root' p q ∧ a.Matched b p q payload payload' ∧
      (x, y) ∈ payload.children.zip payload'.children ∧ b.HasParent y q := by
  cases h with
  | root => cases hp.symm.trans ha.parentOf_root
  | @child p' q _ _ payload payload' h hmatched hmem =>
    obtain ⟨hx, hy⟩ := List.of_mem_zip hmem
    obtain rfl := Option.some.inj (hp.symm.trans (ha.firm.mem_iff.mp (childIds_eq hmatched.left ▸ hx)))
    exact ⟨q, payload, payload', h, hmatched, hmem, hb.mem_iff.mp (childIds_eq hmatched.right ▸ hy)⟩

end Paired

lemma Twins.isStringStatement (h : a.Twins b x y) (hx : a.isStringStatement x = true) :
    b.isStringStatement y = true := by
  obtain ⟨e, hp, hkind⟩ := isStringStatement_iff.mp hx
  obtain ⟨p, q, hmatched⟩ := h.matched_of_left (by rw [Arena.kind?_eq, hp]; nofun)
  obtain rfl := Option.some.inj (hmatched.left.symm.trans hp)
  obtain ⟨e', rfl⟩ := hmatched.alike.symm.expressionStatement
  obtain ⟨p', q', hmatched'⟩ := (List.forall₂_cons.mp hmatched.children).1.matched_of_left (by rw [hkind]; nofun)
  exact isStringStatement_iff.mpr ⟨e', hmatched.right, hmatched'.kind hkind⟩

lemma Matched.tests {v : Bool} {p q : Payload NodeId} (h : a.Matched b x y p q) (htests : b.Tests y v) :
    a.Tests x v := by
  obtain ⟨test', consequent', alternate', hy, hv⟩ := htests
  obtain ⟨y', rfl, hy'⟩ := literalBoolean?_eq_some hv
  obtain rfl := Option.some.inj (h.right.symm.trans hy)
  obtain ⟨x', consequent, alternate, rfl⟩ := h.alike.ifStatement
  obtain ⟨p', q', htest⟩ := (List.forall₂_cons.mp h.children).1.matched_of_right
    (by rw [kind?_eq, hy']; rfl) (by simp [Payload.kind])
  obtain rfl := Option.some.inj (htest.right.symm.trans hy')
  refine ⟨some x', consequent, alternate, h.left, ?_⟩
  rw [literalBoolean?, Option.bind_some, htest.left, htest.alike.booleanLiteral]

lemma Twins.literalNumber? {v : Float} (h : a.Twins b x y) (hv : b.literalNumber? (some y) = some v) :
    a.literalNumber? (some x) = some v := by
  obtain ⟨_, raw', ⟨⟩, hy⟩ := literalNumber?_eq_some.mp hv
  obtain ⟨p, q, hmatched⟩ := h.matched_of_right (by rw [kind?_eq, hy]; rfl) (by simp [Payload.kind])
  obtain rfl := Option.some.inj (hmatched.right.symm.trans hy)
  obtain ⟨raw, rfl⟩ := hmatched.alike.numericLiteral
  exact literalNumber?_eq_some.mpr ⟨x, raw, rfl, hmatched.left⟩

lemma Matched.isFoldable {p q : Payload NodeId} (h : a.Matched b x y p q) (hfoldable : b.isFoldable y = true) :
    a.isFoldable x = true := by
  obtain ⟨constant, hconstant⟩ := Option.isSome_iff_exists.mp hfoldable
  obtain ⟨left', right', hy, hop, hl, hr⟩ := foldable?_eq_some.mp hconstant
  obtain ⟨l', -, rfl, -⟩ := literalNumber?_eq_some.mp hl
  obtain ⟨r', -, rfl, -⟩ := literalNumber?_eq_some.mp hr
  obtain rfl := Option.some.inj (h.right.symm.trans hy)
  obtain ⟨l, r, rfl⟩ := h.alike.binaryExpression
  obtain ⟨hleft, hrest⟩ := List.forall₂_cons.mp h.children
  obtain ⟨hright, -⟩ := List.forall₂_cons.mp hrest
  refine Option.isSome_iff_exists.mpr ⟨constant, foldable?_eq_some.mpr ?_⟩
  exact ⟨some l, some r, h.left, hop, hleft.literalNumber? hl, hright.literalNumber? hr⟩

end Arena

end PlainScript
