import PlainScript.Proofs.Recovery
import PlainScript.Proofs.Rewrites
import PlainScript.Proofs.Turns

/-! What is left of a script when arithmetic on literals is folded. Operands are visited before their operations, so
that at its turn an operation has literals as its operands if they have values at all. -/
namespace PlainScript

open Relation

namespace Arena

variable {a b c : Arena} {root x y : NodeId}

/-- The value of an expression that is made of arithmetic on literals throughout. -/
inductive Computes (a : Arena) : NodeId → Float → Prop
  | literal {x : NodeId} {value : Float} {raw : Text} (h : a.payload? x = some (.numericLiteral value raw false)) :
    Computes a x value
  | operation {x l r : NodeId} {op : Text} {v w value : Float}
    (h : a.payload? x = some (.binaryExpression op (some l) (some r))) (hl : Computes a l v) (hr : Computes a r w)
    (hvalue : foldArithmetic op v w = .ok value) : Computes a x value

def IsConstantOperation (a : Arena) (x : NodeId) : Prop :=
  a.kind? x = some .binaryExpression ∧ ∃ value, a.Computes x value

/-- The whole of a constant operation of a script. -/
structure IsLargestConstant (a : Arena) (x : NodeId) : Prop where
  attached : a.Attached x
  operation : a.IsConstantOperation x
  outermost : ∀ y, TransGen a.HasParent x y → ¬ a.IsConstantOperation y

/-- Every constant operation is one literal now, and stands where it stood. Everything else that is not a part of one
is as it was. -/
structure FoldsConstants (a b : Arena) : Prop where
  literal : ∀ x value, a.IsLargestConstant x → a.Computes x value → b.Attached x ∧
    b.cell? x = (a.cell? x).map fun c => { c with payload := .numericLiteral value [] false }
  others : ∀ x, a.Attached x → (∀ top, a.IsLargestConstant top → ¬ ReflTransGen a.HasParent x top) →
    b.Attached x ∧ b.cell? x = a.cell? x
  attached_before : ∀ x, b.Attached x →
    a.Attached x ∧ ∀ top, a.IsLargestConstant top → ¬ TransGen a.HasParent x top
  not_foldable : ∀ x, b.Attached x → b.isFoldable x = false

section Constants

lemma Computes.unique {v w : Float} (hv : a.Computes x v) (hw : a.Computes x w) : v = w := by
  induction hv generalizing w with
  | literal h => cases hw <;> simp_all
  | operation h _ _ hvalue ihl ihr =>
    cases hw with
    | literal h' => cases h.symm.trans h'
    | operation h' hl' hr' hvalue' =>
      cases h.symm.trans h'
      rw [ihl hl', ihr hr', hvalue', Except.ok.injEq] at hvalue
      exact hvalue.symm

/-- What belongs to an expression with a value has a value. -/
lemma Computes.exists_within (h : a.Rooted root) {v : Float} (hy : a.Computes y v)
    (hway : ReflTransGen a.HasParent x y) : ∃ w, a.Computes x w := by
  induction hway using ReflTransGen.head_induction_on with
  | refl => exact ⟨v, hy⟩
  | @head x z hxz _ ih =>
    obtain ⟨w, hz⟩ := ih
    have hchild := h.firm.mem_iff.mpr hxz
    cases hz with
    | literal hp =>
      rw [childIds_eq hp] at hchild
      exact absurd hchild List.not_mem_nil
    | @operation _ l r _ _ _ _ hp hl hr =>
      have hchildren : a.childIds z = [l, r] := childIds_eq hp
      rw [hchildren, List.mem_pair] at hchild
      obtain rfl | rfl := hchild
      · exact ⟨_, hl⟩
      · exact ⟨_, hr⟩

/-- A constant operation is a part of a largest one. -/
lemma IsConstantOperation.exists_largest (hx : a.IsConstantOperation x) (h : a.Rooted root)
    (hway : ReflTransGen a.HasParent x root) : ∃ top, a.IsLargestConstant top ∧ ReflTransGen a.HasParent x top := by
  obtain ⟨top, hup, htop, hconstant, houter⟩ := h.exists_topmost hway ⟨x, .refl, hx⟩
  exact ⟨top, ⟨h.attached_iff.mpr htop, hconstant, houter⟩, hup⟩

lemma Computes.isConstantOperation {v : Float} (hx : a.Computes x v) (hkind : a.kind? x = some .binaryExpression) :
    a.IsConstantOperation x := ⟨hkind, v, hx⟩

lemma mem_operators_iff (h : a.Rooted root) : ReflTransGen a.HasParent x root ∧ a.IsConstantOperation x ↔
    a.kind? x = some .binaryExpression ∧ ∃ top, a.IsLargestConstant top ∧ ReflTransGen a.HasParent x top := by
  constructor
  · rintro ⟨hway, hx⟩
    exact ⟨hx.1, hx.exists_largest h hway⟩
  · rintro ⟨hkind, top, htop, hx⟩
    obtain ⟨-, value, hvalue⟩ := htop.operation
    exact ⟨hx.trans (h.attached_iff.mp htop.attached), hkind, hvalue.exists_within h hx⟩

lemma foldable?_eq_some {f : Constant} : a.foldable? x = some f ↔ ∃ l r,
    a.payload? x = some (.binaryExpression f.op l r) ∧ Arithmetic.ofOperator? f.op = some f.operation ∧
      a.literalNumber? l = some f.left ∧ a.literalNumber? r = some f.right := by
  obtain ⟨op, operation, left, right⟩ := f
  unfold foldable?
  cases hp : a.payload? x with
  | none => simp
  | some payload =>
    cases payload with
    | binaryExpression op' l r =>
      simp only [Option.bind_eq_bind, Option.bind_some, Option.bind_eq_some_iff, Option.some.injEq, Constant.mk.injEq,
        Payload.binaryExpression.injEq, Option.pure_def]
      constructor
      · rintro ⟨operation', hoperation, v, hv, w, hw, rfl, rfl, rfl, rfl⟩
        exact ⟨l, r, ⟨rfl, rfl, rfl⟩, hoperation, hv, hw⟩
      · rintro ⟨l', r', ⟨rfl, rfl, rfl⟩, hoperation, hv, hw⟩
        exact ⟨operation, hoperation, left, hv, right, hw, rfl, rfl, rfl, rfl⟩
    | _ => simp

lemma foldArithmetic_eq_ok {op : Text} {v w value : Float} : foldArithmetic op v w = .ok value ↔
    ∃ operation, Arithmetic.ofOperator? op = some operation ∧ operation.eval v w = value := by
  unfold foldArithmetic
  cases Arithmetic.ofOperator? op <;> simp

lemma literalNumber?_eq_some {slot : Option NodeId} {v : Float} : a.literalNumber? slot = some v ↔
    ∃ x raw, slot = some x ∧ a.payload? x = some (.numericLiteral v raw false) := by
  unfold literalNumber?
  split
  next value raw hp =>
    obtain ⟨x, rfl, hp⟩ := Option.bind_eq_some_iff.mp hp
    refine ⟨fun heq => ⟨x, raw, rfl, Option.some.inj heq ▸ hp⟩, ?_⟩
    rintro ⟨_, _, ⟨⟩, hp'⟩
    cases hp.symm.trans hp'
    rfl
  next hnot =>
    refine iff_of_false nofun ?_
    rintro ⟨x, raw, rfl, hp⟩
    exact hnot v raw hp

end Constants

/-- So far these operations have become literals. -/
structure FoldedAt (a : Arena) (root : NodeId) (folded : List NodeId) (b : Arena) : Prop where
  rooted : b.Rooted root
  size_eq : b.size = a.size
  notes : SameNotes a b
  computed : ∀ x ∈ folded, ∃ value, a.Computes x value ∧ b.payload? x = some (.numericLiteral value [] false)
  payload?_eq : ∀ x, x ∉ folded → b.payload? x = a.payload? x
  hasParent_iff : ∀ x p, b.HasParent x p ↔ a.HasParent x p ∧ p ∉ folded

namespace FoldedAt

variable {folded : List NodeId} (h : a.FoldedAt root folded b)
include h

lemma fold (hx : x ∉ folded) {value : Float} (hvalue : a.Computes x value)
    (hbared : b.Bared x (.numericLiteral value [] false) c) (hnotes : SameNotes b c) :
    a.FoldedAt root (folded ++ [x]) c where
  rooted := hbared.rooted_after h.rooted
  size_eq := hbared.size_eq.trans h.size_eq
  notes := trans_of SameNotes h.notes hnotes
  computed y hy := by
    obtain hy | hy := List.mem_append.mp hy
    · obtain ⟨w, hw, hp⟩ := h.computed y hy
      exact ⟨w, hw, (hbared.payload?_of_ne (ne_of_mem_of_not_mem hy hx)).trans hp⟩
    · obtain rfl := List.mem_singleton.mp hy
      exact ⟨value, hvalue, hbared.payload?_target⟩
  payload?_eq y hy := by
    simp only [List.mem_append, List.mem_singleton, not_or] at hy
    rw [hbared.payload?_of_ne hy.2, h.payload?_eq y hy.1]
  hasParent_iff y p := by
    rw [hbared.hasParent_iff, h.hasParent_iff]
    simp [and_assoc]

/-- An operand that has had its turn is a literal if it has a value. -/
lemma literalNumber?_iff {v : Float} (hfolded : a.IsConstantOperation x → x ∈ folded) :
    b.literalNumber? (some x) = some v ↔ a.Computes x v := by
  rw [literalNumber?_eq_some]
  by_cases hx : x ∈ folded
  · obtain ⟨value, hvalue, hp⟩ := h.computed x hx
    simp only [hp, Option.some.injEq, Payload.numericLiteral.injEq, and_true, exists_and_left, exists_eq_left']
    exact ⟨fun ⟨heq, _⟩ => heq ▸ hvalue, fun hv => ⟨hvalue.unique hv, _, rfl⟩⟩
  · constructor
    · rintro ⟨_, raw, ⟨⟩, hp⟩
      exact .literal ((h.payload?_eq x hx).symm.trans hp)
    · intro hv
      cases hv with
      | literal hp => exact ⟨x, _, rfl, (h.payload?_eq x hx).trans hp⟩
      | operation hp hl hr hvalue =>
        refine absurd (hfolded ⟨?_, v, .operation hp hl hr hvalue⟩) hx
        rw [kind?_eq, hp]
        rfl

/-- At its turn an operation can be folded if it has a value. -/
lemma foldable_iff (hrooted : a.Rooted root) (hx : x ∉ folded)
    (hoperands : ∀ y, a.HasParent y x → a.IsConstantOperation y → y ∈ folded) :
    (∀ f, b.foldable? x = some f → a.Computes x f.value) ∧
      (a.IsConstantOperation x → ∃ f, b.foldable? x = some f) := by
  have hoperand {op : Text} {l r : NodeId} (hp : a.payload? x = some (.binaryExpression op (some l) (some r))) :
      a.HasParent l x ∧ a.HasParent r x := by
    have hchildren : a.childIds x = [l, r] := childIds_eq hp
    exact ⟨hrooted.firm.mem_iff.mp (hchildren ▸ by simp), hrooted.firm.mem_iff.mp (hchildren ▸ by simp)⟩
  constructor
  · intro f hf
    obtain ⟨sl, sr, hp, hop, hl, hr⟩ := foldable?_eq_some.mp hf
    obtain ⟨l, -, rfl, -⟩ := literalNumber?_eq_some.mp hl
    obtain ⟨r, -, rfl, -⟩ := literalNumber?_eq_some.mp hr
    rw [h.payload?_eq x hx] at hp
    obtain ⟨hlx, hrx⟩ := hoperand hp
    rw [h.literalNumber?_iff (hoperands l hlx)] at hl
    rw [h.literalNumber?_iff (hoperands r hrx)] at hr
    exact .operation hp hl hr (foldArithmetic_eq_ok.mpr ⟨f.operation, hop, rfl⟩)
  · rintro ⟨hkind, value, hvalue⟩
    cases hvalue with
    | literal hp =>
      rw [kind?_eq, hp] at hkind
      cases hkind
    | @operation _ l r op v w _ hp hl hr hvalue =>
      obtain ⟨operation, hop, -⟩ := foldArithmetic_eq_ok.mp hvalue
      obtain ⟨hlx, hrx⟩ := hoperand hp
      refine ⟨⟨op, operation, v, w⟩, foldable?_eq_some.mpr ⟨some l, some r, ?_, hop, ?_, ?_⟩⟩
      · rw [h.payload?_eq x hx, hp]
      · exact (h.literalNumber?_iff (hoperands l hlx)).mpr hl
      · exact (h.literalNumber?_iff (hoperands r hrx)).mpr hr

lemma way_iff (hrooted : a.Rooted root) (hx : x < a.size) : ReflTransGen b.HasParent x root ↔
    ReflTransGen a.HasParent x root ∧ ∀ top ∈ folded, ¬ TransGen a.HasParent x top :=
  hrooted.way_of_cut h.hasParent_iff hx

/-- A node whose parent is no constant operation has changed at most in what it is. -/
lemma cell?_eq {payload : Payload NodeId} (hpayload : b.payload? x = some payload)
    (hparent : ∀ p, a.HasParent x p → p ∉ folded) :
    b.cell? x = (a.cell? x).map fun c => { c with payload } :=
  h.notes.cell?_eq hpayload (Option.ext fun p => (h.hasParent_iff x p).trans
    ⟨And.left, fun hp => ⟨hp, hparent p hp⟩⟩)

section Complete

variable (hrooted : a.Rooted root)
  (hall : ∀ x, x ∈ folded ↔ ReflTransGen a.HasParent x root ∧ a.IsConstantOperation x)
include hrooted

lemma way_before (hx : b.Attached x) :
    ReflTransGen a.HasParent x root ∧ ∀ top ∈ folded, ¬ TransGen a.HasParent x top := by
  have hway := h.rooted.attached_iff.mp hx
  exact (h.way_iff hrooted (h.size_eq ▸ h.rooted.lt_size hway)).mp hway

include hall

lemma attached_of_largest (hx : a.IsLargestConstant x) :
    b.Attached x ∧ ∀ p, a.HasParent x p → p ∉ folded := by
  have hway := hrooted.attached_iff.mp hx.attached
  have hnone (top : NodeId) (htop : top ∈ folded) : ¬ TransGen a.HasParent x top := fun hup =>
    hx.outermost top hup ((hall top).mp htop).2
  refine ⟨h.rooted.attached_iff.mpr ((h.way_iff hrooted (hrooted.lt_size hway)).mpr ⟨hway, hnone⟩), ?_⟩
  exact fun p hp hmem => hnone p hmem (.single hp)

lemma attached_of_outside (hway : ReflTransGen a.HasParent x root)
    (hx : ∀ top, a.IsLargestConstant top → ¬ ReflTransGen a.HasParent x top) :
    b.Attached x ∧ ∀ top ∈ folded, ¬ ReflTransGen a.HasParent x top := by
  have hnone (top : NodeId) (htop : top ∈ folded) : ¬ ReflTransGen a.HasParent x top := fun hup => by
    obtain ⟨hroot, hconstant⟩ := (hall top).mp htop
    obtain ⟨largest, hlargest, htl⟩ := hconstant.exists_largest hrooted hroot
    exact hx largest hlargest (hup.trans htl)
  refine ⟨h.rooted.attached_iff.mpr ((h.way_iff hrooted (hrooted.lt_size hway)).mpr ⟨hway, ?_⟩), hnone⟩
  exact fun top htop hup => hnone top htop hup.to_reflTransGen

/-- When all constant operations of the script have had their turns, nothing can be folded any more. -/
theorem foldsConstants : a.FoldsConstants b where
  literal x value hx hvalue := by
    obtain ⟨hattached, hparent⟩ := h.attached_of_largest hrooted hall hx
    obtain ⟨w, hw, hp⟩ := h.computed x ((hall x).mpr ⟨hrooted.attached_iff.mp hx.attached, hx.operation⟩)
    exact ⟨hattached, h.cell?_eq (hw.unique hvalue ▸ hp) hparent⟩
  others x hx hnot := by
    have hway := hrooted.attached_iff.mp hx
    obtain ⟨hattached, hnone⟩ := h.attached_of_outside hrooted hall hway hnot
    obtain ⟨c, hc⟩ := exists_cell (hrooted.lt_size hway)
    have hp : b.payload? x = some c.payload := by
      rw [h.payload?_eq x fun hmem => hnone x hmem .refl, payload?, hc]
      rfl
    refine ⟨hattached, ?_⟩
    rw [h.cell?_eq hp fun p hp hmem => hnone p hmem (.single hp), hc]
    rfl
  attached_before x hx := by
    obtain ⟨hway, hnone⟩ := h.way_before hrooted hx
    refine ⟨hrooted.attached_iff.mpr hway, fun top htop => hnone top ?_⟩
    exact (hall top).mpr ⟨hrooted.attached_iff.mp htop.attached, htop.operation⟩
  not_foldable x hx := by
    obtain ⟨hway, -⟩ := h.way_before hrooted hx
    rw [isFoldable, Option.isSome_eq_false_iff, Option.isNone_iff_eq_none]
    by_contra hsome
    obtain ⟨f, hf⟩ := Option.ne_none_iff_exists'.mp hsome
    obtain ⟨l, r, hp, -⟩ := foldable?_eq_some.mp hf
    have hnot : x ∉ folded := fun hmem => by
      obtain ⟨w, -, hp'⟩ := h.computed x hmem
      cases hp.symm.trans hp'
    have hvalue := (h.foldable_iff hrooted hnot fun y hy hconstant => (hall y).mpr ⟨.head hy hway, hconstant⟩).1 f hf
    rw [h.payload?_eq x hnot] at hp
    exact hnot ((hall x).mpr ⟨hway, hvalue.isConstantOperation (by rw [kind?_eq, hp]; rfl)⟩)

end Complete

end FoldedAt

end Arena

namespace Pass.Folding

open Arena PlainScript.Action

/-- What has been done once these nodes have had their turn. -/
structure Progress (s : Run) (root : NodeId) (done : List NodeId) (n : Nat) (s' : Run) : Prop where
  quiet : Quiet s s'
  folds : ∃ folded, Handled s.arena.IsConstantOperation done folded ∧ folded.length = n ∧
    s.arena.FoldedAt root folded s'.arena

variable {s s' : Run} {root id : NodeId} {done rest : List NodeId} {n : Nat}

lemma progress_start (h : s.arena.Rooted root) : Progress s root [] 0 s where
  quiet := .refl s
  folds := ⟨[], .nil, rfl, h, rfl, refl_of SameNotes _, by simp, fun _ _ => rfl, by simp⟩

/-- The turn of any other node changes nothing. -/
lemma Progress.skip (h : Progress s root done n s') (hid : ¬ s.arena.IsConstantOperation id) :
    Progress s root (done ++ [id]) n s' where
  quiet := h.quiet
  folds := by
    obtain ⟨folded, hhandled, hfolded⟩ := h.folds
    exact ⟨folded, hhandled.skip hid, hfolded⟩

section Turn

variable (hrooted : s.arena.Rooted root) (hids : s.arena.turnsOf root .post = done ++ id :: rest)
include hrooted hids

/-- A constant operation is still there at its turn. -/
lemma Progress.pass (h : Progress s root done n s')
    (hnot : ReflTransGen s'.arena.HasParent id root → s'.arena.kind? id ≠ some .binaryExpression) :
    Progress s root (done ++ [id]) n s' := by
  refine h.skip fun hconstant => ?_
  obtain ⟨folded, hhandled, -, hfolded⟩ := h.folds
  have hid : id ∉ folded := fun hx => hrooted.not_mem_done hids ((hhandled.mem_iff id).mp hx).1
  have hway : ReflTransGen s.arena.HasParent id root := (hrooted.mem_turnsOf .post).mp (hids ▸ by simp)
  refine hnot ((hfolded.way_iff hrooted (hrooted.lt_size hway)).mpr ⟨hway, fun top htop hup => ?_⟩) ?_
  · exact (hrooted.done_post hids).2 hup ((hhandled.mem_iff top).mp htop).1
  · rw [kind?_eq, hfolded.payload?_eq id hid, ← kind?_eq]
    exact hconstant.1

lemma Progress.turn (h : Progress s root done n s') (hk : s'.arena.kind? id = some .binaryExpression) :
    (foldBinary id n).Yields s' fun n' s'' => Progress s root (done ++ [id]) n' s'' := by
  obtain ⟨folded, hhandled, hlength, hfolded⟩ := h.folds
  have hnot := hrooted.not_mem_done hids
  have hid : id ∉ folded := fun hx => hnot ((hhandled.mem_iff id).mp hx).1
  obtain ⟨hvalue, hfoldable⟩ := hfolded.foldable_iff hrooted hid fun y hy hconstant =>
    (hhandled.mem_iff y).mpr ⟨(hrooted.done_post hids).1 (.single hy), hconstant⟩
  refine (foldBinary_turn hfolded.rooted.firm (lt_size_of_kind? hk) n).mono fun n' s'' ⟨hquiet, hturn⟩ => ?_
  obtain ⟨hnone, rfl, harena⟩ | ⟨f, hf, rfl, hbared, hnotes⟩ := hturn
  · have hkept : Progress s root done n' s'' :=
      ⟨h.quiet.trans hquiet, folded, hhandled, hlength, harena ▸ hfolded⟩
    refine hkept.skip fun hconstant => ?_
    obtain ⟨f, hf⟩ := hfoldable hconstant
    cases hnone.symm.trans hf
  · have hconstant : s.arena.IsConstantOperation id := by
      refine (hvalue f hf).isConstantOperation ?_
      rw [kind?_eq, ← hfolded.payload?_eq id hid, ← kind?_eq]
      exact hk
    exact ⟨h.quiet.trans hquiet, folded ++ [id], hhandled.add hnot hconstant, by simp [hlength],
      hfolded.fold hid (hvalue f hf) hbared hnotes⟩

end Turn

/-- The pass evaluates the constant operations of whatever tree is rooted. -/
lemma folds_of_rooted (hrooted : s.arena.Rooted root) :
    transform.Yields s fun _ s' => s.arena.FoldsConstants s'.arena ∧
      ∃ operators : List NodeId, operators.Nodup ∧
        (∀ x, x ∈ operators ↔ s.arena.kind? x = some .binaryExpression ∧
          ∃ top, s.arena.IsLargestConstant top ∧ ReflTransGen s.arena.HasParent x top) ∧
        Ledger name s operators.length s' := by
  refine yields_bind ((walkKind_one_by_one (P := fun done s' n => Progress s root done n s') hrooted
    (fun done s' n h => ?_) (fun done id rest s' n hids h hnot => h.pass hrooted hids hnot)
    (fun done id rest s' n hids h _ hk => h.turn hrooted hids hk) (progress_start hrooted)).mono fun n s₁ h => ?_)
  · obtain ⟨folded, -, -, hfolded⟩ := h.folds
    exact ⟨hfolded.rooted, Nat.le_of_eq hfolded.size_eq.symm⟩
  · obtain ⟨folded, hhandled, rfl, hfolded⟩ := h.folds
    have hmem := hhandled.mem_iff
    simp only [hrooted.mem_turnsOf] at hmem
    refine (conclude_ledger (n := folded.length) rfl ..).mono fun _ s' hend => ?_
    exact ⟨hend.1 ▸ hfolded.foldsConstants hrooted hmem, folded, hhandled.nodup,
      fun x => (hmem x).trans (mem_operators_iff hrooted), h.quiet.ledger hend.2⟩

/-- The pass evaluates the constant operations of a script and nothing else, and records the number of their operators.
-/
theorem transform_folds_constants {source : Text} {options : ParseOptions} {script : Script}
    (hparse : parse source options = .ok script) {s : Run} (hs : s.arena = ofTree script.tree) :
    transform.Yields s fun _ s' => s.arena.FoldsConstants s'.arena ∧
      ∃ operators : List NodeId, operators.Nodup ∧
        (∀ x, x ∈ operators ↔ s.arena.kind? x = some .binaryExpression ∧
          ∃ top, s.arena.IsLargestConstant top ∧ ReflTransGen s.arena.HasParent x top) ∧
        Ledger name s operators.length s' := by
  obtain ⟨root, hstanding⟩ := ofTree_standing (parse_is_program hparse)
  exact folds_of_rooted (hs ▸ hstanding.toRooted)

/-- An operation with a name among its operands stays, and those on literals next to it do not. -/
theorem transform_folds_constants_mixed : ∃ script outcome s', parse "f(1 + 2 * 3, x * (4 - 5));" {} = .ok script ∧
    transform { arena := ofTree script.tree } = .ok outcome s' ∧ (ofTree script.tree).FoldsConstants s'.arena := by
  obtain ⟨script, hparse, -⟩ : ∃ script, parse "f(1 + 2 * 3, x * (4 - 5));" {} = .ok script ∧ True :=
    exists_of_parse (by decide +kernel)
  obtain ⟨outcome, s', hrun, hfolds, -⟩ := transform_folds_constants (s := { arena := ofTree script.tree }) hparse rfl
  exact ⟨script, outcome, s', hparse, hrun, hfolds⟩

end Pass.Folding

end PlainScript
