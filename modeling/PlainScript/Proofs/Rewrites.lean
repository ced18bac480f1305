import PlainScript.Pass.Arithmetic
import PlainScript.Pass.Debugger
import PlainScript.Pass.Decoder
import PlainScript.Pass.Escape
import PlainScript.Proofs.DeadBranches
import PlainScript.Proofs.Leaves
import PlainScript.Proofs.Unflattening

/-! The steps in which passes change a tree. No pass fails, each counts the steps that it takes, and what it writes
down agrees with its count. -/
namespace PlainScript

open Relation

lemma InSteps.mono {α : Type} {step step' : α → α → Prop} (h : ∀ a b, step a b → step' a b) {n : Nat} {a b : α}
    (hsteps : InSteps step n a b) : InSteps step' n a b := by
  induction hsteps with
  | zero => exact .zero _
  | succ _ hstep ih => exact .succ ih (h _ _ hstep)

lemma InSteps.trans {α : Type} {step : α → α → Prop} {n m : Nat} {a b c : α} (h : InSteps step n a b)
    (h' : InSteps step m b c) : InSteps step (n + m) a c := by
  induction h' with
  | zero => exact h
  | succ _ hstep ih => exact .succ (ih h) hstep

namespace Arena

variable {a b : Arena} {root target : NodeId} {k : Kind}

/-- The statement of an expression holds just that. -/
lemma statementOf?_iff {x statement : NodeId} : a.statementOf? x = some statement ↔
    a.HasParent x statement ∧ a.payload? statement = some (.expressionStatement (some x)) := by
  constructor
  · intro h
    obtain ⟨cell, hcell, h⟩ := Option.bind_eq_some_iff.mp h
    obtain ⟨p, hparent, h⟩ := Option.bind_eq_some_iff.mp h
    obtain ⟨q, hq, h⟩ := Option.bind_eq_some_iff.mp h
    split at h
    next e =>
      split_ifs at h with he
      obtain rfl := Option.some.inj h
      exact ⟨by simp [HasParent, parentOf, hcell, hparent], he ▸ hq⟩
    next => cases h
  · rintro ⟨hparent, hp⟩
    obtain ⟨cell, hcell, hparent⟩ := Option.bind_eq_some_iff.mp hparent
    simp [statementOf?, hcell, hparent, hp]

/-- The target, a statement below the root, goes away, or leaves an empty one behind. -/
def RemovesAt (root target : NodeId) (a b : Arena) : Prop :=
  ∃ p payload place new, a.Exchange root target p payload place [] new b ∧
    (place.role.takesStatement = true ∧ payload.kind.isExpression = false) ∧
    (∃ k, a.kind? target = some k ∧ k.isPlainStatement = true) ∧
    (place.role ≠ .statement ∧ new = [] ∨
      place.role = .statement ∧ new = [a.size] ∧ b.payload? a.size = some .emptyStatement)

/-- A statement below the root goes away, or leaves an empty one behind. It is not just a string. -/
def Removes (root : NodeId) (a b : Arena) : Prop :=
  ∃ target, a.isStringStatement target = false ∧ RemovesAt root target a b

lemma remove_removes (h : a.Standing root) (hk : a.kind? target = some k) (hplain : k.isPlainStatement = true)
    (hway : ReflTransGen a.HasParent target root) :
    (Edit.remove target).Ensures a (fun _ b => RemovesAt root target a b) fun _ => False := by
  obtain ⟨p, payload, place, hat, hplace⟩ := h.exists_at hk hplain hway
  have hrole : place.role ≠ .expression := fun h => by simpa [h, Role.takesStatement] using hplace.1
  refine (remove_exchanges h.toRooted hat hrole).mono ?_ fun _ => id
  rintro _ b ⟨new, hexchange, hnew⟩
  exact ⟨p, payload, place, new, hexchange, hplace, ⟨k, hk, hplain⟩, hnew⟩

lemma RemovesAt.standing (h : RemovesAt root target a b) (hstanding : a.Standing root) : b.Standing root := by
  obtain ⟨p, payload, place, new, hexchange, hplace, -⟩ := h
  exact hexchange.standing_after hstanding hplace

lemma RemovesAt.size_le (h : RemovesAt root target a b) : a.size ≤ b.size := by
  obtain ⟨p, payload, place, new, hexchange, -⟩ := h
  exact hexchange.replaced.size_le

/-- A step of a pass. -/
inductive Rewrites (root : NodeId) (a b : Arena) : Prop
  | branch (h : Branches root a b)
  | merge (h : Merges root a b)
  | removal (h : Removes root a b)
  | leaf (h : Withers root a b)

lemma Rewrites.size_le (h : Rewrites root a b) : a.size ≤ b.size := by
  cases h with
  | branch h => exact h.size_le
  | merge h => exact h.size_le
  | leaf h => exact h.size_le
  | removal h =>
    obtain ⟨target, -, h⟩ := h
    exact h.size_le

lemma Rewrites.standing (h : Rewrites root a b) (hstanding : a.Standing root) : b.Standing root := by
  cases h with
  | branch h => exact h.standing hstanding
  | merge h => exact h.standing hstanding
  | leaf h => exact h.standing hstanding
  | removal h =>
    obtain ⟨target, -, h⟩ := h
    exact h.standing hstanding

end Arena

open Arena PlainScript.Action

/-- What a pass does to a script. While it looks at it, it changes nothing; then it does not fail, and it writes
down how many steps it has taken. -/
structure Pass.IsFaithful (pass : Pass) : Prop where
  analyze : ∀ {s : Run} {root : NodeId}, s.arena.Standing root → pass.analyze.Idle s
  transform : ∀ {s : Run} {root : NodeId}, s.arena.Standing root → pass.transform.Yields s fun _ s' =>
    ∃ n, InSteps (Rewrites root) n s.arena s'.arena ∧ Ledger pass.name s n s'

namespace Pass

variable {s : Run} {root : NodeId}

/-- A walk over one kind of node whose handler counts its steps. -/
lemma walkKind_rewrites {τ : Type} {order : Order} {kind : Kind} {start : τ} {handle : NodeId → τ → Action τ}
    {step : Arena → Arena → Prop} (hstep : ∀ a b, step a b → Rewrites root a b) (count : τ → Nat)
    (hhandle : ∀ s t id, s.arena.Standing root → ReflTransGen s.arena.HasParent id root →
      s.arena.kind? id = some kind →
        (handle id t).Yields s fun t' s' => Counts step Quiet s (count t) s' (count t'))
    (hs : s.arena.Standing root) (hstart : count start = 0) :
    (walkKind order kind start handle).Yields s fun t s' => s'.arena.Standing root ∧
      InSteps step (count t) s.arena s'.arena ∧ Quiet s s' :=
  walkKind_counts (P := (Standing · root)) count (fun _ h => h.toRooted)
    (fun a b ha h => ⟨(hstep a b h).standing ha, (hstep a b h).size_le⟩) Quiet.refl (fun _ _ _ => .trans) hhandle hs hstart

/-- A walk that only looks at nodes. -/
lemma walkKind_idle {order : Order} {kind : Kind} {look : NodeId → Action Unit}
    (hlook : ∀ s id, s.arena.Standing root → s.arena.kind? id = some kind → (look id).Idle s)
    (hs : s.arena.Standing root) : (walkKind order kind () fun id _ => look id).Idle s := by
  refine (walkKind_rewrites (fun _ _ h => h) (fun _ => 0) (fun s _ id hs _ hk => ?_) hs rfl).mono fun _ s' h =>
    ⟨trivial, h.2.1.eq_of_zero, h.2.2⟩
  exact (hlook s id hs hk).mono fun _ _ h => ⟨.inl ⟨rfl, h.2.1⟩, h.2.2⟩

lemma isFaithful_constantBranches : constantBranches.IsFaithful where
  analyze _ := settles_pure trivial
  transform hs := (Branch.transform_counts hs).mono fun _ _ ⟨n, hsteps, hledger⟩ =>
    ⟨n, hsteps.mono fun _ _ => .branch, hledger⟩

lemma isFaithful_dispatchLoops : dispatchLoops.IsFaithful where
  analyze _ := settles_pure trivial
  transform hs := (Dispatch.transform_counts hs.toScripted).mono fun _ _ ⟨n, hsteps, hledger⟩ =>
    ⟨n, hsteps.mono fun _ _ => .merge, hledger⟩

section Handlers

variable {target : NodeId} (hs : s.arena.Standing root) (hway : ReflTransGen s.arena.HasParent target root)
include hs hway

/-- A call below the root becomes a string. -/
lemma replaceData_steps (hk : s.arena.kind? target = some .callExpression) (value : Text) :
    (edit (Edit.replaceData target (.stringLiteral value []))).Yields s fun _ s' =>
      WithersFrom .callExpression root s.arena s'.arena ∧ Quiet s s' := by
  obtain ⟨callee, arguments, isOptional, hq⟩ := exists_call hk
  exact edit_steps ((Edit.replaceData_bares hs.firm (lt_size_of_payload? hq) rfl).mono
    (fun _ _ hb => ⟨target, _, _, hway, hq, rfl, .placeholder value, hb⟩) fun _ => id)

omit hs hway in
/-- An operation on two literals becomes its result, and any other stays as it is. -/
lemma foldBinary_turn (hfirm : Firm s.arena.parentOf s.arena.childIds) (hlt : target < s.arena.size) (folded : Nat) :
    (Folding.foldBinary target folded).Yields s fun folded' s' => Quiet s s' ∧
      (s.arena.foldable? target = none ∧ folded' = folded ∧ s'.arena = s.arena ∨
        ∃ c, s.arena.foldable? target = some c ∧ folded' = folded + 1 ∧
          s.arena.Bared target (.numericLiteral c.value [] false) s'.arena ∧ SameNotes s.arena s'.arena) := by
  refine yields_bind (yields_arena ?_)
  cases hfold : s.arena.foldable? target with
  | none => exact yields_pure _ ⟨.refl s, .inl ⟨rfl, rfl, rfl⟩⟩
  | some c =>
    have hedit (s₁ : Run) (harena : s₁.arena = s.arena) (hquiet : Quiet s s₁) : (do
        edit (Edit.replaceData target (.numericLiteral c.value [] false))
        say .trace Folding.source (Print.number c.left ++ " " ++ c.op ++ " " ++ Print.number c.right ++ " -> "
          ++ Print.number c.value)
        return folded + 1 : Action Nat).Yields s₁ fun folded' s' => Quiet s s' ∧ folded' = folded + 1 ∧
          s.arena.Bared target (.numericLiteral c.value [] false) s'.arena ∧ SameNotes s.arena s'.arena := by
      rw [← harena] at hfirm hlt ⊢
      refine yields_bind (yields_edit (((Edit.replaceData_bares hfirm hlt rfl).and
        (SameNotes.rewires.replaceData _)).mono (fun _ _ => id) fun _ hb => hb.1) fun _ b hb => ?_)
      refine (settles_bind idle_say fun _ _ _ _ => settles_pure (R := (· = folded + 1)) rfl).mono fun n s' h => ?_
      exact ⟨hquiet.trans h.2.2.of_edit, h.1, h.2.1 ▸ hb⟩
    dsimp only
    split
    · refine yields_bind ((idle_count (by decide)).mono fun _ s₁ h₁ => ?_)
      exact (hedit s₁ h₁.2.1 h₁.2.2).mono fun _ _ h => ⟨h.1, .inr ⟨c, rfl, h.2⟩⟩
    · exact (hedit s rfl (.refl s)).mono fun _ _ h => ⟨h.1, .inr ⟨c, rfl, h.2⟩⟩

lemma foldBinary_counts (hk : s.arena.kind? target = some .binaryExpression) (folded : Nat) :
    (Folding.foldBinary target folded).Yields s fun folded' s' =>
      Counts (WithersFrom .binaryExpression root) Quiet s folded s' folded' := by
  refine (foldBinary_turn hs.firm (lt_size_of_kind? hk) folded).mono fun folded' s' ⟨hquiet, h⟩ => ⟨?_, hquiet⟩
  obtain ⟨-, hfolded, harena⟩ | ⟨c, -, hfolded, hbared, -⟩ := h
  · exact .inl ⟨hfolded, harena⟩
  · obtain ⟨q, hq, hkind⟩ := exists_payload hk
    cases q with
    | binaryExpression => exact .inr ⟨hfolded, target, _, _, hway, hq, rfl, .value _, hbared⟩
    | _ => cases hkind

omit hs hway in
/-- A string with an escape that can be resolved is spelled anew, unless it is a directive, and nothing else changes. -/
lemma resolveString_turn (hfirm : Firm s.arena.parentOf s.arena.childIds) (resolved : Nat) :
    (Escape.resolveString target resolved).Yields s fun resolved' s' => Quiet s s' ∧
      (resolved' = resolved ∧ s'.arena = s.arena ∧
          (∀ value raw, s.arena.payload? target = some (.stringLiteral value raw) →
            hasCodeEscape raw = false ∨ s.arena.isDirective target = true ∨ unescape raw = raw) ∨
        ∃ value raw, s.arena.payload? target = some (.stringLiteral value raw) ∧ s.arena.isDirective target = false ∧
          unescape raw ≠ raw ∧ resolved' = resolved + 1 ∧
          s.arena.Bared target (.stringLiteral value (unescape raw)) s'.arena) := by
  refine yields_bind (yields_arena ?_)
  dsimp only
  split
  next value raw hq =>
    have hsame (hraw : hasCodeEscape raw = false ∨ s.arena.isDirective target = true ∨ unescape raw = raw)
        (value' raw' : Text) (hq' : s.arena.payload? target = some (.stringLiteral value' raw')) :
        hasCodeEscape raw' = false ∨ s.arena.isDirective target = true ∨ unescape raw' = raw' := by
      cases hq.symm.trans hq'
      exact hraw
    split
    next hnone => exact yields_pure _ ⟨.refl s, .inl ⟨rfl, rfl, hsame (.inl (by simpa using hnone))⟩⟩
    split
    next hdirective =>
      refine (settles_bind (idle_count (by decide)) fun _ _ _ _ => settles_pure (R := (· = resolved)) rfl).mono
        fun _ s' ⟨hn, harena, hquiet⟩ => ⟨hquiet, .inl ⟨hn, harena, hsame (.inr (.inl hdirective))⟩⟩
    next hdirective =>
    split
    next hreadable => exact yields_pure _ ⟨.refl s, .inl ⟨rfl, rfl, hsame (.inr (.inr hreadable))⟩⟩
    next hreadable =>
      refine yields_bind (idle_say.mono fun _ s₁ ⟨_, harena, hquiet⟩ => ?_)
      rw [← harena] at hfirm hq ⊢
      refine yields_bind (yields_edit (Edit.setPayload_bares hfirm hq rfl rfl) fun _ b hb => yields_pure _ ?_)
      have hkept : s.arena.isDirective target = false := by simpa using hdirective
      exact ⟨hquiet.trans (Quiet.refl _).of_edit, .inr ⟨value, raw, hq, harena ▸ hkept, hreadable, rfl, hb⟩⟩
  next hnone =>
    refine yields_pure _ ⟨.refl s, .inl ⟨rfl, rfl, fun value raw hq => absurd hq (hnone value raw)⟩⟩

lemma resolveString_counts (resolved : Nat) :
    (Escape.resolveString target resolved).Yields s fun resolved' s' =>
      Counts (WithersFrom .stringLiteral root) Quiet s resolved s' resolved' := by
  refine (resolveString_turn hs.firm resolved).mono fun resolved' s' ⟨hquiet, h⟩ => ⟨?_, hquiet⟩
  obtain ⟨hn, harena, -⟩ | ⟨value, raw, hq, hdirective, -, hn, hbared⟩ := h
  · exact .inl ⟨hn, harena⟩
  · exact .inr ⟨hn, target, _, _, hway, hq, rfl, .spelling hdirective, hbared⟩

omit hs hway in
lemma report_idle : (Debugger.report target).Idle s := by
  refine settles_bind settles_get fun s₁ s₂ _ hs₂ => ?_
  dsimp only
  split
  next => exact settles_bind idle_say fun _ _ _ _ => idle_count (by decide)
  next => exact settles_pure trivial
  next defense _ =>
    refine settles_bind (idle_modify rfl (.of_eq rfl rfl rfl)) fun _ _ _ _ => ?_
    cases defense with
    | debugger => exact idle_count (by decide)
    | toStringCheck => exact settles_bind (idle_count (by decide)) fun _ _ _ _ => idle_warn

/-- A statement around a node below the root is below the root itself. -/
lemma statementOf?_eq_some (hk : s.arena.kind? target ≠ some .program) {holder : NodeId}
    (h : s.arena.statementOf? target = some holder) :
    s.arena.kind? holder = some .expressionStatement ∧ ReflTransGen s.arena.HasParent holder root := by
  obtain ⟨hparent, hq⟩ := statementOf?_iff.mp h
  refine ⟨by rw [kind?_eq, hq]; rfl, ?_⟩
  obtain rfl | ⟨p, hp, hroot⟩ := hway.cases_head
  · exact absurd hs.isProgram hk
  · exact Option.some.inj (hparent.symm.trans hp) ▸ hroot

/-- A call that starts a timer goes with its statement, or becomes a name, and any other stays as it is. -/
lemma removeTimer_turn (hk : s.arena.kind? target = some .callExpression) (removed : Nat) :
    (Debugger.removeTimer target removed).Yields s fun removed' s' => Quiet s s' ∧
      (s.arena.isDebuggerTimer target = false ∧ removed' = removed ∧ s'.arena = s.arena ∨
        s.arena.isDebuggerTimer target = true ∧ removed' = removed + 1 ∧
          ((∃ holder, s.arena.statementOf? target = some holder ∧ RemovesAt root holder s.arena s'.arena) ∨
            s.arena.statementOf? target = none ∧
              s.arena.Bared target (.identifier "undefined") s'.arena)) := by
  have hlt := lt_size_of_kind? hk
  have hsaid (s₁ : Run) (hsize : s.arena.size ≤ s₁.arena.size) : (do
      say .debug Debugger.source ("Removed anti-debug timer at line " ++ (← line target))
      count "timers_removed" 1
      return removed + 1 : Action Nat).Settles s₁ (· = removed + 1) :=
    settles_bind (idle_line (Nat.lt_of_lt_of_le hlt hsize)) fun _ _ _ _ => settles_bind idle_say fun _ _ _ _ =>
      settles_bind (idle_count (by decide)) fun _ _ _ _ => settles_pure rfl
  refine yields_bind (yields_arena ?_)
  dsimp only
  split
  next htimer => exact yields_pure _ ⟨.refl s, .inl ⟨by simpa using htimer, rfl, rfl⟩⟩
  next htimer =>
    have htimer : s.arena.isDebuggerTimer target = true := by simpa using htimer
    split
    next holder hholder =>
      obtain ⟨hk', hway'⟩ := statementOf?_eq_some hs hway (by simp [hk]) hholder
      refine yields_bind (yields_edit (remove_removes hs hk' rfl hway') fun _ b hb => ?_)
      refine (hsaid { s with arena := b } hb.size_le).mono fun _ s' ⟨hn, harena, hquiet⟩ => ?_
      exact ⟨hquiet.of_edit, .inr ⟨htimer, hn, .inl ⟨holder, hholder, harena ▸ hb⟩⟩⟩
    next hnone =>
      refine yields_bind (yields_edit (Edit.replaceData_bares hs.firm hlt rfl) fun _ b hb => ?_)
      refine (hsaid { s with arena := b } (Nat.le_of_eq hb.size_eq.symm)).mono fun _ s' ⟨hn, harena, hquiet⟩ => ?_
      exact ⟨hquiet.of_edit, .inr ⟨htimer, hn, .inr ⟨hnone, harena ▸ hb⟩⟩⟩

lemma removeTimer_counts (hk : s.arena.kind? target = some .callExpression) (removed : Nat) :
    (Debugger.removeTimer target removed).Yields s fun removed' s' =>
      Counts (Rewrites root) Quiet s removed s' removed' := by
  refine (removeTimer_turn hs hway hk removed).mono fun removed' s' ⟨hquiet, h⟩ => ⟨?_, hquiet⟩
  obtain ⟨-, hn, harena⟩ | ⟨-, hn, ⟨holder, hholder, hremoves⟩ | ⟨-, hbared⟩⟩ := h
  · exact .inl ⟨hn, harena⟩
  · have hp := (statementOf?_iff.mp hholder).2
    exact .inr ⟨hn, .removal ⟨holder, by simp [isStringStatement, hp, isKind, hk], hremoves⟩⟩
  · obtain ⟨callee, arguments, isOptional, hq⟩ := exists_call hk
    exact .inr ⟨hn, .leaf ⟨_, target, _, _, hway, hq, rfl, .name _, hbared⟩⟩

lemma removeStatement_turn (hk : s.arena.kind? target = some .debuggerStatement) (removed : Nat) :
    (Debugger.removeStatement target removed).Yields s fun removed' s' => Quiet s s' ∧
      removed' = removed + 1 ∧ RemovesAt root target s.arena s'.arena := by
  refine yields_bind (yields_edit (remove_removes hs hk rfl hway) fun _ b hb => ?_)
  refine (settles_bind (idle_count (by decide)) fun _ _ _ _ => settles_pure (R := (· = removed + 1)) rfl).mono
    fun _ s' ⟨hn, harena, hquiet⟩ => ?_
  exact ⟨hquiet.of_edit, hn, harena ▸ hb⟩

lemma removeStatement_counts (hk : s.arena.kind? target = some .debuggerStatement) (removed : Nat) :
    (Debugger.removeStatement target removed).Yields s fun removed' s' =>
      Counts (Rewrites root) Quiet s removed s' removed' := by
  refine (removeStatement_turn hs hway hk removed).mono fun _ _ ⟨hquiet, hn, hremoves⟩ =>
    ⟨.inr ⟨hn, .removal ⟨target, ?_, hremoves⟩⟩, hquiet⟩
  obtain ⟨q, hq, hkind⟩ := exists_payload hk
  cases q with
  | debuggerStatement => simp [isStringStatement, hq]
  | _ => cases hkind

omit hs hway in
lemma register_idle : (Decoder.register target).Idle s := by
  refine settles_bind settles_get fun s₁ s₂ _ hs₂ => ?_
  dsimp only
  split
  · exact settles_pure trivial
  split
  · exact settles_bind idle_say fun _ _ _ _ => idle_count (by decide)
  · exact settles_pure trivial
  · exact settles_bind (idle_modify rfl (.of_eq rfl rfl rfl)) fun _ _ _ _ => idle_say

omit hs hway in
lemma scopeFault_settles (scope : Option NodeId) (t : Decoder.Tally) :
    (Decoder.scopeFault scope t).Settles s fun r => r.2.replaced = t.replaced := by
  unfold Decoder.scopeFault
  split
  · exact settles_pure rfl
  · refine settles_bind settles_get fun _ _ _ _ => ?_
    exact settles_bind (idle_count (by decide)) fun _ _ _ _ => settles_pure rfl

lemma replaceCall_counts (hk : s.arena.kind? target = some .callExpression) (t : Decoder.Tally) :
    (Decoder.replaceCall target t).Yields s fun t' s' =>
      Counts (WithersFrom .callExpression root) Quiet s t.replaced s' t'.replaced := by
  refine counts_bind (m := Decoder.Tally.replaced) settles_get fun s₀ s₁ ha hs₁ => ?_
  rw [← hs₁] at hs hway hk
  dsimp only
  split
  next => exact counts_of_settles (m := Decoder.Tally.replaced) (settles_pure rfl)
  next callee _ =>
    split
    · exact counts_of_settles (m := Decoder.Tally.replaced) (settles_pure rfl)
    obtain ⟨scope, hscope⟩ := hs.firm.enclosingFunction_ok (lt_size_of_kind? hk)
    refine counts_bind (m := Decoder.Tally.replaced) (settles_ask hscope) fun scope s₂ _ hs₂ => ?_
    rw [← hs₂] at hs hway hk
    refine counts_bind (m := Decoder.Tally.replaced) (scopeFault_settles scope t) fun r s₃ hr hs₃ => ?_
    rw [← hs₃] at hs hway hk
    obtain ⟨fault, t'⟩ := r
    have hlt := lt_size_of_kind? hk
    dsimp only at hr ⊢
    rw [← hr]
    split
    next e =>
      refine counts_of_settles (m := Decoder.Tally.replaced) ?_
      exact settles_bind (idle_line hlt) fun _ _ _ _ => settles_bind idle_say fun _ _ _ _ => settles_pure rfl
    next =>
      refine counts_step (m := Decoder.Tally.replaced) (replaceData_steps hs hway hk _) fun _ s₄ hstep => ?_
      exact settles_bind (idle_line (Nat.lt_of_lt_of_le hlt (Withers.size_le ⟨_, hstep⟩))) fun _ _ _ _ =>
        settles_bind idle_say fun _ _ _ _ => settles_pure rfl

end Handlers

/-- The pass does not fail, and it counts the operations that it folds. -/
theorem Folding.transform_counts (hs : s.arena.Standing root) : Folding.transform.Yields s fun _ s' =>
    ∃ n, InSteps (WithersFrom .binaryExpression root) n s.arena s'.arena ∧ Ledger Folding.name s n s' := by
  refine yields_bind ((walkKind_rewrites (fun _ _ h => .leaf ⟨_, h⟩) id
    (fun s folded id hs hway hk => foldBinary_counts hs hway hk folded) hs rfl).mono fun folded s₁ h => ?_)
  obtain ⟨-, hsteps, hquiet⟩ := h
  exact conclude_counts rfl hsteps hquiet ..

/-- The pass does not fail, and it counts the strings that it spells anew. -/
theorem Escape.transform_counts (hs : s.arena.Standing root) : Escape.transform.Yields s fun _ s' =>
    ∃ n, InSteps (WithersFrom .stringLiteral root) n s.arena s'.arena ∧ Ledger Escape.name s n s' := by
  refine yields_bind ((walkKind_rewrites (fun _ _ h => .leaf ⟨_, h⟩) id
    (fun s resolved id hs hway _ => resolveString_counts hs hway resolved) hs rfl).mono fun resolved s₁ h => ?_)
  obtain ⟨-, hsteps, hquiet⟩ := h
  exact conclude_counts rfl hsteps hquiet ..

lemma isFaithful_arithmetic : arithmetic.IsFaithful where
  analyze _ := settles_pure trivial
  transform hs := (Folding.transform_counts hs).mono fun _ _ ⟨n, hsteps, hledger⟩ =>
    ⟨n, hsteps.mono fun _ _ h => .leaf ⟨_, h⟩, hledger⟩

lemma isFaithful_escapes : escapes.IsFaithful where
  analyze _ := settles_pure trivial
  transform hs := (Escape.transform_counts hs).mono fun _ _ ⟨n, hsteps, hledger⟩ =>
    ⟨n, hsteps.mono fun _ _ h => .leaf ⟨_, h⟩, hledger⟩

lemma isFaithful_debuggers : debuggers.IsFaithful where
  analyze _ := settles_pure trivial
  transform {s root} hs := by
    refine yields_bind ((walkKind_idle (fun s id _ _ => report_idle) hs).mono fun _ s₁ h₁ => ?_)
    obtain ⟨-, harena, hquiet₁⟩ := h₁
    rw [← harena] at hs ⊢
    refine yields_bind ((walkKind_rewrites (fun _ _ h => h) id
      (fun s removed id hs hway hk => removeTimer_counts hs hway hk removed) hs rfl).mono fun timers s₂ h₂ => ?_)
    obtain ⟨hs₂, hsteps₂, hquiet₂⟩ := h₂
    refine yields_bind ((walkKind_rewrites (fun _ _ h => h) id
      (fun s removed id hs hway hk => removeStatement_counts hs hway hk removed) hs₂ rfl).mono fun statements s₃ h₃ => ?_)
    obtain ⟨-, hsteps₃, hquiet₃⟩ := h₃
    have hsteps : InSteps (Rewrites root) (timers + statements) _ _ := hsteps₂.trans hsteps₃
    have hquiet := hquiet₁.trans (hquiet₂.trans hquiet₃)
    rw [harena] at hsteps ⊢
    dsimp only
    split
    · exact yields_aside hsteps hquiet idle_say fun _ _ hsteps hquiet => conclude_counts rfl hsteps hquiet ..
    · exact conclude_counts rfl hsteps hquiet ..

lemma isFaithful_decoders : decoders.IsFaithful where
  analyze hs := settles_bind (walkKind_idle (fun s id _ _ => register_idle) hs) fun _ _ _ _ =>
    settles_bind settles_get fun _ _ _ _ => idle_count (by decide)
  transform {s root} hs := by
    refine yields_bind (settles_get.mono fun s₀ s₁ h₁ => ?_)
    obtain ⟨-, harena, hquiet₁⟩ := h₁
    dsimp only
    split
    · exact yields_pure _ ⟨0, harena ▸ .zero _, hquiet₁.ledger_zero _⟩
    rw [← harena] at hs
    refine yields_bind ((walkKind_rewrites (fun _ _ h => .leaf ⟨_, h⟩) Decoder.Tally.replaced (fun s t id hs hway hk =>
      replaceCall_counts hs hway hk t) hs rfl).mono fun t s₂ h₂ => ?_)
    obtain ⟨-, hsteps, hquiet₂⟩ := h₂
    rw [harena] at hsteps
    replace hsteps := hsteps.mono fun _ _ h => (.leaf ⟨_, h⟩ : Rewrites root _ _)
    refine yields_aside hsteps (hquiet₁.trans hquiet₂) (idle_count (by decide)) fun _ s₃ hsteps hquiet => ?_
    split
    · refine yields_aside hsteps hquiet idle_warn fun _ s₄ hsteps hquiet => ?_
      exact yields_aside hsteps hquiet idle_warn fun _ _ hsteps hquiet => conclude_counts rfl hsteps hquiet ..
    · exact yields_aside hsteps hquiet idle_warn fun _ _ hsteps hquiet => conclude_counts rfl hsteps hquiet ..

end Pass

end PlainScript
