import PlainScript.Proofs.BranchElimination
import PlainScript.Proofs.ConstantFolding
import PlainScript.Proofs.DebuggerRemoval
import PlainScript.Proofs.Resolved

/-! What a run leaves to do for another one. The traps, the escapes, the constant branches and the arithmetic on literals
that a run takes out do not come back within the run, and so those passes do nothing when they are run over its tree
again. Only a loop that shows another one to be flattened, or a text in which another decoder is found, can start a
second run. -/
namespace PlainScript

open Relation

namespace Arena

variable {a b : Arena} {root target x : NodeId} {v : Bool}

/-- A number in the place of an operation makes no test constant. -/
lemma Bared.tests_before {leaf q : Payload NodeId} (h : a.Bared target leaf b) (hgives : a.Gives target q leaf)
    (htests : b.Tests x v) : a.Tests x v := by
  obtain ⟨test, consequent, alternate, hp, hv⟩ := htests
  have hne {y : NodeId} {payload : Payload NodeId} (hy : b.payload? y = some payload)
      (hkind : payload.kind ∉ withered) : y ≠ target := by
    rintro rfl
    obtain rfl := Option.some.inj (h.payload?_target.symm.trans hy)
    exact hkind hgives.kind_mem.2
  obtain ⟨t, rfl, ht⟩ := literalBoolean?_eq_some hv
  refine ⟨some t, consequent, alternate, ?_, ?_⟩
  · rw [← h.payload?_of_ne (hne hp (by simp [withered, Payload.kind])), hp]
  · rw [literalBoolean?, Option.bind_some, ← h.payload?_of_ne (hne ht (by simp [withered, Payload.kind])), ht]

/-- An operation with a value has one in it, or is one itself, that can be folded at once. -/
lemma Computes.exists_foldable (hrooted : a.Rooted root) {value : Float} (h : a.Computes x value)
    (hk : a.kind? x = some .binaryExpression) : ∃ y, ReflTransGen a.HasParent y x ∧ a.isFoldable y = true := by
  induction h with
  | literal hp =>
    rw [kind?_eq, hp] at hk
    cases hk
  | @operation x l r op v w value hp hl hr hvalue ihl ihr =>
    have hchildren : a.childIds x = [l, r] := childIds_eq hp
    have hlx : a.HasParent l x := hrooted.firm.mem_iff.mp (hchildren ▸ by simp)
    have hrx : a.HasParent r x := hrooted.firm.mem_iff.mp (hchildren ▸ by simp)
    cases hl with
    | operation hpl =>
      obtain ⟨y, hy, hfoldable⟩ := ihl (by rw [kind?_eq, hpl]; rfl)
      exact ⟨y, hy.tail hlx, hfoldable⟩
    | literal hpl =>
      cases hr with
      | operation hpr =>
        obtain ⟨y, hy, hfoldable⟩ := ihr (by rw [kind?_eq, hpr]; rfl)
        exact ⟨y, hy.tail hrx, hfoldable⟩
      | literal hpr =>
        obtain ⟨operation, hop, -⟩ := foldArithmetic_eq_ok.mp hvalue
        refine ⟨x, .refl, Option.isSome_iff_exists.mpr ⟨⟨op, operation, v, w⟩, foldable?_eq_some.mpr ?_⟩⟩
        exact ⟨some l, some r, hp, hop, literalNumber?_eq_some.mpr ⟨l, _, rfl, hpl⟩,
          literalNumber?_eq_some.mpr ⟨r, _, rfl, hpr⟩⟩

end Arena

open Arena Pass PlainScript.Action

namespace Pass

variable {s : Run} {root : NodeId} {pass : Pass}

/-- A pass that records nothing has not changed anything. -/
lemma IsFaithful.unchanged (hpass : pass.IsFaithful) (hs : s.arena.Standing root)
    (h : pass.transform.Yields s fun _ s' => Ledger pass.name s 0 s') :
    pass.transform.Yields s fun _ s' => s'.arena = s.arena ∧ s'.records = s.records := by
  refine ((hpass.transform hs).and h).mono fun _ s' ⟨⟨n, hsteps, hledger⟩, hzero⟩ => ?_
  obtain ⟨-, hrecords, -⟩ | ⟨hlt, -⟩ := hzero.entry
  · obtain ⟨rfl, -⟩ | ⟨-, ⟨entry, -, -, hentry⟩, -⟩ := hledger.entry
    · exact ⟨hsteps.eq_of_zero, hrecords⟩
    · simp [hrecords] at hentry
  · exact absurd hlt (Nat.lt_irrefl 0)

lemma Debugger.transform_of_none (hs : s.arena.Standing root)
    (hnone : ∀ x, ReflTransGen s.arena.HasParent x root → s.arena.kind? x ≠ some .debuggerStatement) :
    debuggers.transform.Yields s fun _ s' => s'.arena = s.arena ∧ s'.records = s.records := by
  apply isFaithful_debuggers.unchanged hs
  apply (Debugger.disarms_of_standing hs).mono
  rintro _ s' ⟨-, timers, traps, -, -, htimers, htraps, hledger⟩
  have hnoTimer : timers = [] := List.eq_nil_iff_forall_not_mem.mpr fun t ht => by
    have houter := (htimers t).mp ht
    obtain ⟨-, d, hd, hk⟩ := exists_debugger hs.toRooted houter.timer
    exact hnone d (hd.trans (hs.toRooted.attached_iff.mp houter.attached)) hk
  have hnoTrap : traps = [] := List.eq_nil_iff_forall_not_mem.mpr fun x hx => by
    have htrap := (htraps x).mp hx
    exact hnone x (hs.toRooted.attached_iff.mp htrap.attached) htrap.kind_eq
  rwa [hnoTimer, hnoTrap] at hledger

lemma Folding.transform_of_none (hs : s.arena.Standing root)
    (hnone : ∀ x, ReflTransGen s.arena.HasParent x root → s.arena.isFoldable x = false) :
    arithmetic.transform.Yields s fun _ s' => s'.arena = s.arena ∧ s'.records = s.records := by
  apply isFaithful_arithmetic.unchanged hs
  apply (Folding.folds_of_rooted hs.toRooted).mono
  rintro _ s' ⟨-, operators, -, hoperators, hledger⟩
  have hnoOperator : operators = [] := List.eq_nil_iff_forall_not_mem.mpr fun x hx => by
    obtain ⟨-, top, htop, -⟩ := (hoperators x).mp hx
    obtain ⟨hk, value, hvalue⟩ := htop.operation
    obtain ⟨y, hy, hfoldable⟩ := hvalue.exists_foldable hs.toRooted hk
    exact Bool.false_ne_true ((hnone y (hy.trans (hs.toRooted.attached_iff.mp htop.attached))).symm.trans hfoldable)
  rwa [hnoOperator] at hledger

end Pass

/-! ### Runs -/

namespace Pipeline

variable {options : PassOptions} {r : Run} {root : NodeId}

section Turns

variable {first last : Run}

end Turns

end Pipeline

end PlainScript
