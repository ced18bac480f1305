import PlainScript.Pass.Branch
import PlainScript.Proofs.Folding

/-! The branch that an `if` with a known test takes, and the three ways to put it in the place of the `if`:
as it is, as the statements of a block, or as nothing where there is no branch. -/
namespace PlainScript

open Payload Statement

namespace Arena

variable {a b : Arena} {root target p source k : NodeId} {payload : Payload NodeId} {place : Place}
  {rs : List NodeId} {n : Nat} {test consequent alternate : Option NodeId} {v : Bool}

lemma literalBoolean?_eq_some (h : a.literalBoolean? test = some v) :
    ∃ t, test = some t ∧ a.payload? t = some (.booleanLiteral v) := by
  unfold literalBoolean? at h
  split at h
  next value hvalue =>
    cases h
    exact Option.bind_eq_some_iff.mp hvalue
  next => cases h

lemma expressionIn_literal (h : a.literalBoolean? test = some v) {e : Expression}
    (he : expressionIn (a.readUpTo n) test = some e) : e = .literal v := by
  obtain ⟨t, rfl, ht⟩ := literalBoolean?_eq_some h
  cases n with
  | zero => cases he
  | succ n =>
    simp only [expressionIn, Option.bind_some, readUpTo, ht] at he
    exact (Option.some.inj he).symm

/-- The test of the `if` is known, and `kept` is the branch that it takes, if there is one. -/
def Takes (a : Arena) (target : NodeId) (kept : Option NodeId) : Prop :=
  ∃ test consequent alternate v, a.payload? target = some (.ifStatement test consequent alternate) ∧
    a.literalBoolean? test = some v ∧ kept = if v then consequent else alternate

/-- The test of the `if` is a literal of the value. -/
def Tests (a : Arena) (target : NodeId) (v : Bool) : Prop :=
  ∃ test consequent alternate, a.payload? target = some (.ifStatement test consequent alternate) ∧
    a.literalBoolean? test = some v

lemma exists_takes_iff : (∃ kept, a.Takes target kept) ↔ ∃ v, a.Tests target v :=
  ⟨fun ⟨_, test, consequent, alternate, v, h, hv, _⟩ => ⟨v, test, consequent, alternate, h, hv⟩,
    fun ⟨v, test, consequent, alternate, h, hv⟩ => ⟨_, test, consequent, alternate, v, h, hv, rfl⟩⟩

namespace Takes

variable {kept : Option NodeId}

lemma parentOf_eq (h : a.Takes target kept) (hfirm : Firm a.parentOf a.childIds) (hk : k ∈ kept) :
    a.parentOf k = some target := by
  obtain ⟨test, consequent, alternate, v, hpayload, -, rfl⟩ := h
  refine hfirm.mem_iff.mp (childIds_eq hpayload ▸ ?_)
  show k ∈ test.toList ++ (consequent.toList ++ (alternate.toList ++ []))
  cases v <;> simp_all

/-- The branch may stand where the `if` stands. -/
lemma improves (h : a.Takes target kept) {r : Reading} (hr : a.readUpTo n target = some r) :
    ∃ m s t, n = m + 1 ∧ r = .statement s ∧ s.Improves t ∧
      orMissing .empty (statementIn (a.readUpTo m)) kept = some t := by
  obtain ⟨test, consequent, alternate, v, hpayload, hv, rfl⟩ := h
  cases n with
  | zero => cases hr
  | succ m =>
    rw [readUpTo, hpayload, Option.bind_some, reading?] at hr
    obtain ⟨e, he, hr⟩ := Option.bind_eq_some_iff.mp hr
    obtain ⟨s, hs, hr⟩ := Option.bind_eq_some_iff.mp hr
    obtain ⟨t, ht, ⟨⟩⟩ := Option.bind_eq_some_iff.mp hr
    obtain rfl := expressionIn_literal hv he
    refine ⟨m, _, _, rfl, rfl, .fold v s t, ?_⟩
    cases v with
    | true =>
      cases consequent with
      | none => cases hs
      | some x => exact hs
    | false => exact ht

/-- A branch stands for its `if`. -/
lemma stands (h : a.Takes target (some k))
    (hk : Follows Improves (a.readUpTo n k) (b.readUpTo n k)) :
    StandsFor (a.readUpTo n) (b.readUpTo n) target place [k] := by
  intro r hr
  obtain ⟨m, s, t, rfl, rfl, hst, ht⟩ := h.improves hr
  obtain ⟨_, hu, hrel⟩ := hk _ (readUpTo_succ (statementIn_some.mp ht))
  cases hrel with
  | @statement _ u htu =>
    have hu : statementIn (b.readUpTo (m + 1)) (some k) = some u := statementIn_some.mpr hu
    have hsu := hst.trans htu
    exact ⟨s, rfl, fun _ => ⟨[u], by simp [hu], improves_congruent.block (.cons hsu .nil)⟩,
      fun _ => .inl ⟨u, hu, hsu⟩⟩

/-- In a list the statements of a block stand for the `if` that takes the block. -/
lemma stands_spliced (h : a.Takes target (some k)) {body : List (Option NodeId)}
    (hbody : a.payload? k = some (.blockStatement body)) (hi : place.index.isSome)
    (hfollows : ∀ x ∈ body.filterMap id, Follows Improves (a.readUpTo n x) (b.readUpTo n x)) :
    StandsFor (a.readUpTo n) (b.readUpTo n) target place (body.filterMap id) := by
  intro r hr
  obtain ⟨m, s, t, rfl, rfl, hst, ht⟩ := h.improves hr
  have hblock := readUpTo_succ (statementIn_some.mp ht)
  rw [readUpTo, hbody, Option.bind_some, reading?] at hblock
  obtain ⟨ss, hss, ⟨⟩⟩ := Option.bind_eq_some_iff.mp hblock
  obtain ⟨xs, rfl⟩ := exists_ids hss
  rw [List.filterMap_map, Function.id_comp, List.filterMap_some] at hfollows ⊢
  obtain ⟨ts, hts, hall⟩ := mapM_follows (fun c hc u hu => by
    obtain ⟨x, hx, rfl⟩ := List.mem_map.mp hc
    exact statementIn_follows (fun y hy => Option.mem_some.mp hy ▸ hfollows x hx)
      (statementIn_some.mpr (readUpTo_succ (statementIn_some.mp hu)))) hss
  have hblocks := improves_congruent.block hall
  exact ⟨s, rfl, fun _ => ⟨ts, hts, (improves_congruent.block (.cons hst .nil)).trans ((Improves.splice ss).trans hblocks)⟩,
    fun hnone => by simp [hnone] at hi⟩

/-- Where no branch is taken, nothing stands for the `if`, or an empty statement. -/
lemma stands_removed (h : a.Takes target none) {new : NodeId}
    (hrs : place.role ≠ .statement ∧ rs = [] ∨ rs = [new] ∧ b.payload? new = some .emptyStatement) :
    StandsFor (a.readUpTo n) (b.readUpTo n) target place rs := by
  intro r hr
  obtain ⟨m, s, _, rfl, rfl, hs, ⟨⟩⟩ := h.improves hr
  refine ⟨s, rfl, ?_⟩
  obtain ⟨hrole, rfl⟩ | ⟨rfl, hnew⟩ := hrs
  · exact ⟨fun _ => ⟨[], rfl, (improves_congruent.block (.cons hs .nil)).trans .drop⟩,
      fun _ => .inr ⟨hrole, rfl, hs⟩⟩
  · have hread : statementIn (b.readUpTo (m + 1)) (some new) = some .empty :=
      statementIn_some.mpr (by simp [readUpTo, hnew, reading?])
    exact ⟨fun _ => ⟨[.empty], by simp [hread], improves_congruent.block (.cons hs .nil)⟩,
      fun _ => .inl ⟨.empty, hread, hs⟩⟩

end Takes

/-! ### The step -/

/-- What comes for the `if`: nothing or an empty statement, its branch, or the statements of that, if none of them
declares names for a block. -/
inductive Comes (a : Arena) (target : NodeId) (place : Place) (b : Arena) : List NodeId → List NodeId → Prop
  | nothing {new : List NodeId} (h : a.Takes target none)
      (hnew : place.role ≠ .statement ∧ new = [] ∨ new = [a.size] ∧ b.payload? a.size = some .emptyStatement) :
      Comes a target place b [] new
  | branch {k : NodeId} (h : a.Takes target (some k)) : Comes a target place b [k] [k]
  | statements {k : NodeId} {body : List (Option NodeId)} (h : a.Takes target (some k))
      (hbody : a.payload? k = some (.blockStatement body)) (hi : place.index.isSome = true)
      (hfree : a.declaresBlockScoped (body.filterMap id) = false) :
      Comes a target place b (body.filterMap id) (body.filterMap id)

/-- The target, an `if` below the root, gives way to the branch that it takes. -/
def BranchesAt (root target : NodeId) (a b : Arena) : Prop :=
  ∃ p payload place moved new, a.Exchange root target p payload place moved new b ∧
    (place.role.takesStatement = true ∧ payload.kind.isExpression = false) ∧ Comes a target place b moved new

/-- An `if` below the root gives way to the branch that it takes. -/
def Branches (root : NodeId) (a b : Arena) : Prop := ∃ target, BranchesAt root target a b

variable {moved new : List NodeId}

lemma Comes.takes (h : Comes a target place b moved new) : ∃ kept, a.Takes target kept := by
  cases h with
  | nothing h | branch h | statements h => exact ⟨_, h⟩

lemma Comes.kind?_eq (h : Comes a target place b moved new) : a.kind? target = some .ifStatement := by
  obtain ⟨kept, test, consequent, alternate, v, hpayload, -⟩ := h.takes
  rw [Arena.kind?_eq, hpayload]
  rfl

lemma Branches.standing (h : Branches root a b) (hstanding : a.Standing root) : b.Standing root := by
  obtain ⟨target, p, payload, place, moved, new, hexchange, hplace, -⟩ := h
  exact hexchange.standing_after hstanding hplace

lemma Branches.size_le (h : Branches root a b) : a.size ≤ b.size := by
  obtain ⟨target, p, payload, place, moved, new, hexchange, -⟩ := h
  exact hexchange.replaced.size_le

end Arena

end PlainScript
