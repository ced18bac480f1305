import PlainScript.Proofs.Hoisting
import PlainScript.Proofs.JumpTargets

/-! Declarations whose names belong to the block that they stand in. What such a declaration declares is in scope below
its parent, so that a step keeps the scope if it keeps the parent. The statements of a block or of a case are only
spliced if there is no such declaration among them, but the branch of an `if` takes the place of the `if` also if it is
one itself. -/
namespace PlainScript

open Relation

namespace Arena

variable {a b c : Arena} {root target p x y : NodeId} {payload : Payload NodeId} {place : Payload.Place}
  {moved new : List NodeId} {n : Nat}

lemma isBlockScoped_eq_some (h : a.isBlockScoped x = true) : ∃ q, a.payload? x = some q := by
  unfold isBlockScoped at h
  split at h
  next hq => exact ⟨_, hq⟩
  next hq => exact ⟨_, hq⟩
  next hq => exact ⟨_, hq⟩
  next => cases h

lemma lt_size_of_isBlockScoped (h : a.isBlockScoped x = true) : x < a.size :=
  have ⟨_, hq⟩ := isBlockScoped_eq_some h
  lt_size_of_payload? hq

lemma isBlockScoped_of_mem {ids : List NodeId} (hx : x ∈ ids) (h : a.isBlockScoped x = true) :
    a.declaresBlockScoped ids = true := List.any_eq_true.mpr ⟨x, hx, h⟩

/-- A statement that comes or goes below a declaration leaves it a declaration. -/
lemma Exchange.isBlockScoped_eq (h : a.Exchange root target p payload place moved new b) (hx : x < a.size)
    (hstays : ¬ a.StaysWith moved target x) : b.isBlockScoped x = a.isBlockScoped x := by
  by_cases hp : x = p
  · rw [hp, isBlockScoped, isBlockScoped, h.replaced.payload?_place, h.payload_eq, Payload.splice]
    cases place.index <;> cases payload <;> rfl
  · rw [isBlockScoped, isBlockScoped, h.payload?_of_lt hx hp hstays]

/-! ### Branches -/

/-- The node is the branch that an `if` with a known test takes. -/
def IsTaken (a : Arena) (x : NodeId) : Prop := ∃ y, a.parentOf x = some y ∧ a.Takes y (some x)

lemma Comes.stays_of_goes (hcomes : Comes a target place b moved new) (hfirm : Firm a.parentOf a.childIds)
    (hx : a.Goes target moved x) : a.StaysWith moved target x := by
  obtain rfl | ⟨htakes, hmoved⟩ := hx
  · exact .refl
  · exact .single ⟨htakes.parentOf_eq hfirm rfl, hmoved⟩

lemma Branches.attached_before (h : Branches root a b) (hlt : x < a.size) (hway : ReflTransGen b.HasParent x root) :
    ReflTransGen a.HasParent x root := by
  obtain ⟨target, p, payload, place, moved, new, hexchange, -⟩ := h
  exact hexchange.attached_before hway hlt

/-- A declaration that is left keeps its parent where an `if` gives way, unless it comes in the place of the `if`. -/
lemma Branches.keeps_scope (h : Branches root a b) (hscoped : a.isBlockScoped x = true)
    (hway : ReflTransGen b.HasParent x root) :
    b.isBlockScoped x = true ∧ (a.IsTaken x ∨ b.parentOf x = a.parentOf x ∧ (b.IsTaken x → a.IsTaken x)) := by
  obtain ⟨target, p, payload, place, moved, new, hexchange, ⟨hrole, -⟩, hcomes⟩ := h
  have hfirm := hexchange.rooted.firm
  have hlt := lt_size_of_isBlockScoped hscoped
  have hstays : ¬ a.StaysWith moved target x := fun hs => hexchange.not_attached hs hway
  refine ⟨(hexchange.isBlockScoped_eq hlt hstays).trans hscoped, ?_⟩
  by_cases hmoved : x ∈ moved
  · cases hcomes with
    | nothing => cases hmoved
    | branch htakes =>
      obtain rfl := List.mem_singleton.mp hmoved
      exact .inl ⟨target, htakes.parentOf_eq hfirm rfl, htakes⟩
    | statements _ _ _ hfree => cases hfree.symm.trans (isBlockScoped_of_mem hmoved hscoped)
  · have hparent := hexchange.parentOf_of_not_stays hlt hmoved hstays
    refine .inr ⟨hparent, fun ⟨y, hy, htakes⟩ => ?_⟩
    have hy' : a.parentOf x = some y := hparent.symm.trans hy
    -- The `if` is left in the tree with the declaration, and what it took is either that or what came for it.
    have hgoes : ¬ a.Goes target moved y := fun hgoes =>
      hexchange.not_attached (hcomes.stays_of_goes hfirm hgoes) (hexchange.rooted_after.attached_of_way hway (.single hy))
    obtain ⟨kept, htook, ⟨rfl, -⟩ | ⟨-, -, hhead⟩⟩ :=
      hexchange.takes_before hcomes hrole (hfirm.parent_lt hy') hgoes htakes
    · exact ⟨y, hy', htook⟩
    · exact absurd (hexchange.mem_moved_of_new (List.mem_of_mem_head? hhead.symm) hlt) hmoved

/-- After any number of steps a declaration that is left has the parent that it had, unless it was the branch that an
`if` takes. -/
lemma branches_keep_scope (h : InSteps (Branches root) n a b) (hscoped : a.isBlockScoped x = true)
    (hway : ReflTransGen b.HasParent x root) : a.IsTaken x ∨ b.parentOf x = a.parentOf x := by
  have hlt := lt_size_of_isBlockScoped hscoped
  suffices hall : b.isBlockScoped x = true ∧
      (a.IsTaken x ∨ b.parentOf x = a.parentOf x ∧ (b.IsTaken x → a.IsTaken x)) from hall.2.imp_right And.left
  induction h with
  | zero => exact ⟨hscoped, .inr ⟨rfl, id⟩⟩
  | succ hsteps hstep ih =>
    have hlt' := hsteps.keeps (P := fun b => x < b.size) (fun _ _ hlt hb => Nat.lt_of_lt_of_le hlt hb.size_le) hlt
    obtain ⟨hscoped', hkeeps⟩ := ih hscoped (hstep.attached_before hlt' hway) hlt
    obtain ⟨hscoped'', hkeeps'⟩ := hstep.keeps_scope hscoped' hway
    refine ⟨hscoped'', hkeeps.elim .inl fun ⟨hparent, htaken⟩ => ?_⟩
    exact hkeeps'.imp htaken fun ⟨hparent', htaken'⟩ => ⟨hparent'.trans hparent, htaken ∘ htaken'⟩

/-! ### Flattened loops -/

/-- The node stands in a block that is new, and it stood in a case of a `switch`. -/
structure Enclosed (a b : Arena) (x : NodeId) : Prop where
  case_eq : ∃ y, a.parentOf x = some y ∧ a.kind? y = some .switchCase
  block_eq : ∃ y, b.parentOf x = some y ∧ b.kind? y = some .blockStatement ∧ a.size ≤ y

lemma Merges.attached_before (h : Merges root a b) (hlt : x < a.size) (hway : ReflTransGen b.HasParent x root) :
    ReflTransGen a.HasParent x root := by
  obtain ⟨loop, dispatch, block, p, payload, place, new, -, hexchange, -⟩ := h
  exact hexchange.attached_before hway hlt

/-- The node stands where it stood, and what is around it is of the same kind. -/
def StandsStill (a b : Arena) (x : NodeId) : Prop :=
  b.parentOf x = a.parentOf x ∧ ∀ y, a.parentOf x = some y → b.kind? y = a.kind? y

/-- A declaration that is left stands still where a loop gives way, unless it comes from a case and gets a block. -/
lemma Merges.keeps_scope (h : Merges root a b) (hscoped : a.isBlockScoped x = true)
    (hway : ReflTransGen b.HasParent x root) :
    b.isBlockScoped x = true ∧ (StandsStill a b x ∨ Enclosed a b x) := by
  obtain ⟨loop, dispatch, block, p, payload, place, new, -, hexchange, -, hnew, hblock⟩ := h
  have hfirm := hexchange.rooted.firm
  have hlt := lt_size_of_isBlockScoped hscoped
  have hstays : ¬ a.StaysWith (a.mergedCases dispatch) loop x := fun hs => hexchange.not_attached hs hway
  refine ⟨(hexchange.isBlockScoped_eq hlt hstays).trans hscoped, ?_⟩
  by_cases hmoved : x ∈ a.mergedCases dispatch
  · obtain rfl := hblock (isBlockScoped_of_mem hmoved hscoped)
    obtain ⟨y, hy, hcase, -⟩ := exists_case hfirm hmoved
    refine .inr ⟨⟨y, hy, hcase⟩, a.size, parentOf_merged hexchange hmoved, ?_, Nat.le_refl _⟩
    obtain ⟨hold, -⟩ | ⟨-, hpayload⟩ := hnew
    · exact absurd (hexchange.moved_lt (hold ▸ List.mem_singleton_self a.size)) (Nat.lt_irrefl _)
    · exact kind?_block hpayload
  · refine .inl ⟨hexchange.parentOf_of_not_stays hlt hmoved hstays, fun y hy => ?_⟩
    exact hexchange.kind?_of_lt (hfirm.parent_lt hy) (Exchange.parent_not_stays hy hmoved hstays)

/-- After any number of steps a declaration that is left stands still, or it has come from a case to a new block, which
it does not leave again. -/
lemma merges_keep_scope (h : InSteps (Merges root) n a b) (hscoped : a.isBlockScoped x = true)
    (hway : ReflTransGen b.HasParent x root) : StandsStill a b x ∨ Enclosed a b x := by
  have hlt := lt_size_of_isBlockScoped hscoped
  suffices hall : b.isBlockScoped x = true ∧ (StandsStill a b x ∨ Enclosed a b x) from hall.2
  induction h with
  | zero => exact ⟨hscoped, .inl ⟨rfl, fun _ _ => rfl⟩⟩
  | @succ n a b c hsteps hstep ih =>
    have hsize : a.size ≤ b.size :=
      hsteps.keeps (P := fun b => a.size ≤ b.size) (fun _ _ hle hb => Nat.le_trans hle hb.size_le) (Nat.le_refl _)
    obtain ⟨hscoped', hkeeps⟩ := ih hscoped (hstep.attached_before (Nat.lt_of_lt_of_le hlt hsize) hway) hlt
    obtain ⟨hscoped'', hkeeps'⟩ := hstep.keeps_scope hscoped' hway
    refine ⟨hscoped'', ?_⟩
    obtain ⟨hparent, hkind⟩ | ⟨hcase, y, hy, hblock, hnew⟩ := hkeeps <;>
      obtain ⟨hparent', hkind'⟩ | ⟨⟨y', hy', hcase'⟩, z, hz, hblock', hnew'⟩ := hkeeps'
    · exact .inl ⟨hparent'.trans hparent, fun y hy => (hkind' y (hparent.trans hy)).trans (hkind y hy)⟩
    · have hy'' := hparent.symm.trans hy'
      exact .inr ⟨⟨y', hy'', (hkind y' hy'').symm.trans hcase'⟩, z, hz, hblock', Nat.le_trans hsize hnew'⟩
    · exact .inr ⟨hcase, y, hparent'.trans hy, (hkind' y hy).trans hblock, hnew⟩
    · obtain rfl := Option.some.inj (hy.symm.trans hy')
      cases hblock.symm.trans hcase'

end Arena

/-! ### The passes -/

namespace Pass

open Arena

variable {s : Run} {root : NodeId}

/-- Where constant branches go, a declaration that is left keeps its parent, unless it is itself the branch that an `if`
takes. -/
theorem Branch.transform_keeps_scopes (hstanding : s.arena.Standing root) :
    Branch.transform.Yields s fun _ s' => ∀ x, s.arena.isBlockScoped x = true →
      ReflTransGen s'.arena.HasParent x root → s.arena.IsTaken x ∨ s'.arena.parentOf x = s.arena.parentOf x :=
  (Branch.transform_counts hstanding).mono fun _ _ ⟨_, hsteps, _⟩ _ hscoped hway =>
    branches_keep_scope hsteps hscoped hway

/-- A function that is itself the branch comes to the scope around its `if`, where its name may be declared already. -/
theorem Branch.transform_moves_function :
    Branch.Turns "let f = 1; if (true) function f() \x7b\x7d" "let f = 1;\nfunction f() \x7b\x7d" :=
  Branch.turns_of_run (exists_of_parse (by decide +kernel))

/-- Where loops are restored, a declaration that is left keeps its parent, or it comes from a case of a `switch` to a
block that the pass has made. -/
theorem Dispatch.transform_keeps_scopes (hscripted : s.arena.Scripted root) :
    Dispatch.transform.Yields s fun _ s' => ∀ x, s.arena.isBlockScoped x = true →
      ReflTransGen s'.arena.HasParent x root → StandsStill s.arena s'.arena x ∨ Enclosed s.arena s'.arena x :=
  (Dispatch.transform_counts hscripted).mono fun _ _ ⟨_, hsteps, _⟩ _ hscoped hway =>
    merges_keep_scope hsteps hscoped hway

end Pass

end PlainScript
