import PlainScript.Proofs.Ledger
import PlainScript.Proofs.TakenBranch

/-! The removal of branches that are never taken. Each turn of its walk that counts makes one `if` give way
to the branch that it takes, and none of its edits fails. -/
namespace PlainScript.Pass.Branch

open Relation Arena Edit PlainScript.Action Payload

lemma children_body (body : List (Option NodeId)) : (Payload.blockStatement body).children = body.filterMap id :=
  List.append_nil _

section Edits

variable {a : Arena} {root target p k : NodeId} {payload : Payload NodeId} {place : Place}
  (hrooted : a.Rooted root) (hat : a.At root target p payload place)
  (hplace : place.role.takesStatement = true ∧ payload.kind.isExpression = false)
include hrooted hat hplace

lemma remove_branches (htakes : a.Takes target none) :
    (remove target).Ensures a (fun _ b => BranchesAt root target a b) fun _ => False := by
  have hrole : place.role ≠ .expression := fun h => by simpa [h, Role.takesStatement] using hplace.1
  refine (remove_exchanges hrooted hat hrole).mono ?_ fun _ => id
  rintro _ b ⟨new, hexchange, hnew⟩
  exact ⟨p, payload, place, [], new, hexchange, hplace, .nothing htakes (hnew.imp_right And.right)⟩

lemma replaceWith_branches (htakes : a.Takes target (some k)) :
    (replaceWith target k).Ensures a (fun _ b => BranchesAt root target a b) fun _ => False :=
  (replaceWith_exchanges hrooted hat (htakes.parentOf_eq hrooted.firm rfl) .refl).mono
    (fun _ _ hexchange => ⟨p, payload, place, [k], [k], hexchange, hplace, .branch htakes⟩) fun _ => id

omit hrooted hat hplace in
lemma spliced?_eq_some {statements : List NodeId} (h : spliced? a target k = some statements) :
    ∃ body, a.payload? k = some (.blockStatement body) ∧ body.filterMap id = statements ∧
      a.inStatementList target = true ∧ a.declaresBlockScoped statements = false := by
  unfold spliced? at h
  split at h
  next body hbody =>
    dsimp only at h
    split_ifs at h with hc
    obtain rfl := Option.some.inj h
    exact ⟨body, hbody, rfl, by simpa using hc⟩
  next => cases h

omit hrooted hat hplace in
/-- The statements that are spliced are the children of the block. -/
lemma mem_spliced_iff (hfirm : Firm a.parentOf a.childIds) {statements : List NodeId}
    (hspliced : spliced? a target k = some statements) {r : NodeId} : r ∈ statements ↔ a.parentOf r = some k := by
  obtain ⟨body, hbody, rfl, -⟩ := spliced?_eq_some hspliced
  rw [← hfirm.mem_iff, childIds_eq hbody, children_body]

omit hplace in
lemma replaceWithMany_splices (hk : a.parentOf k = some target) {statements : List NodeId}
    (hspliced : spliced? a target k = some statements) :
    (replaceWithMany target statements).Ensures a
      (fun _ b => a.Exchange root target p payload place statements statements b) fun _ => False := by
  have hparent (r : NodeId) := mem_spliced_iff hrooted.firm hspliced (r := r)
  have hself : k ∉ statements := fun hm => hrooted.firm.acyclic k (.single ((hparent k).mp hm))
  obtain ⟨body, hbody, rfl, hlist, -⟩ := spliced?_eq_some hspliced
  have hnodup : (body.filterMap id).Nodup := by
    rw [← children_body, ← childIds_eq hbody]
    exact hrooted.firm.nodup k
  exact replaceWithMany_exchanges hrooted hat (hat.isSome_index hlist) hnodup
    fun r hr => ⟨k, (hparent r).mp hr, .single ⟨hk, hself⟩⟩

lemma replaceWithMany_branches (htakes : a.Takes target (some k)) {statements : List NodeId}
    (hspliced : spliced? a target k = some statements) :
    (replaceWithMany target statements).Ensures a (fun _ b => BranchesAt root target a b) fun _ => False := by
  have hk : a.parentOf k = some target := htakes.parentOf_eq hrooted.firm rfl
  refine (replaceWithMany_splices hrooted hat hk hspliced).mono (fun _ b hexchange => ?_) fun _ => id
  obtain ⟨body, hbody, rfl, hlist, hfree⟩ := spliced?_eq_some hspliced
  exact ⟨p, payload, place, _, _, hexchange, hplace, .statements htakes hbody (hat.isSome_index hlist) hfree⟩

end Edits

variable {s : Run} {root target : NodeId} {kept : Option NodeId}

lemma keep_branches (hstanding : s.arena.Standing root) (hif : s.arena.kind? target = some .ifStatement)
    (hway : ReflTransGen s.arena.HasParent target root) (htakes : s.arena.Takes target kept) :
    (keep target kept).Yields s fun _ s' =>
      BranchesAt root target s.arena s'.arena ∧ s' = { s with arena := s'.arena } := by
  obtain ⟨p, payload, place, hat, hplace⟩ := hstanding.exists_at hif rfl hway
  have hrooted := hstanding.toRooted
  cases kept with
  | none => exact yields_edit (remove_branches hrooted hat hplace htakes) fun _ _ h => ⟨h, rfl⟩
  | some k =>
    refine yields_bind (yields_arena ?_)
    cases hspliced : spliced? s.arena target k with
    | none => exact yields_edit (replaceWith_branches hrooted hat hplace htakes) fun _ _ h => ⟨h, rfl⟩
    | some statements =>
      exact yields_edit (replaceWithMany_branches hrooted hat hplace htakes hspliced) fun _ _ h => ⟨h, rfl⟩

/-- The counter of the branches that tests of one value take. -/
def counter (v : Bool) : Text := if v then "true_branches" else "false_branches"

lemma counter_plain (v : Bool) : counter v ≠ "applied" ∧ '.'.toUInt8 ∉ counter v := by cases v <;> decide

/-- An `if` on a literal gives way and is counted, and any other stays. -/
lemma takeBranch_turn (hstanding : s.arena.Standing root) (hif : s.arena.kind? target = some .ifStatement)
    (hway : ReflTransGen s.arena.HasParent target root) (folded : Nat) :
    (takeBranch target folded).Yields s fun folded' s' =>
      ((∀ v, ¬ s.arena.Tests target v) ∧ folded' = folded ∧ s' = s) ∨
      ∃ v, s.arena.Tests target v ∧ folded' = folded + 1 ∧ BranchesAt root target s.arena s'.arena ∧ Quiet s s' ∧
        s'.counters = s.counters.update (counter v) 0 (· + 1) := by
  refine yields_bind (yields_arena ?_)
  dsimp only
  split
  next test consequent alternate hpayload =>
    cases hv : s.arena.literalBoolean? test with
    | none =>
      refine yields_pure _ (.inl ⟨fun v => ?_, rfl, rfl⟩)
      rintro ⟨test', consequent', alternate', hpayload', hv'⟩
      cases hpayload.symm.trans hpayload'
      cases hv.symm.trans hv'
    | some v =>
      have htakes : s.arena.Takes target (if v then consequent else alternate) :=
        ⟨test, consequent, alternate, v, hpayload, hv, rfl⟩
      have hkeep (log : Array Log.Entry) :
          (keep target (if v then consequent else alternate)).Yields { s with log } fun _ s' =>
            BranchesAt root target s.arena s'.arena ∧ Quiet s s' ∧ s'.counters = s.counters := by
        refine (keep_branches (s := { s with log }) hstanding hif hway htakes).mono fun _ s' ⟨hbranches, hs'⟩ => ?_
        rw [hs']
        exact ⟨hbranches, .of_eq rfl rfl rfl, rfl⟩
      refine yields_bind ((yields_line (lt_size_of_kind? hif)).mono fun text s₁ hs => ?_)
      obtain rfl := hs
      refine yields_bind (yields_modify _ (yields_bind ?_))
      refine (hkeep _).mono fun _ s' ⟨hbranches, hquiet, hcounters⟩ => yields_bind (yields_modify _ ?_)
      refine yields_pure _ (.inr ⟨v, ⟨test, consequent, alternate, hpayload, hv⟩, rfl, hbranches, ?_, ?_⟩)
      · exact hquiet.trans (.count (counter_plain v) 1 s')
      · exact hcounters ▸ rfl
  next hnot => exact yields_pure _ (.inl ⟨fun v ⟨test, consequent, alternate, hpayload, _⟩ =>
      hnot test consequent alternate hpayload, rfl, rfl⟩)

lemma takeBranch_counts (hstanding : s.arena.Standing root) (hif : s.arena.kind? target = some .ifStatement)
    (hway : ReflTransGen s.arena.HasParent target root) (folded : Nat) :
    (takeBranch target folded).Yields s fun folded' s' => Counts (Branches root) Quiet s folded s' folded' := by
  refine (takeBranch_turn hstanding hif hway folded).mono fun folded' s' h => ?_
  obtain ⟨-, rfl, rfl⟩ | ⟨v, -, rfl, hbranches, hquiet, -⟩ := h
  · exact ⟨.inl ⟨rfl, rfl⟩, .refl s'⟩
  · exact ⟨.inr ⟨rfl, target, hbranches⟩, hquiet⟩

/-- The pass does not fail, and it counts the steps that it takes. -/
theorem transform_counts (hstanding : s.arena.Standing root) :
    transform.Yields s fun _ s' => ∃ n, InSteps (Branches root) n s.arena s'.arena ∧ Ledger name s n s' := by
  refine yields_bind ((walkKind_counts id (fun _ h => h.toRooted) (fun _ _ ha h => ⟨h.standing ha, h.size_le⟩)
    Quiet.refl (fun _ _ _ => .trans) (fun s folded id h hway hif => takeBranch_counts h hif hway folded)
    hstanding rfl).mono fun folded s₁ h => ?_)
  obtain ⟨-, hsteps, hquiet⟩ := h
  exact conclude_counts rfl hsteps hquiet ..

end PlainScript.Pass.Branch
