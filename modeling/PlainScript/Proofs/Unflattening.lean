import PlainScript.Pass.Dispatch
import PlainScript.Proofs.Ledger

/-! The restoring of flattened loops. Each turn of the walk that counts makes a loop give way to the statements
of its cases, as they are or in a block, and a turn that refuses to does nothing but say so. -/
namespace PlainScript

open Relation

namespace Arena

variable {a b : Arena} {root loop dispatch block x : NodeId}

/-- The loop runs a block that begins with the `switch`. -/
structure Flattened (a : Arena) (loop dispatch block : NodeId) : Prop where
  loop_eq : (∃ test, a.payload? loop = some (.whileStatement test (some block))) ∨
    ∃ init test update, a.payload? loop = some (.forStatement init test update (some block))
  block_eq : ∃ rest, a.payload? block = some (.blockStatement (some dispatch :: rest))
  dispatch_eq : ∃ discriminant cases, a.payload? dispatch = some (.switchStatement discriminant cases)

lemma exists_flattened (h : a.dispatch? loop = some dispatch) : ∃ block, a.Flattened loop dispatch block := by
  unfold dispatch? at h
  split at h
  · cases h
  · obtain ⟨block, hloop, h⟩ := Option.bind_eq_some_iff.mp h
    obtain ⟨payload, hblock, h⟩ := Option.bind_eq_some_iff.mp h
    unfold loopBody? at hloop
    obtain ⟨p, hp, hbody⟩ := Option.bind_eq_some_iff.mp hloop
    split at h
    next first rest =>
      obtain ⟨hswitch, rfl⟩ : a.isKind .switchStatement first = true ∧ first = dispatch := by
        split_ifs at h with hswitch
        exact ⟨hswitch, Option.some.inj h⟩
      refine ⟨block, ?_, ⟨rest, hblock⟩, ?_⟩
      · split at hbody
        next test body => exact .inl ⟨test, hbody ▸ hp⟩
        next init test update body => exact .inr ⟨init, test, update, hbody ▸ hp⟩
        next => cases hbody
      · have hkind : a.kind? first = some .switchStatement := by simpa [isKind] using hswitch
        rw [kind?_eq] at hkind
        obtain ⟨q, hq, hk⟩ := Option.map_eq_some_iff.mp hkind
        cases q with
        | switchStatement discriminant cases => exact ⟨discriminant, cases, hq⟩
        | _ => cases hk
    next => cases h

namespace Flattened

variable (h : a.Flattened loop dispatch block) (hfirm : Firm a.parentOf a.childIds)
include h hfirm

lemma block_parent : a.parentOf block = some loop := by
  refine hfirm.mem_iff.mp ?_
  obtain ⟨test, hp⟩ | ⟨init, test, update, hp⟩ := h.loop_eq
  · rw [childIds_eq hp]
    exact List.mem_flatMap.mpr ⟨_, .tail _ (.head _), .head _⟩
  · rw [childIds_eq hp]
    exact List.mem_flatMap.mpr ⟨_, .tail _ (.tail _ (.tail _ (.head _))), .head _⟩

lemma dispatch_parent : a.parentOf dispatch = some block := by
  obtain ⟨rest, hp⟩ := h.block_eq
  exact hfirm.mem_iff.mp (childIds_eq hp ▸ List.mem_flatMap.mpr ⟨_, .head _, .head _⟩)

omit hfirm in
lemma loop_kind : ∃ k, a.kind? loop = some k ∧ k.isLoop = true := by
  obtain ⟨test, hp⟩ | ⟨init, test, update, hp⟩ := h.loop_eq <;> exact ⟨_, by rw [kind?_eq, hp]; rfl, rfl⟩

end Flattened

lemma caseStatements_sublist (a : Arena) (c : NodeId) : (a.caseStatements c).Sublist (a.childIds c) := by
  unfold caseStatements
  split
  next test consequent hp =>
    have hbody : (consequent.filterMap fun s => s).Sublist (a.childIds c) := by
      rw [childIds_eq hp]
      show List.Sublist _ (test.toList ++ (consequent.filterMap id ++ []))
      rw [List.append_nil]
      exact List.sublist_append_right ..
    dsimp only
    split
    · exact (List.dropLast_sublist _).trans hbody
    · exact hbody
  next => exact List.nil_sublist _

lemma mem_caseStatements {c : NodeId} (hx : x ∈ a.caseStatements c) : ∃ test consequent,
    a.payload? c = some (.switchCase test consequent) ∧ some x ∈ consequent := by
  unfold caseStatements at hx
  split at hx
  next test consequent hp =>
    refine ⟨test, consequent, hp, ?_⟩
    dsimp only at hx
    split at hx
    · simpa using List.dropLast_subset _ hx
    · simpa using hx
  next => cases hx

lemma cases_sublist (a : Arena) (dispatch : NodeId) : (a.cases dispatch).Sublist (a.childIds dispatch) := by
  unfold cases
  split
  next discriminant cases hp =>
    rw [childIds_eq hp]
    show List.Sublist _ (discriminant.toList ++ (cases.filterMap id ++ []))
    rw [List.append_nil]
    exact List.sublist_append_right ..
  next => exact List.nil_sublist _

lemma nodup_mergedCases (hfirm : Firm a.parentOf a.childIds) : (a.mergedCases dispatch).Nodup := by
  have hcases := (cases_sublist a dispatch).nodup (hfirm.nodup dispatch)
  refine List.nodup_flatMap.mpr ⟨fun c _ => (caseStatements_sublist a c).nodup (hfirm.nodup c), hcases.imp ?_⟩
  intro c c' hne x hx hx'
  have hc := hfirm.mem_iff.mp ((caseStatements_sublist a c).subset hx)
  have hc' := hfirm.mem_iff.mp ((caseStatements_sublist a c').subset hx')
  exact hne (Option.some.inj (hc.symm.trans hc'))

lemma parentOf_mergedCases (hfirm : Firm a.parentOf a.childIds) (hx : x ∈ a.mergedCases dispatch) :
    ∃ c, a.parentOf x = some c ∧ a.parentOf c = some dispatch := by
  obtain ⟨c, hc, hx⟩ := List.mem_flatMap.mp hx
  exact ⟨c, hfirm.mem_iff.mp ((caseStatements_sublist a c).subset hx),
    hfirm.mem_iff.mp ((cases_sublist a dispatch).subset hc)⟩

/-- What is merged comes from below the loop, and nothing on the way is merged itself. -/
lemma mergedCases_taken (hfirm : Firm a.parentOf a.childIds) (h : a.Flattened loop dispatch block) {r : NodeId}
    (hr : r ∈ a.mergedCases dispatch) :
    ∃ q, a.parentOf r = some q ∧ a.StaysWith (a.mergedCases dispatch) loop q := by
  have hnot {x : NodeId} (hx : ReflTransGen a.HasParent dispatch x) : x ∉ a.mergedCases dispatch := fun hm => by
    obtain ⟨c, hxc, hc⟩ := parentOf_mergedCases hfirm hm
    exact hfirm.acyclic dispatch (TransGen.trans_right hx (.head hxc (.single hc)))
  obtain ⟨c, hrc, hc⟩ := parentOf_mergedCases hfirm hr
  have hdispatch := h.dispatch_parent hfirm
  have hcase : c ∉ a.mergedCases dispatch := fun hm => by
    obtain ⟨c', hcc', hc'⟩ := parentOf_mergedCases hfirm hm
    obtain rfl := Option.some.inj (hc.symm.trans hcc')
    exact hfirm.acyclic dispatch (.single hc')
  refine ⟨c, hrc, .head ⟨hc, hcase⟩ (.head ⟨hdispatch, hnot .refl⟩ (.single ⟨h.block_parent hfirm, ?_⟩))⟩
  exact hnot (.single hdispatch)

/-- A loop below the root gives way to the statements of its cases, in a list or in a block, which they get if they
declare names for it. No jump among these would leave the loop. -/
def Merges (root : NodeId) (a b : Arena) : Prop :=
  ∃ loop dispatch block p payload place new, a.Flattened loop dispatch block ∧
    a.Exchange root loop p payload place (a.mergedCases dispatch) new b ∧
    a.escapingJumps (a.mergedCases dispatch) (a.loopLabels loop) = 0 ∧
    (new = a.mergedCases dispatch ∧ place.index.isSome = true ∨
      new = [a.size] ∧ b.payload? a.size = some (.blockStatement ((a.mergedCases dispatch).map some))) ∧
    (a.declaresBlockScoped (a.mergedCases dispatch) = true → new = [a.size])

lemma Merges.size_le (h : Merges root a b) : a.size ≤ b.size := by
  obtain ⟨loop, dispatch, block, p, payload, place, new, -, hexchange, -⟩ := h
  exact hexchange.replaced.size_le

lemma Merges.scripted (h : Merges root a b) (hscripted : a.Scripted root) : b.Scripted root := by
  obtain ⟨loop, dispatch, block, p, payload, place, new, -, hexchange, -⟩ := h
  exact hexchange.scripted_after hscripted

lemma Merges.standing (h : Merges root a b) (hstanding : a.Standing root) : b.Standing root := by
  obtain ⟨loop, dispatch, block, p, payload, place, new, hflat, hexchange, -⟩ := h
  obtain ⟨k, hk, hloop⟩ := hflat.loop_kind
  exact hexchange.standing_after hstanding (hstanding.takesStatement hk (Kind.isPlainStatement_of_isLoop hloop) hexchange.toAt)

end Arena

namespace Pass.Dispatch

open Arena Edit PlainScript.Action

variable {s : Run} {root loop dispatch block p : NodeId} {payload : Payload NodeId} {place : Payload.Place}

lemma unfold_merges (hrooted : s.arena.Rooted root) (hat : s.arena.At root loop p payload place)
    (hflat : s.arena.Flattened loop dispatch block)
    (hjumps : s.arena.escapingJumps (s.arena.mergedCases dispatch) (s.arena.loopLabels loop) = 0) :
    (unfold loop (s.arena.mergedCases dispatch)).Yields s fun _ s' => Merges root s.arena s'.arena ∧ Quiet s s' := by
  have hnodup : (s.arena.mergedCases dispatch).Nodup := nodup_mergedCases hrooted.firm
  have htaken := fun r hr => mergedCases_taken hrooted.firm hflat (r := r) hr
  refine yields_bind (yields_arena ?_)
  dsimp only
  split
  next hlist =>
    obtain ⟨hlist, hfree⟩ := Bool.and_eq_true_iff.mp hlist
    have hi := hat.isSome_index hlist
    refine yields_edit (replaceWithMany_exchanges hrooted hat hi hnodup htaken) fun _ b hb => ⟨?_, .of_eq rfl rfl rfl⟩
    exact ⟨loop, dispatch, block, p, payload, place, _, hflat, hb, hjumps, .inl ⟨rfl, hi⟩, fun h => by simp [h] at hfree⟩
  next =>
    obtain ⟨cell, hcell⟩ := exists_cell hat.target_lt
    refine yields_bind ⟨cell, s, by simp [Action.ask, Arena.cell, hcell], ?_⟩
    refine yields_edit (replaceWith_block_exchanges hrooted hat hnodup htaken _) fun _ b hb => ⟨?_, .of_eq rfl rfl rfl⟩
    exact ⟨loop, dispatch, block, p, payload, place, _, hflat, hb.1, hjumps, .inr ⟨rfl, hb.2⟩, fun _ => rfl⟩

/-- A loop is restored, or refused or passed by, and then the tree stays as it is. -/
lemma restoreLoop_turns (hscripted : s.arena.Scripted root) {k : Kind} (hk : s.arena.kind? loop = some k)
    (hloop : k.isLoop = true) (hway : ReflTransGen s.arena.HasParent loop root) (t : Tally) :
    (restoreLoop loop t).Yields s fun t' s' => Counts (Merges root) Quiet s t.restored s' t'.restored := by
  have hne : loop ≠ root := by
    rintro rfl
    obtain rfl := Option.some.inj (hscripted.isProgram.symm.trans hk)
    cases hloop
  obtain ⟨p, payload, place, hat⟩ := hscripted.toRooted.exists_at hway hne
  have hsame : Counts (Merges root) Quiet s t.restored s t.restored := ⟨.inl ⟨rfl, rfl⟩, .refl s⟩
  refine yields_bind ⟨s, s, rfl, ?_⟩
  dsimp only
  cases hdispatch : s.arena.dispatch? loop with
  | none => exact yields_pure _ hsame
  | some dispatch =>
    obtain ⟨block, hflat⟩ := exists_flattened hdispatch
    refine yields_bind ((yields_line hat.target_lt).mono fun text s₁ hs => ?_)
    subst hs
    cases hrefusal : refusal? s₁.arena s₁.printing loop (s₁.arena.mergedCases dispatch) with
    | some refusal =>
      exact yields_bind (yields_modify _ (yields_bind (yields_modify _ (yields_pure _
        ⟨.inl ⟨rfl, rfl⟩, .of_eq rfl rfl rfl⟩))))
    | none =>
      have hjumps : s₁.arena.escapingJumps (s₁.arena.mergedCases dispatch) (s₁.arena.loopLabels loop) = 0 := by
        unfold refusal? at hrefusal
        dsimp only at hrefusal
        split_ifs at hrefusal with h
        exact Nat.eq_zero_of_not_pos h
      have hunfold (counters : Table Int) := unfold_merges (s := { s₁ with counters }) hscripted.toRooted hat hflat hjumps
      refine yields_bind (yields_modify _ (yields_bind ((hunfold _).mono fun _ s' hs' => ?_)))
      have hquiet := (Quiet.count (by decide) _ s₁).trans hs'.2
      exact yields_bind (yields_modify _ (yields_pure _ ⟨.inr ⟨rfl, hs'.1⟩, hquiet.trans (.of_eq rfl rfl rfl)⟩))

/-- The pass does not fail, and it counts the loops that it restores. -/
theorem transform_counts (hscripted : s.arena.Scripted root) :
    transform.Yields s fun _ s' => ∃ n, InSteps (Merges root) n s.arena s'.arena ∧ Ledger name s n s' := by
  refine yields_bind ((walk_counts (P := (Scripted · root)) (fun t : Tally => t.restored)
    (fun _ h => h.toRooted) (fun _ _ ha (h : Merges root _ _) => ⟨h.scripted ha, h.size_le⟩) Quiet.refl (fun _ _ _ => .trans) ?_
    hscripted rfl).mono fun t s₁ h => ?_)
  · intro s t loop k handle hs hway hk hhandler
    split_ifs at hhandler with hloop
    obtain rfl := Option.some.inj hhandler
    exact restoreLoop_turns hs hk (by cases k <;> simp_all [Kind.isLoop]) hway t
  · obtain ⟨-, hsteps, hquiet⟩ := h
    exact yields_aside hsteps hquiet (idle_count (by decide)) fun _ _ hsteps hquiet => conclude_counts rfl hsteps hquiet ..

end Pass.Dispatch

end PlainScript
