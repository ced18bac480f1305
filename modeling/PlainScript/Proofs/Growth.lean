import PlainScript.Proofs.EditRuns

/-! Edits take no node out of an arena: the number of nodes never falls, whether an edit succeeds or fails. -/
namespace PlainScript.Edit

open Relation

/-- There are at least as many nodes after the edit as before. -/
def Grows {α : Type} (e : Edit α) : Prop := ∀ a : Arena, a.size ≤ (e.after a).size

section Rules

variable {α β : Type} {e : Edit α}

lemma Grows.bind {f : α → Edit β} (h : e.Grows) (hf : ∀ r, (f r).Grows) : (e >>= f).Grows := fun a => by
  have hstart := h a
  unfold after at hstart ⊢
  rw [EStateM.run_bind]
  cases hr : e.run a with
  | ok r b =>
    rw [hr] at hstart
    exact Nat.le_trans hstart (hf r b)
  | error err b =>
    rw [hr] at hstart
    exact hstart

lemma grows_pure {r : α} : (pure r : Edit α).Grows := fun _ => Nat.le_refl _

lemma grows_throw {err : ArenaError} : (throw err : Edit α).Grows := fun _ => Nat.le_refl _

lemma grows_ask {question : Arena → Except ArenaError α} : (ask question).Grows := fun a => by
  unfold after
  cases h : question a <;> simp [ask, EStateM.run, h]

lemma grows_get : (get : Edit Arena).Grows := fun _ => Nat.le_refl _

lemma grows_change {f : Arena → Arena} (h : ∀ a, a.size ≤ (f a).size) : (change f).Grows := h

lemma grows_modify {id : NodeId} {f : Cell → Cell} : (change (·.modify id f)).Grows :=
  grows_change fun a => Nat.le_of_eq (a.size_modify id f).symm

lemma grows_ite {b : Prop} [Decidable b] {e e' : Edit α} (h : e.Grows) (h' : e'.Grows) :
    (if b then e else e').Grows := by
  split
  · exact h
  · exact h'

lemma grows_forIn {xs : List α} {body : α → PUnit → Edit (ForInStep PUnit)} (h : ∀ x, (body x ⟨⟩).Grows) :
    (forIn xs ⟨⟩ body).Grows := by
  induction xs with
  | nil => exact grows_pure
  | cons x rest ih =>
    rw [List.forIn_cons]
    refine (h x).bind fun step => ?_
    cases step with
    | done _ => exact grows_pure
    | yield _ => exact ih

end Rules

lemma grows_setParent {id : NodeId} {parent : Option NodeId} : (setParent id parent).Grows := grows_modify

lemma grows_splice {parent : NodeId} {place : Payload.Place} {rs : List NodeId} :
    (splice parent place rs).Grows := grows_modify

lemma grows_unlink {id : NodeId} : (unlink id).Grows :=
  grows_ask.bind fun _ => grows_ite
    (grows_ask.bind fun _ => grows_splice.bind fun _ => grows_setParent) grows_pure

lemma grows_adoptChildren {id : NodeId} : (adoptChildren id).Grows := by
  refine grows_ask.bind fun _ => Grows.bind (grows_forIn fun child => ?_) fun _ => grows_pure
  refine grows_ask.bind fun _ => grows_ite ?_ ?_
  · exact grows_unlink.bind fun _ => grows_setParent.bind fun _ => grows_pure
  · exact grows_setParent.bind fun _ => grows_pure

lemma grows_add {payload : Payload NodeId} {position : Position} : (add payload position).Grows := by
  refine grows_get.bind fun _ => (grows_change fun a => ?_).bind fun _ =>
    grows_adoptChildren.bind fun _ => grows_pure
  rw [Arena.size_push]
  exact Nat.le_succ _

lemma grows_moveLeading {source target : NodeId} : (moveLeading source target).Grows :=
  grows_ask.bind fun _ => grows_ite
    ((Grows.bind grows_ask fun _ => grows_pure).bind fun _ => grows_modify.bind fun _ => grows_modify)
    grows_pure

lemma grows_replaceData {target : NodeId} {payload : Payload NodeId} : (replaceData target payload).Grows := by
  refine grows_ask.bind fun _ => grows_modify.bind fun _ =>
    (grows_forIn fun old => ?_).bind fun _ => grows_adoptChildren
  refine grows_ite (grows_ask.bind fun _ => grows_ite ?_ grows_pure) grows_pure
  exact grows_setParent.bind fun _ => grows_pure

lemma grows_replaceWith {target replacement : NodeId} : (replaceWith target replacement).Grows :=
  grows_ite (grows_unlink.bind fun _ => grows_ask.bind fun _ => grows_splice.bind fun _ =>
    grows_setParent.bind fun _ => grows_setParent.bind fun _ => grows_moveLeading) grows_pure

lemma grows_replaceWithMany {target : NodeId} {rs : List NodeId} : (replaceWithMany target rs).Grows := by
  unfold replaceWithMany
  refine (grows_forIn fun r => grows_unlink.bind fun _ => grows_pure).bind fun _ => grows_ask.bind fun x => ?_
  extract_lets last
  have hlast (u : PUnit) : (last u).Grows := by
    refine grows_setParent.bind fun _ => ?_
    cases rs with
    | nil => exact grows_pure
    | cons first rest => exact grows_moveLeading
  refine grows_ite ?_ (grows_ite ?_ ?_)
  · exact grows_splice.bind fun _ => (grows_forIn fun r => grows_setParent.bind fun _ => grows_pure).bind hlast
  · exact grows_ask.bind fun _ => grows_add.bind fun _ => grows_splice.bind fun _ => grows_setParent.bind hlast
  · exact grows_ask.bind fun _ => grows_throw.bind hlast

lemma grows_remove {target : NodeId} : (remove target).Grows := by
  refine grows_ask.bind fun (p, place) => ?_
  dsimp only
  split
  · exact grows_ask.bind fun _ => grows_add.bind fun _ => grows_splice.bind fun _ =>
      grows_setParent.bind fun _ => grows_setParent
  · exact grows_ask.bind fun _ => grows_ask.bind fun _ => grows_throw.bind fun _ => grows_setParent
  · exact grows_splice.bind fun _ => grows_setParent

lemma grows_insertAt {anchor inserted : NodeId} {offset : Nat} : (insertAt anchor inserted offset).Grows := by
  refine grows_unlink.bind fun _ => grows_ask.bind fun (p, place) => ?_
  dsimp only
  split
  · exact grows_ask.bind fun _ => grows_throw
  · exact grows_modify.bind fun _ => grows_setParent

lemma Call.grows (call : Call) : call.run.Grows := by
  cases call with
  | add => exact Grows.bind grows_add fun _ => grows_pure
  | replaceData => exact grows_replaceData
  | replaceWith => exact grows_replaceWith
  | replaceWithMany => exact grows_replaceWithMany
  | remove => exact grows_remove
  | insertBefore => exact grows_insertAt
  | insertAfter => exact grows_insertAt

/-- A change of an arena: an edit, or one that leaves slots and parents alone, such as another root, other
comments or another name in a node. -/
inductive Change (a b : Arena) : Prop
  | edit (h : Call.Leads a b)
  | aside (size_eq : b.size = a.size) (parentOf_eq : b.parentOf = a.parentOf) (childIds_eq : b.childIds = a.childIds)

lemma Change.linked {a b : Arena} (h : Change a b) (ha : a.Linked) : b.Linked := by
  cases h with
  | edit h => exact h.linked ha
  | aside _ hparent hkids =>
    rw [Arena.linked_iff_firm] at ha ⊢
    rwa [hparent, hkids]

lemma Change.size_le {a b : Arena} (h : Change a b) : a.size ≤ b.size := by
  cases h with
  | edit h =>
    obtain ⟨call, -, rfl⟩ := h
    exact call.grows a
  | aside hsize _ _ => exact Nat.le_of_eq hsize.symm

/-- From a linked arena, changes lead to linked arenas that still have all its nodes. -/
theorem linked_of_changes {a b : Arena} (h : ReflTransGen Change a b) (ha : a.Linked) :
    b.Linked ∧ a.size ≤ b.size := by
  induction h with
  | refl => exact ⟨ha, Nat.le_refl _⟩
  | tail _ hstep ih => exact ⟨hstep.linked ih.1, Nat.le_trans ih.2 hstep.size_le⟩

end PlainScript.Edit
