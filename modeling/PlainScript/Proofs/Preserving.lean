import PlainScript.Proofs.Adoption
import Mathlib.Order.Defs.Unbundled

/-! What edits preserve. A preorder of arenas that holds across the changes of single nodes holds across the whole of
an edit, whether the edit succeeds or fails. -/
namespace PlainScript

namespace Edit

variable {R : Arena → Arena → Prop} {α β : Type}

/-- The arena after the edit, or after what has been done of it, is related to the one before it. -/
def Preserves (R : Arena → Arena → Prop) (e : Edit α) : Prop := ∀ a, e.Ensures a (fun _ => R a) (R a)

section Rules

variable [IsPreorder Arena R]

lemma Preserves.bind {e : Edit α} {f : α → Edit β} (he : e.Preserves R) (hf : ∀ r, (f r).Preserves R) :
    (e >>= f).Preserves R := fun a =>
  ensures_bind ((he a).mono (fun r b hb => (hf r b).mono (fun _ _ => trans_of R hb) fun _ => trans_of R hb)
    fun _ => id)

lemma preserves_pure (r : α) : (pure r : Edit α).Preserves R := fun a => refl_of R a

lemma preserves_throw (e : ArenaError) : (throw e : Edit α).Preserves R := fun a => refl_of R a

lemma preserves_get : (get : Edit Arena).Preserves R := fun a => refl_of R a

lemma preserves_ask (question : Arena → Except ArenaError α) : (ask question).Preserves R := by
  intro a
  cases h : question a with
  | ok r => exact ensures_ask h (refl_of R a)
  | error e =>
    simp only [Ensures, ask, EStateM.run, h]
    exact refl_of R a

omit [IsPreorder Arena R] in
lemma preserves_change {f : Arena → Arena} (hf : ∀ a, R a (f a)) : (change f).Preserves R := hf

omit [IsPreorder Arena R] in
lemma preserves_ite {c : Prop} [Decidable c] {e e' : Edit α} (h : e.Preserves R) (h' : e'.Preserves R) :
    (if c then e else e').Preserves R := by
  split
  · exact h
  · exact h'

lemma preserves_forIn {xs : List α} {body : α → PUnit → Edit (ForInStep PUnit)}
    (h : ∀ x r, (body x r).Preserves R) : (forIn xs ⟨⟩ body).Preserves R := by
  induction xs with
  | nil => exact preserves_pure _
  | cons x rest ih =>
    rw [List.forIn_cons]
    refine (h x _).bind fun r => ?_
    cases r with
    | done _ => exact preserves_pure _
    | yield _ => exact ih

end Rules

/-- Neither a new parent nor a new payload breaks the relation. -/
structure Rewires (R : Arena → Arena → Prop) : Prop where
  parent : ∀ a id parent, R a (a.modify id fun c => { c with parent })
  payload : ∀ a id (f : Payload NodeId → Payload NodeId), R a (a.modify id fun c => { c with payload := f c.payload })

namespace Rewires

variable (h : Rewires R)
include h

lemma setParent {id : NodeId} {parent : Option NodeId} : (setParent id parent).Preserves R :=
  preserves_change fun a => h.parent a id parent

lemma setPayload {id : NodeId} {payload : Payload NodeId} : (setPayload id payload).Preserves R :=
  preserves_change fun a => h.payload a id fun _ => payload

lemma splice {p : NodeId} {place : Payload.Place} {rs : List NodeId} : (splice p place rs).Preserves R :=
  preserves_change fun a => h.payload a p fun payload => payload.splice place rs

variable [IsPreorder Arena R]

lemma unlink {id : NodeId} : (unlink id).Preserves R := by
  refine (preserves_ask _).bind fun _ => preserves_ite ?_ (preserves_pure _)
  exact (preserves_ask _).bind fun _ => .bind h.splice fun _ => h.setParent

lemma adoptChildren {id : NodeId} : (adoptChildren id).Preserves R := by
  have hadopt (child : NodeId) :
      (do Edit.setParent child (some id); pure (ForInStep.yield PUnit.unit)).Preserves R :=
    .bind h.setParent fun _ => preserves_pure _
  refine (preserves_ask _).bind fun _ => .bind (preserves_forIn fun child _ => ?_) fun _ => preserves_pure _
  exact (preserves_ask _).bind fun _ => preserves_ite (.bind h.unlink fun _ => hadopt child) (hadopt child)

lemma replaceData {id : NodeId} {payload : Payload NodeId} : (replaceData id payload).Preserves R := by
  have hnext : (pure (ForInStep.yield PUnit.unit) : Edit _).Preserves R := preserves_pure _
  refine (preserves_ask _).bind fun _ => .bind h.setPayload fun _ =>
    .bind (preserves_forIn fun old _ => ?_) fun _ => h.adoptChildren
  refine preserves_ite ((preserves_ask _).bind fun _ => preserves_ite ?_ hnext) hnext
  exact .bind h.setParent fun _ => hnext

end Rewires

end Edit

end PlainScript
