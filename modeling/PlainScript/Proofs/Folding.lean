import PlainScript.Proofs.Exchange
import PlainScript.Proofs.Readings

/-! What is read from a tree in which a statement has given way to others. The expressions are the same, and
the statements improve if those that came stand for the one that went. -/
namespace PlainScript

open Relation Statement

/-- The kinds of nodes that statements stand in only as bodies of functions: expressions, the members of literals, and
what a declaration binds. -/
def Kind.isLasting (k : Kind) : Bool := k.isExpression || k == .property || k == .variableDeclarator

/-- A node that holds statements and is no function is not one of these. -/
lemma Payload.not_isLasting {q : Payload NodeId} {role : Role} {slot : Slot NodeId} (hslot : (role, slot) ∈ q.slots)
    (hrole : role.takesStatement = true) (hexpression : q.kind.isExpression = false) : q.kind.isLasting = false := by
  cases q with
  | property | variableDeclarator =>
    obtain heq | heq := List.mem_pair.mp hslot
    all_goals
      cases heq
      cases hrole
  | _ => rw [Kind.isLasting, hexpression]; rfl

namespace Arena.Exchange

variable {a b : Arena} {root target p x : NodeId} {payload : Payload NodeId} {place : Payload.Place}
  {moved new : List NodeId} (h : a.Exchange root target p payload place moved new b)
include h

/-- Nodes that hold no statements are what they were if none of them has lost a child. -/
lemma lasting_kept (hplace : place.role.takesStatement = true ∧ payload.kind.isExpression = false)
    (hopened : ∀ r ∈ moved, ∀ y q, a.parentOf r = some y → a.payload? y = some q → q.kind.isLasting = false)
    {q : Payload NodeId} (hq : a.payload? x = some q) (hlasting : q.kind.isLasting = true) :
    b.payload? x = some q := by
  rw [← hq]
  refine h.replaced.payload?_eq x (lt_size_of_payload? hq) ?_ fun r hr hrx => ?_
  · rintro rfl
    obtain rfl := Option.some.inj (h.payload_eq.symm.trans hq)
    obtain ⟨pre, slot, post, hslots, -⟩ := Payload.slots_splice h.place_eq
    have hslot : (place.role, slot) ∈ payload.slots := by simp [hslots]
    have hnot := Payload.not_isLasting hslot hplace.1 hplace.2
    simp [hnot] at hlasting
  · simp [hopened r hr x q hrx hq] at hlasting

/-- What is read is improved if the nodes that come for the target stand for it. -/
theorem follows (hstands : ∀ n, (∀ x, ¬ a.StaysWith moved target x →
      Follows Improves (a.readUpTo n x) (b.readUpTo n x)) →
      StandsFor (a.readUpTo n) (b.readUpTo n) target place new) (n : Nat) :
    ∀ x, ¬ a.StaysWith moved target x → Follows Improves (a.readUpTo n x) (b.readUpTo n x) := by
  induction n with
  | zero => exact fun _ _ _ => nofun
  | succ n ih =>
    intro x hstays
    cases hx : a.payload? x with
    | none => simp [Follows, readUpTo, hx]
    | some q =>
      have hothers (c : NodeId) (hc : c ∈ q.children) (hct : c ≠ target) :
          Follows Improves (a.readUpTo n c) (b.readUpTo n c) := by
        have hparent : a.parentOf c = some x := h.rooted.firm.mem_iff.mp (childIds_eq hx ▸ hc)
        exact ih c fun hs => hct (stays_of_parent hparent hstays hs)
      by_cases hp : x = p
      · subst hp
        obtain rfl := Option.some.inj (h.payload_eq.symm.trans hx)
        simp only [readUpTo, hx, h.replaced.payload?_place, Option.bind_some]
        exact reading_splice h.place_eq (childIds_eq hx ▸ h.rooted.firm.nodup _) (hstands n ih) hothers
      · rw [readUpTo, readUpTo, h.payload?_of_lt (lt_size_of_payload? hx) hp hstays, hx]
        refine reading_follows_children improves_congruent x q fun c hc => hothers c hc ?_
        rintro rfl
        have hparent : a.parentOf c = some x := h.rooted.firm.mem_iff.mp (childIds_eq hx ▸ hc)
        exact hp (Option.some.inj (hparent.symm.trans h.parent_eq))

end Arena.Exchange

end PlainScript
