import PlainScript.Proofs.Directives
import PlainScript.Proofs.Settled

/-! Strings whose escapes are resolved. The pass for strings leaves none to resolve in what is not a directive, and no
step of a pass brings one back: strings that are new have no spelling of their own, and directives stay directives. -/
namespace PlainScript

open Relation

namespace Arena

variable {a b : Arena} {root target x : NodeId} {value raw : Text}

/-- The strings in the tree are spelled as strings, or not spelled yet. -/
def StringsSpelled (a : Arena) (root : NodeId) : Prop := ∀ x value raw, ReflTransGen a.HasParent x root →
  a.payload? x = some (.stringLiteral value raw) → raw = [] ∨ ∃ value', SpellsString raw value'

/-- The node is no string in the tree with an escape to resolve, unless it is a directive. -/
def IsResolved (a : Arena) (root x : NodeId) : Prop := ∀ value raw, ReflTransGen a.HasParent x root →
  a.payload? x = some (.stringLiteral value raw) → a.isDirective x = true ∨ unescape raw = raw

/-- Where statements give way, strings are what they were. -/
lemma Exchange.string_before {p : NodeId} {payload : Payload NodeId} {place : Payload.Place} {moved new : List NodeId}
    (h : a.Exchange root target p payload place moved new b) (hway : ReflTransGen b.HasParent x root)
    (hx : b.payload? x = some (.stringLiteral value raw)) :
    ReflTransGen a.HasParent x root ∧ a.payload? x = some (.stringLiteral value raw) := by
  have hk : b.kind? x = some .stringLiteral := by rw [kind?_eq, hx]; rfl
  have hlt : x < a.size := by
    by_contra hle
    obtain hblock | hempty := h.kind?_new (Nat.not_lt.mp hle) hk
    · cases hblock
    · cases hempty
  have hstays : ¬ a.StaysWith moved target x := fun hs => h.not_attached hs hway
  have hne : x ≠ p := by
    rintro rfl
    rw [h.kind?_of_lt hlt hstays] at hk
    obtain ⟨q, hq, hkind⟩ := exists_payload hk
    have hchild : target ∈ q.children := childIds_eq hq ▸ h.rooted.firm.mem_iff.mpr h.parent_eq
    cases q <;> cases hkind
    cases hchild
  exact ⟨h.attached_before hway hlt, by rw [← h.payload?_of_lt hlt hne hstays, hx]⟩

namespace Rewrites

variable (h : Rewrites root a b)
include h

/-- A string is as it was before a step, or new, or its escapes have been resolved. -/
lemma string_before (hway : ReflTransGen b.HasParent x root) (hx : b.payload? x = some (.stringLiteral value raw)) :
    raw = [] ∨ ReflTransGen a.HasParent x root ∧ ∃ raw₀, a.payload? x = some (.stringLiteral value raw₀) ∧
      (raw = raw₀ ∨ raw = unescape raw₀) := by
  have hkept (hbefore : ReflTransGen a.HasParent x root ∧ a.payload? x = some (.stringLiteral value raw)) :
      raw = [] ∨ ReflTransGen a.HasParent x root ∧ ∃ raw₀, a.payload? x = some (.stringLiteral value raw₀) ∧
        (raw = raw₀ ∨ raw = unescape raw₀) :=
    .inr ⟨hbefore.1, raw, hbefore.2, .inl rfl⟩
  cases h with
  | branch h =>
    obtain ⟨target, p, payload, place, moved, new, hexchange, -⟩ := h
    exact hkept (hexchange.string_before hway hx)
  | merge h =>
    obtain ⟨loop, dispatch, block, p, payload, place, new, -, hexchange, -⟩ := h
    exact hkept (hexchange.string_before hway hx)
  | removal h =>
    obtain ⟨target, -, p, payload, place, new, hexchange, -⟩ := h
    exact hkept (hexchange.string_before hway hx)
  | leaf h =>
    obtain ⟨k, target, q, leaf, -, hq, -, hgives, hbared⟩ := h
    by_cases hne : x = target
    · subst hne
      obtain rfl := Option.some.inj (hbared.payload?_target.symm.trans hx)
      cases hgives with
      | placeholder => exact .inl rfl
      | spelling => exact .inr ⟨hbared.attached_before hway, _, hq, .inr rfl⟩
    · exact hkept ⟨hbared.attached_before hway, by rw [← hbared.payload?_of_ne hne, hx]⟩

lemma stringsSpelled_after (hspelled : a.StringsSpelled root) : b.StringsSpelled root := by
  intro x value raw hway hx
  obtain hnew | ⟨hbefore, raw₀, hx₀, hraw⟩ := h.string_before hway hx
  · exact .inl hnew
  obtain rfl | rfl := hraw
  · exact hspelled x value raw hbefore hx₀
  · obtain rfl | ⟨value', hvalue⟩ := hspelled x value raw₀ hbefore hx₀
    · exact .inl rfl
    · obtain ⟨value'', hvalue', -⟩ := unescape_spells hvalue
      exact .inr ⟨value'', hvalue'⟩

/-- No step of a pass leaves an escape to resolve where there was none. -/
lemma resolved_after (hs : a.Standing root) (hx : a.IsResolved root x) : b.IsResolved root x := by
  intro value raw hway hp
  obtain rfl | ⟨hbefore, raw₀, hp₀, hraw⟩ := h.string_before hway hp
  · exact .inr rfl
  obtain hdirective | hresolved := hx value raw₀ hbefore hp₀
  · exact .inl (h.directive_after hs ⟨by rw [kind?_eq, hp₀]; rfl, hdirective⟩ hway).1.2
  · refine .inr ?_
    obtain rfl | rfl := hraw
    · exact hresolved
    · rw [hresolved, hresolved]

end Rewrites

end Arena

namespace Pass.Escape

open Arena PlainScript.Action

variable {s s' : Run} {root id : NodeId} {done : List NodeId} {n : Nat}

/-- What has been done once these nodes have had their turn. -/
structure Progress (s : Run) (root : NodeId) (done : List NodeId) (s' : Run) : Prop where
  standing : s'.arena.Standing root
  size_le : s.arena.size ≤ s'.arena.size
  attached_before : ∀ x, ReflTransGen s'.arena.HasParent x root → ReflTransGen s.arena.HasParent x root
  spelled : s'.arena.StringsSpelled root
  resolved : ∀ x ∈ done, s'.arena.IsResolved root x

/-- A node that is no string in the tree has nothing to resolve. -/
lemma Progress.pass (h : Progress s root done s')
    (hnot : ReflTransGen s'.arena.HasParent id root → s'.arena.kind? id ≠ some .stringLiteral) :
    Progress s root (done ++ [id]) s' := by
  refine { h with resolved := List.forall_mem_append.mpr ⟨h.resolved, List.forall_mem_singleton.mpr ?_⟩ }
  intro value raw hway hp
  exact absurd (by rw [Arena.kind?_eq, hp]; rfl) (hnot hway)

lemma Progress.turn (h : Progress s root done s') (hway : ReflTransGen s'.arena.HasParent id root) :
    (resolveString id n).Yields s' fun _ s'' => Progress s root (done ++ [id]) s'' := by
  apply (resolveString_turn h.standing.firm n).mono
  rintro n' s'' ⟨-, hturn⟩
  obtain ⟨-, harena, hsettled⟩ | ⟨value, raw, hp, hdirective, hchanged, -, hbared⟩ := hturn
  · have hid : s'.arena.IsResolved root id := by
      intro value raw hway hp
      obtain hnone | hdirective | hresolved := hsettled value raw hp
      · obtain rfl | ⟨value', hspells⟩ := h.spelled id value raw hway hp
        · exact .inr rfl
        · exact .inr (hspells.unescape_eq hnone)
      · exact .inl hdirective
      · exact .inr hresolved
    obtain ⟨hs, hsize, hbefore, hspelled, hdone⟩ := h
    rw [← harena] at hs hsize hbefore hspelled hdone hid
    exact ⟨hs, hsize, hbefore, hspelled, List.forall_mem_append.mpr ⟨hdone, List.forall_mem_singleton.mpr hid⟩⟩
  · have hstep : Rewrites root s'.arena s''.arena :=
      .leaf ⟨_, id, _, _, hway, hp, rfl, .spelling hdirective, hbared⟩
    refine ⟨hstep.standing h.standing, h.size_le.trans hstep.size_le,
      fun x hx => h.attached_before x (hbared.attached_before hx), hstep.stringsSpelled_after h.spelled,
      List.forall_mem_append.mpr ⟨fun x hx => hstep.resolved_after h.standing (h.resolved x hx),
        List.forall_mem_singleton.mpr fun value' raw' _ hp' => .inr ?_⟩⟩
    cases hbared.payload?_target.symm.trans hp'
    obtain rfl | ⟨value'', hspells⟩ := h.spelled id _ raw hway hp
    · exact absurd rfl hchanged
    · exact hspells.unescape_again

end Pass.Escape

end PlainScript
