import PlainScript.Idiom.Escape
import PlainScript.Proofs.Exchange

/-! Nodes that become expressions without children. The children that such a node had are let go, and
everything else stays as it is. -/
namespace PlainScript

open Relation Function

namespace Arena

/-- The target has become a node without children. -/
structure Bared (a : Arena) (target : NodeId) (leaf : Payload NodeId) (b : Arena) : Prop where
  firm : Firm b.parentOf b.childIds
  kept : Kept a.size a b
  size_eq : b.size = a.size
  payload?_eq : b.payload? = update a.payload? target (some leaf)
  parentOf_eq : ∀ c, b.parentOf c = if a.parentOf c = some target then none else a.parentOf c

namespace SameNotes

variable {a b : Arena} {x : NodeId}

/-- A node that keeps its parent is the same but for what it is now. -/
lemma cell?_eq (h : SameNotes a b) {payload : Payload NodeId} (hpayload : b.payload? x = some payload)
    (hparent : b.parentOf x = a.parentOf x) : b.cell? x = (a.cell? x).map fun c => { c with payload } := by
  have hnotes := congrFun h x
  obtain ⟨c, hc, rfl⟩ := Option.map_eq_some_iff.mp hpayload
  simp only [notes?, hc, Option.map_some] at hnotes
  obtain ⟨d, hd, heq⟩ := Option.map_eq_some_iff.mp hnotes.symm
  simp only [Prod.mk.injEq] at heq
  simp only [parentOf, hc, hd, Option.bind_some] at hparent
  obtain ⟨⟨_, _, _, _⟩, _⟩ := c
  simp_all

end SameNotes

end Arena

namespace Edit

open Arena

variable {a : Arena} {target : NodeId} {leaf : Payload NodeId}

lemma replaceData_bares (h : Firm a.parentOf a.childIds) (ht : target < a.size) (hleaf : leaf.children = []) :
    (replaceData target leaf).Ensures a (fun _ b => a.Bared target leaf b) fun _ => False := by
  refine ensures_of_kept a.size (replaceData_ensures h ht (by simp [hleaf]) (by simp [hleaf]) (by simp [hleaf]))
    (Kept.rewires _).replaceData ?_
  unfold replaceData
  obtain ⟨cell, hcell⟩ := exists_cell ht
  refine ensures_bind (ensures_askChildren ht (ensures_bind (ensures_changePayload (fun _ => leaf)
    (show a.payload? target = some cell.payload by simp [payload?, hcell]) fun b₁ hs₁ hp₁ hk₁ => ?_)))
  -- The children that are still to come have their parent, the others have lost theirs.
  refine ensures_bind ((ensures_forIn (fun rest b => rest <:+ a.childIds target ∧ b.size = a.size ∧
    b.payload? = b₁.payload? ∧
    ∀ c, b.parentOf c = if c ∈ a.childIds target ∧ c ∉ rest then none else a.parentOf c) ?_ ?_).mono ?_ fun _ => id)
  · rintro old rest b ⟨hsuffix, hs, hk, hp⟩
    have hold : a.parentOf old = some target := h.mem_iff.mp (hsuffix.subset (by simp))
    have hnodup : old ∉ rest := (List.nodup_cons.mp (hsuffix.sublist.nodup (h.nodup target))).1
    have hlt : old < b.size := hs ▸ lt_size_of_parentOf hold
    rw [if_pos (by simp [hleaf])]
    refine ensures_bind (ensures_askParent hlt ?_)
    rw [if_pos (by simp [hp, hold])]
    refine ensures_bind (ensures_setParent hlt fun d hsd hpd hkd => ensures_pure ⟨rfl, ?_⟩)
    refine ⟨(List.suffix_cons old rest).trans hsuffix, hsd.trans hs, hkd.trans hk, fun c => ?_⟩
    rw [hpd]
    by_cases hc : c = old
    · subst hc
      rw [update_self, if_pos ⟨hsuffix.subset (by simp), hnodup⟩]
    · simp [hc, hp]
  · exact ⟨List.suffix_rfl, hs₁, rfl, fun c => by simp [hp₁]⟩
  · rintro _ b ⟨-, hs, hk, hp⟩
    refine ensures_bind (ensures_askChildren (by rw [hs]; exact ht) ?_)
    rw [childIds_update (hk.trans hk₁), update_self, hleaf]
    refine ensures_pure fun hfirm hkept => ⟨hfirm, hkept, hs, hk.trans hk₁, fun c => ?_⟩
    simp [hp, h.mem_iff]

lemma setPayload_bares (h : Firm a.parentOf a.childIds) {q : Payload NodeId} (hq : a.payload? target = some q)
    (hchildless : q.children = []) (hleaf : leaf.children = []) :
    (setPayload target leaf).Ensures a (fun _ b => a.Bared target leaf b) fun _ => False := by
  have hkeeps : (setPayload target leaf).Preserves (Kept a.size) := (Kept.rewires _).setPayload
  have hset : (setPayload target leaf).Ensures a (fun _ b => b.size = a.size ∧ b.parentOf = a.parentOf ∧
      b.payload? = update a.payload? target (some leaf)) fun _ => False :=
    ensures_changePayload (fun _ => leaf) hq fun b hs hp hk => ⟨hs, hp, hk⟩
  refine ((hkeeps a).and hset).mono (fun _ b hb => ?_) fun _ hb => hb.2
  obtain ⟨hkept, hs, hp, hk⟩ := hb
  have hkids : b.childIds = a.childIds := by
    rw [childIds_update hk, hleaf]
    funext x
    by_cases hx : x = target
    · subst hx; simp [childIds, hq, hchildless]
    · simp [hx]
  refine ⟨by rwa [hp, hkids], hkept, hs, hk, fun c => ?_⟩
  rw [hp, if_neg]
  intro hc
  simpa [childIds, hq, hchildless] using h.mem_iff.mpr hc

end Edit

namespace Arena

/-- The kinds of expressions that give way to a literal or a name. -/
def withering : List Kind := [.callExpression, .binaryExpression, .stringLiteral]

/-- The kinds of what is left of them. -/
def withered : List Kind := [.identifier, .numericLiteral, .stringLiteral]

lemma children_of_withered {leaf : Payload NodeId} (h : leaf.kind ∈ withered) : leaf.children = [] := by
  cases leaf with
  | identifier | numericLiteral | stringLiteral => rfl
  | _ => simp [withered, Payload.kind] at h

/-- What a call, an operation or a string gives way to. A string is only spelled anew, and no directive is. -/
inductive Gives (a : Arena) (target : NodeId) : Payload NodeId → Payload NodeId → Prop
  | name {callee : Option NodeId} {arguments : List (Option NodeId)} {isOptional : Bool} (name : Text) :
    Gives a target (.callExpression callee arguments isOptional) (.identifier name)
  | placeholder {callee : Option NodeId} {arguments : List (Option NodeId)} {isOptional : Bool} (value : Text) :
    Gives a target (.callExpression callee arguments isOptional) (.stringLiteral value [])
  | value {op : Text} {left right : Option NodeId} (value : Float) :
    Gives a target (.binaryExpression op left right) (.numericLiteral value [] false)
  | spelling {value raw : Text} (hdirective : a.isDirective target = false) :
    Gives a target (.stringLiteral value raw) (.stringLiteral value (unescape raw))

lemma Gives.kind_mem {a : Arena} {target : NodeId} {q leaf : Payload NodeId} (h : a.Gives target q leaf) :
    q.kind ∈ withering ∧ leaf.kind ∈ withered := by
  cases h <;> exact ⟨List.mem_of_elem_eq_true rfl, List.mem_of_elem_eq_true rfl⟩

/-- An expression of a kind, below the root, becomes a literal or a name. -/
def WithersFrom (k : Kind) (root : NodeId) (a b : Arena) : Prop :=
  ∃ target q leaf, ReflTransGen a.HasParent target root ∧ a.payload? target = some q ∧ q.kind = k ∧
    a.Gives target q leaf ∧ a.Bared target leaf b

/-- An expression below the root becomes a literal or a name. -/
def Withers (root : NodeId) (a b : Arena) : Prop := ∃ k, WithersFrom k root a b

variable {a b : Arena} {root target x : NodeId} {leaf : Payload NodeId}

lemma exists_call (h : a.kind? x = some .callExpression) :
    ∃ callee arguments isOptional, a.payload? x = some (.callExpression callee arguments isOptional) := by
  obtain ⟨q, hq, hkind⟩ := exists_payload h
  cases q with
  | callExpression callee arguments isOptional => exact ⟨callee, arguments, isOptional, hq⟩
  | _ => cases hkind

namespace Bared

variable (h : a.Bared target leaf b)
include h

lemma hasParent_iff {c p : NodeId} : b.HasParent c p ↔ a.HasParent c p ∧ p ≠ target := by
  rw [HasParent, HasParent, h.parentOf_eq]
  split_ifs with hc
  · simp [hc, eq_comm]
  · exact ⟨fun hp => ⟨hp, fun heq => hc (heq ▸ hp)⟩, And.left⟩

/-- What is below the root now was so before. -/
lemma attached_before (hx : ReflTransGen b.HasParent x root) : ReflTransGen a.HasParent x root :=
  ReflTransGen.mono (fun _ _ hcp => (h.hasParent_iff.mp hcp).1) _ _ hx

lemma payload?_of_ne (hx : x ≠ target) : b.payload? x = a.payload? x := by rw [h.payload?_eq, update_of_ne hx]

lemma payload?_target : b.payload? target = some leaf := by rw [h.payload?_eq, update_self]

lemma rooted_after (hrooted : a.Rooted root) : b.Rooted root where
  firm := h.firm
  root_eq := h.kept.root_eq.trans hrooted.root_eq
  root_lt := h.size_eq ▸ hrooted.root_lt
  parentOf_root := by simp [h.parentOf_eq, hrooted.parentOf_root]

end Bared

lemma Withers.size_le (h : Withers root a b) : a.size ≤ b.size := by
  obtain ⟨k, target, q, leaf, -, -, -, -, h⟩ := h
  exact Nat.le_of_eq h.size_eq.symm

lemma Withers.standing (h : Withers root a b) (hstanding : a.Standing root) : b.Standing root := by
  obtain ⟨k, target, q, leaf, hway, hq, -, hgives, h⟩ := h
  obtain ⟨hkind, hleaf⟩ := hgives.kind_mem
  have hne : root ≠ target := by
    rintro rfl
    have hprogram := hstanding.isProgram
    rw [kind?_eq, hq] at hprogram
    simp_all [withering]
  refine ⟨⟨h.rooted_after hstanding.toRooted, ?_⟩, ?_⟩
  · rw [kind?_eq, h.payload?_of_ne hne, ← kind?_eq, hstanding.isProgram]
  · intro x p hx hp role slot hslot c hc
    have hchild : c ∈ p.children := List.mem_flatMap.mpr ⟨_, hslot, hc⟩
    by_cases hxt : x = target
    · subst hxt
      obtain rfl := Option.some.inj (h.payload?_target.symm.trans hp)
      simp [children_of_withered hleaf] at hchild
    · rw [h.payload?_of_ne hxt] at hp
      by_cases hct : c = target
      -- What has become an expression may stand anywhere.
      · refine ⟨leaf.kind, by rw [kind?_eq, hct, h.payload?_target]; rfl, fun hplain => ?_⟩
        have hnot : ∀ k ∈ withered, k.isPlainStatement = false := by decide
        simp [hnot _ hleaf] at hplain
      · obtain ⟨k, hk, hhosts⟩ := hstanding.hosts x p (h.attached_before hx) hp role slot hslot c hc
        exact ⟨k, by rwa [kind?_eq, h.payload?_of_ne hct, ← kind?_eq], hhosts⟩

end Arena

end PlainScript
