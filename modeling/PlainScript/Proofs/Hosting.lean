import PlainScript.Proofs.Formed
import PlainScript.Proofs.PlantInduction

/-! Where plain statements stand. In what was read from a text they stand in slots for statements, and never
directly in an expression. -/
namespace PlainScript

open Relation

namespace Payload

variable {α β : Type}

/-- Every child has a kind, and a plain statement stands where any statement may stand, and not in an
expression. -/
def Hosts (kindOf : α → Option Kind) (p : Payload α) : Prop :=
  ∀ role slot, (role, slot) ∈ p.slots → ∀ c ∈ slot.children, ∃ k, kindOf c = some k ∧
    (k.isPlainStatement = true → role.takesStatement = true ∧ p.kind.isExpression = false)

lemma Hosts.mono {kindOf kindOf' : α → Option Kind} {p : Payload α} (h : p.Hosts kindOf)
    (hkind : ∀ c ∈ p.children, ∀ k, kindOf c = some k → kindOf' c = some k) : p.Hosts kindOf' := by
  intro role slot hslot c hc
  obtain ⟨k, hk, hplain⟩ := h role slot hslot c hc
  exact ⟨k, hkind c (List.mem_flatMap.mpr ⟨_, hslot, hc⟩) k hk, hplain⟩

lemma Hosts.transfer {kindOf : α → Option Kind} {kindOf' : β → Option Kind} {p : Payload α} {q : Payload β}
    (h : p.Hosts kindOf) (hkind : q.kind = p.kind)
    (hslots : SameSlots (fun c d => c ∈ p.children → kindOf' d = kindOf c) p.slots q.slots) :
    q.Hosts kindOf' := by
  intro role slot hslot d hd
  obtain ⟨slot', hslot', c, hc, hcd⟩ := hslots.exists_child hslot hd
  obtain ⟨k, hk, hplain⟩ := h role slot' hslot' c hc
  exact ⟨k, (hcd (List.mem_flatMap.mpr ⟨_, hslot', hc⟩)).trans hk, hkind ▸ hplain⟩

end Payload

lemma Tree.Formed.hosts {node : Node Tree} (h : (Tree.mk node).Formed) :
    node.payload.Hosts fun t => some t.kind := by
  obtain ⟨_, hformed, -⟩ := h
  exact fun _ _ hslot _ hc => Payload.kind_of_isFormed hformed hslot hc

lemma Tree.Formed.child {node : Node Tree} (h : (Tree.mk node).Formed) {t : Tree} (ht : t ∈ node.payload.children) :
    t.Formed := by
  obtain ⟨_, -, hchildren⟩ := h
  exact hchildren t ht

namespace Arena

/-- The nodes of a subtree have their children where these may stand. -/
inductive Hosting (a : Arena) : NodeId → Prop
  | mk {id : NodeId} {p : Payload NodeId} (hp : a.payload? id = some p) (hosts : p.Hosts a.kind?)
      (children : ∀ c ∈ p.children, Hosting a c) : Hosting a id

variable {a b : Arena} {id root x : NodeId}

lemma Hosting.extend (h : a.Hosting id) (hab : Extends a b) : b.Hosting id := by
  induction h with
  | mk hp hosts _ ih => exact .mk (hab _ _ hp) (hosts.mono fun _ _ _ => hab.kind?_eq) ih

/-- What is below the top of such a subtree. -/
lemma Hosting.attached (h : a.Hosting root) (hfirm : Firm a.parentOf a.childIds)
    (hx : ReflTransGen a.HasParent x root) : a.Hosting x := by
  induction hx using ReflTransGen.head_induction_on with
  | refl => exact h
  | head hxy _ ih =>
    obtain ⟨hp, -, hchildren⟩ := ih
    exact hchildren _ (childIds_eq hp ▸ hfirm.mem_iff.mpr hxy)

/-- A formed tree becomes a node of its kind. -/
theorem plant_hosting (t : Tree) :
    Sows (fun a t id => t.Formed → a.kind? id = some t.kind ∧ a.Hosting id) t := by
  refine plant_induction
    (fun a b t id hab h ht => ⟨hab.extends.kind?_eq (h ht).1, (h ht).2.extend hab.extends⟩) ?_ t
  intro a node p id hp hkind hslots _ ht
  refine ⟨by rw [kind?_eq, hp, Option.map_some, hkind]; rfl, .mk hp (ht.hosts.transfer hkind ?_) fun c hc => ?_⟩
  · exact hslots.imp fun t c hc ht' => (hc (ht.child ht')).1
  · obtain ⟨⟨role, slot⟩, hslot, hc⟩ := List.mem_flatMap.mp hc
    obtain ⟨slot', hslot', t, ht', htc⟩ := hslots.exists_child hslot hc
    exact (htc (ht.child (List.mem_flatMap.mpr ⟨_, hslot', ht'⟩))).2

end Arena

end PlainScript
