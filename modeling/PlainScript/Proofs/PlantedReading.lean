import PlainScript.Proofs.PlantInduction
import PlainScript.Proofs.Structured

/-! Trees of statements without declarations become nodes that can be read as such statements. -/
namespace PlainScript

variable {α β : Type} {R : α → β → Prop} {P : α → Prop} {Q : β → Prop}

/-- Slots of the same form are filled alike. -/
lemma Slot.Rel.filled {role : Role} {s : Slot α} {t : Slot β} (h : s.Rel R t) (hs : s.Filled role P)
    (hPQ : ∀ c ∈ s.children, ∀ d ∈ t.children, R c d → P c → Q d) : t.Filled role Q := by
  cases h with
  | one h =>
    cases h with
    | none => exact hs
    | some h => exact hPQ _ (by simp [Slot.children]) _ (by simp [Slot.children]) h hs
  | many h =>
    intro d hd
    obtain ⟨c, hc, hcd⟩ := exists_of_forall₂ h hd
    obtain ⟨x, rfl, hx⟩ := hs c hc
    cases hcd with
    | some hxy => exact ⟨_, rfl, hPQ x (by simpa [Slot.children] using hc) _ (by simpa [Slot.children] using hd) hxy hx⟩

namespace Arena

theorem plant_readable (t : Tree) : Sows (fun a t id => t.Formed → t.isStructured = true →
    ∃ r, a.readUpTo (id + 1) id = some r ∧ r.suits t.kind = true) t := by
  refine plant_induction (fun a b t id hab h ht hstructured => ?_) ?_ t
  · obtain ⟨r, hr, hsuits⟩ := h ht hstructured
    exact ⟨r, readUpTo_extends hab.extends hr, hsuits⟩
  · intro a node p id hp hkind hslots hlt ht hstructured
    simp only [readUpTo, hp, Option.bind_some]
    rw [show (Tree.mk node).kind = p.kind from hkind.symm]
    rw [Tree.isStructured_mk, ← hkind, Bool.or_eq_true, Bool.and_eq_true, List.all_eq_true] at hstructured
    obtain hexpression | ⟨hstatement, hchildren⟩ := hstructured
    · exact Payload.reading_of_isExpression id hexpression
    · refine Payload.reading_of_filled id hstatement fun role slot hslot => ?_
      obtain ⟨⟨_, slot'⟩, hslot', rfl, hrel⟩ := exists_of_forall₂ hslots hslot
      have hformed := ht
      obtain ⟨_, hformed, hbelow⟩ := hformed
      refine hrel.filled (Payload.filled_of_isFormed hformed (hkind ▸ hstatement) hchildren hslot')
        fun c hc d hd hread hasks => ?_
      have hc : c ∈ node.payload.children := List.mem_flatMap.mpr ⟨_, hslot', hc⟩
      have hd : d < id := hlt d (List.mem_flatMap.mpr ⟨_, hslot, hd⟩)
      obtain ⟨r, hr, hsuits⟩ := hread (hbelow c hc) (hchildren c hc)
      exact ⟨r, c.kind, readUpTo_mono hd hr, hsuits, hasks⟩

/-- A structured script is read as a statement. -/
theorem ofTree_readable {t : Tree} (h : t.Is (· == .program)) (hstructured : t.isStructured = true) :
    ∃ s, (ofTree t).statement? = some s := by
  obtain ⟨-, hread, hlt⟩ := plant_readable t {}
  obtain ⟨r, hr, hsuits⟩ := hread h.1 hstructured
  have hprogram : t.kind = .program := by simpa using h.2
  rw [hprogram] at hsuits
  have hroot : (ofTree t).readUpTo (ofTree t).size ((plant t).run {}).1 = some r :=
    readUpTo_extends (a := ((plant t).run {}).2) (b := ofTree t) (fun _ _ => id) (readUpTo_mono hlt hr)
  cases r with
  | statement s => exact ⟨s, Option.bind_eq_some_iff.mpr ⟨_, rfl, Option.bind_eq_some_iff.mpr ⟨_, hroot, rfl⟩⟩⟩
  | _ => cases hsuits

end Arena

end PlainScript
