import PlainScript.Proofs.EditLinks

/-! Runs of edits. A call of an edit names existing nodes, none of them twice, and puts no node below
itself; it may fail, and then the arena is what the edit leaves behind. From a linked arena only linked
arenas are reached. -/
namespace PlainScript

open Relation Function

namespace Arena

lemma mem_slotIds {a : Arena} {c : NodeId} : c ∈ a.slotIds ↔ ∃ p, c ∈ a.childIds p := by
  simp only [slotIds, List.mem_flatMap, childIds, payload?, cell?]
  constructor
  · rintro ⟨cell, hcell, hc⟩
    obtain ⟨p, hp⟩ := List.mem_iff_getElem?.mp hcell
    exact ⟨p, by simpa [← Array.getElem?_toList, hp] using hc⟩
  · rintro ⟨p, hc⟩
    cases hp : a.cells[p]? with
    | none => simp [hp] at hc
    | some cell =>
      exact ⟨cell, by simpa using Array.mem_of_getElem? hp, by simpa [hp] using hc⟩

lemma childIds_getElem {a : Arena} {p : NodeId} (h : p < a.cells.toList.length) :
    a.childIds p = a.cells.toList[p].payload.children := by
  simp at h
  simp [childIds, payload?, cell?, h]

theorem linked_iff_firm {a : Arena} : a.Linked ↔ Firm a.parentOf a.childIds := by
  constructor
  · intro h
    refine ⟨fun p => ?_, fun p c hc => .inl ?_, fun p c hc => .inl ?_, h.acyclic⟩
    · by_cases hp : p < a.size
      · rw [childIds_getElem (by simpa using show p < a.cells.size from hp)]
        exact (List.nodup_flatMap.mp h.slots_nodup).1 _ (List.getElem_mem _)
      · simp [childIds_of_size_le (Nat.not_lt.mp hp)]
    · exact (h.parent_iff c (h.child_exists c (mem_slotIds.mpr ⟨p, hc⟩)) p).mpr hc
    · exact (h.parent_iff c (lt_size_of_parentOf hc) p).mp hc
  · intro h
    refine ⟨fun c hc => ?_, List.nodup_flatMap.mpr ⟨fun cell hcell => ?_, ?_⟩,
      fun c _ p => h.mem_iff.symm, h.acyclic⟩
    · obtain ⟨p, hp⟩ := mem_slotIds.mp hc
      exact lt_size_of_parentOf (h.mem_iff.mp hp)
    · obtain ⟨p, hp, rfl⟩ := List.mem_iff_getElem.mp hcell
      exact childIds_getElem hp ▸ h.nodup p
    · apply List.pairwise_iff_getElem.mpr
      intro i j hi hj hij c hci hcj
      have hpi := h.mem_iff.mp ((childIds_getElem hi).symm ▸ hci : c ∈ a.childIds i)
      have hpj := h.mem_iff.mp ((childIds_getElem hj).symm ▸ hcj : c ∈ a.childIds j)
      exact Nat.ne_of_lt hij (Option.some.inj (hpi.symm.trans hpj))

end Arena

namespace Edit

inductive Call
  | add (payload : Payload NodeId) (position : Position)
  | replaceData (target : NodeId) (payload : Payload NodeId)
  | replaceWith (target replacement : NodeId)
  | replaceWithMany (target : NodeId) (replacements : List NodeId)
  | remove (target : NodeId)
  | insertBefore (anchor inserted : NodeId)
  | insertAfter (anchor inserted : NodeId)

namespace Call

def run : Call → Edit Unit
  | add payload position => discard (Edit.add payload position)
  | replaceData target payload => Edit.replaceData target payload
  | replaceWith target replacement => Edit.replaceWith target replacement
  | replaceWithMany target replacements => Edit.replaceWithMany target replacements
  | remove target => Edit.remove target
  | insertBefore anchor inserted => Edit.insertBefore anchor inserted
  | insertAfter anchor inserted => Edit.insertAfter anchor inserted

/-- The nodes that the call names exist and differ, and none of those that are put somewhere is
above the place where it is put. -/
def Admissible (a : Arena) : Call → Prop
  | add payload _ => (∀ c ∈ payload.children, c < a.size) ∧ payload.children.Nodup
  | replaceData target payload =>
    target < a.size ∧ (∀ c ∈ payload.children, c < a.size) ∧ payload.children.Nodup ∧
      ∀ c ∈ payload.children, c ≠ target ∧ ¬ TransGen a.HasParent target c
  | replaceWith target replacement =>
    target < a.size ∧ replacement < a.size ∧ ¬ TransGen a.HasParent target replacement
  | replaceWithMany target replacements =>
    target < a.size ∧ (∀ r ∈ replacements, r < a.size) ∧ replacements.Nodup ∧
      ∀ r ∈ replacements, ¬ TransGen a.HasParent target r
  | remove target => target < a.size
  | insertBefore anchor inserted | insertAfter anchor inserted =>
    anchor < a.size ∧ inserted < a.size ∧ ¬ TransGen a.HasParent anchor inserted

/-- An admissible call leads from the first arena to the second one, whether it succeeds or fails. -/
def Leads (a b : Arena) : Prop := ∃ call : Call, call.Admissible a ∧ call.run.after a = b

lemma Leads.linked {a b : Arena} (h : Leads a b) (ha : a.Linked) : b.Linked := by
  obtain ⟨call, hcall, rfl⟩ := h
  rw [Arena.linked_iff_firm] at ha ⊢
  cases call with
  | add payload position =>
    exact (ensures_bind ((add_ensures position ha hcall.1 hcall.2).mono
      (fun _ _ hb => ensures_pure hb.2.1) fun _ => id)).after
  | replaceData target payload =>
    obtain ⟨ht, hexists, hnodup, habove⟩ := hcall
    refine (replaceData_ensures ha ht hexists hnodup fun c hc hup => ?_).after
    rcases reflTransGen_iff_eq_or_transGen.mp hup with heq | hup
    · exact (habove c hc).1 heq
    · exact (habove c hc).2 hup
  | replaceWith target replacement =>
    exact (replaceWith_ensures ha hcall.1 hcall.2.1 hcall.2.2).after
  | replaceWithMany target replacements =>
    obtain ⟨ht, hr, hnodup, habove⟩ := hcall
    exact (replaceWithMany_ensures ha ht hr hnodup habove).after
  | remove target => exact (remove_ensures ha hcall).after
  | insertBefore anchor inserted =>
    exact (insertAt_ensures ha hcall.1 hcall.2.1 hcall.2.2).after
  | insertAfter anchor inserted =>
    exact (insertAt_ensures ha hcall.1 hcall.2.1 hcall.2.2).after

end Call

end Edit

end PlainScript
