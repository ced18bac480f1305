import PlainScript.Proofs.Rewrites
import PlainScript.Proofs.Turns

/-! Trees in which literals stand for some nodes. A literal has no children, so what was below such a node is let go, and
everything else is as it was: also the functions around a node that still belongs to the tree. -/
namespace PlainScript

open Relation

namespace Arena

variable {a b c : Arena} {root x y : NodeId} {text : Text} {calls : List NodeId}

/-- The arena with string literals in the places of some nodes. -/
def masked (a : Arena) (text : Text) (calls : List NodeId) : Arena where
  cells := a.cells.mapIdx fun x c =>
    { c with
      payload := if x ∈ calls then .stringLiteral text [] else c.payload
      parent := c.parent.filter (· ∉ calls) }
  root := a.root

@[simp] lemma root_masked : (a.masked text calls).root = a.root := rfl

@[simp] lemma size_masked : (a.masked text calls).size = a.size := Array.size_mapIdx

lemma cell?_masked : (a.masked text calls).cell? x = (a.cell? x).map fun c =>
    { c with
      payload := if x ∈ calls then .stringLiteral text [] else c.payload
      parent := c.parent.filter (· ∉ calls) } := Array.getElem?_mapIdx

lemma payload?_masked : (a.masked text calls).payload? x =
    if x ∈ calls then (a.payload? x).map fun _ => .stringLiteral text [] else a.payload? x := by
  simp only [payload?, cell?_masked, Option.map_map]
  split
  · rfl
  · rfl

lemma parentOf_masked : (a.masked text calls).parentOf x = (a.parentOf x).filter (· ∉ calls) := by
  simp only [parentOf, cell?_masked]
  cases a.cell? x <;> rfl

lemma hasParent_masked : (a.masked text calls).HasParent x y ↔ a.HasParent x y ∧ y ∉ calls := by
  rw [HasParent, parentOf_masked, Option.filter_eq_some_iff]
  simp [HasParent]

lemma parentOf_masked_of_not_mem (hfree : ∀ p, a.HasParent x p → p ∉ calls) :
    (a.masked text calls).parentOf x = a.parentOf x := by
  rw [parentOf_masked]
  cases hp : a.parentOf x with
  | none => rfl
  | some p => simp [Option.filter, hfree p hp]

lemma notes?_masked : (a.masked text calls).notes? = a.notes? := by
  funext x
  simp only [notes?, cell?_masked, Option.map_map]
  rfl

/-- An arena is known by its root and what its nodes are, where they stand and what is noted of them. -/
lemma ext_parts (hroot : a.root = b.root) (hpayload : a.payload? = b.payload?) (hparent : a.parentOf = b.parentOf)
    (hnotes : a.notes? = b.notes?) : a = b := by
  have hcells (x : NodeId) : a.cell? x = b.cell? x := by
    have hp := congrFun hpayload x
    have hq := congrFun hparent x
    have hn := congrFun hnotes x
    simp only [payload?, parentOf, notes?] at hp hq hn
    cases ha : a.cell? x with
    | none =>
      cases hb : b.cell? x with
      | none => rfl
      | some d => simp [ha, hb] at hp
    | some c =>
      cases hb : b.cell? x with
      | none => simp [ha, hb] at hp
      | some d =>
        obtain ⟨⟨_, _, _, _⟩, _⟩ := c
        obtain ⟨⟨_, _, _, _⟩, _⟩ := d
        simp_all
  obtain ⟨cells, r⟩ := a
  obtain ⟨cells', r'⟩ := b
  obtain rfl : r = r' := hroot
  obtain rfl : cells = cells' := Array.ext_getElem? hcells
  rfl

lemma masked_nil : a.masked text [] = a := by
  apply ext_parts root_masked
  · funext x
    simp [payload?_masked]
  · funext x
    rw [parentOf_masked]
    cases a.parentOf x <;> rfl
  · exact notes?_masked

/-- One more of the nodes becomes a literal. -/
lemma Bared.eq_masked (h : (a.masked text calls).Bared x (.stringLiteral text []) c)
    (hnotes : SameNotes (a.masked text calls) c) (hx : x < a.size) : c = a.masked text (calls ++ [x]) := by
  have hroot : c.root = (a.masked text (calls ++ [x])).root := h.kept.root_eq.trans root_masked
  apply ext_parts hroot
  · funext y
    obtain ⟨d, hd⟩ := exists_cell hx
    have hp : a.payload? x = some d.payload := by rw [payload?, hd]; rfl
    rw [h.payload?_eq, payload?_masked]
    by_cases hy : y = x
    · subst hy
      simp [hp]
    · rw [Function.update_of_ne hy, payload?_masked]
      simp [hy]
  · funext y
    rw [h.parentOf_eq, parentOf_masked, parentOf_masked]
    cases hp : a.parentOf y with
    | none => simp
    | some p =>
      by_cases hmem : p ∈ calls <;> by_cases hpx : p = x <;> simp_all [Option.filter]
  · exact hnotes.trans (notes?_masked.trans notes?_masked.symm)

lemma Rooted.way_masked (h : a.Rooted root) (hx : x < a.size) : ReflTransGen (a.masked text calls).HasParent x root ↔
    ReflTransGen a.HasParent x root ∧ ∀ top ∈ calls, ¬ TransGen a.HasParent x top :=
  h.way_of_cut (fun _ _ => hasParent_masked) hx

/-! ### The functions around a node -/

/-- Up from a node above which there is no literal, the same function is met first. -/
lemma Firm.firstFunction_masked (h : Firm a.parentOf a.childIds) {slot : Option NodeId} (hslot : ∀ x ∈ slot, x < a.size)
    (hfree : ∀ x ∈ slot, ∀ top ∈ calls, ¬ ReflTransGen a.HasParent x top) (steps : Nat) :
    (a.masked text calls).firstFunction steps slot = a.firstFunction steps slot := by
  induction steps generalizing slot with
  | zero => cases slot <;> rfl
  | succ steps ih =>
    cases slot with
    | none => rfl
    | some x =>
      have hlt := hslot x rfl
      have hnot : x ∉ calls := fun hmem => hfree x rfl x hmem .refl
      have hfunction : (a.masked text calls).isFunction x = a.isFunction x := by
        rw [isFunction, isFunction, kind?_eq, payload?_masked, if_neg hnot, ← kind?_eq]
      have hparent : (a.masked text calls).parentOf x = a.parentOf x :=
        parentOf_masked_of_not_mem fun p hp hmem => hfree x rfl p hmem (.single hp)
      rw [firstFunction, firstFunction, hfunction, parent_eq_ok (by simpa using hlt), parent_eq_ok hlt, hparent]
      split
      · rfl
      · apply ih
        · exact fun p hp => h.parent_lt hp
        · exact fun p hp top htop hup => hfree x rfl top htop (.head hp hup)

lemma Firm.enclosingFunction_masked (h : Firm a.parentOf a.childIds) (hlt : x < a.size)
    (hfree : ∀ top ∈ calls, ¬ TransGen a.HasParent x top) :
    (a.masked text calls).enclosingFunction x = a.enclosingFunction x := by
  have hparent : (a.masked text calls).parentOf x = a.parentOf x :=
    parentOf_masked_of_not_mem fun p hp hmem => hfree p hmem (.single hp)
  rw [enclosingFunction, enclosingFunction, parent_eq_ok (by simpa using hlt), parent_eq_ok hlt, hparent, size_masked]
  apply h.firstFunction_masked
  · exact fun p hp => h.parent_lt hp
  · exact fun p hp top htop hup => hfree top htop (.head' hp hup)

/-! ### Calls of decoders -/

/-- The node is a call of a decoder, by its name alone. -/
def CallsDecoder (a : Arena) (decoders : TextSet) (x : NodeId) : Prop :=
  ∃ name, a.calleeName? x = some name ∧ decoders.contains name = true

variable {decoders : TextSet}

lemma CallsDecoder.kind?_eq (h : a.CallsDecoder decoders x) : a.kind? x = some .callExpression := by
  obtain ⟨name, hname, -⟩ := h
  rw [calleeName?] at hname
  split at hname
  next hp =>
    rw [Arena.kind?_eq, hp]
    rfl
  next => cases hname

lemma nameIn?_masked (hcalls : ∀ y ∈ calls, a.kind? y = some .callExpression) (slot : Option NodeId) :
    (a.masked text calls).nameIn? slot = a.nameIn? slot := by
  cases slot with
  | none => rfl
  | some y =>
    rw [nameIn?, nameIn?, Option.bind_some, Option.bind_some, payload?_masked]
    split_ifs with hy
    · obtain ⟨p, hp, hkind⟩ := exists_payload (hcalls y hy)
      rw [hp]
      cases p with
      | callExpression => rfl
      | _ => cases hkind
    · rfl

/-- The calls that are left are those that were there. -/
lemma callsDecoder_masked (hcalls : ∀ y ∈ calls, a.kind? y = some .callExpression) :
    (a.masked text calls).CallsDecoder decoders x ↔ a.CallsDecoder decoders x ∧ x ∉ calls := by
  have hcallee : (a.masked text calls).calleeName? x = if x ∈ calls then none else a.calleeName? x := by
    rw [calleeName?, payload?_masked]
    split_ifs with hx
    · cases a.payload? x <;> rfl
    · rw [calleeName?]
      split
      · exact nameIn?_masked hcalls _
      · rfl
  rw [CallsDecoder, hcallee]
  split_ifs with hx <;> simp [CallsDecoder, hx]

end Arena

end PlainScript
