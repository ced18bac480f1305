import PlainScript.Proofs.Preserving

/-! Nodes that leave their slots. What an edit takes out of its place is gone from the slots of its parent, which keep
their order, and everything else is as it was. -/
namespace PlainScript

open Relation Function

variable {α : Type} [DecidableEq α]

/-- A slot without some of its children. -/
def Slot.lacking (gone : List α) : Slot α → Slot α := change (·.filter (· ∉ gone)) (leftMany gone)

namespace Slot

variable {gone more : List α} {slot : Slot α} {y : α}

lemma leftMany_eq_self {cs : List (Option α)} (h : ∀ x ∈ cs.filterMap id, x ∉ gone) : leftMany gone cs = cs := by
  refine List.filter_eq_self.mpr fun c hc => ?_
  cases c with
  | none => rfl
  | some x => simpa using h x (by simpa using hc)

lemma lacking_eq_self (h : ∀ x ∈ slot.children, x ∉ gone) : slot.lacking gone = slot := by
  cases slot with
  | one c => cases c <;> simp_all [lacking, change]
  | many cs => exact congrArg many (leftMany_eq_self h)

lemma lacking_lacking : (slot.lacking gone).lacking more = slot.lacking (gone ++ more) := by
  cases slot with
  | one c => cases c <;> simp [lacking, change, Option.filter_filter]
  | many cs =>
    refine congrArg Slot.many ?_
    rw [leftMany, leftMany, leftMany, List.filter_filter]
    refine List.filter_congr fun c _ => ?_
    cases c <;> simp [Bool.and_comm]

lemma children_lacking : (slot.lacking gone).children = slot.children.filter (· ∉ gone) := by
  cases slot with
  | one c => cases c <;> simp [lacking, change, Option.filter]; split <;> simp_all
  | many cs =>
    induction cs with
    | nil => rfl
    | cons c rest ih => cases c <;> simp_all [lacking, change, leftMany, List.filter_cons]; split <;> simp_all

end Slot

namespace Payload

variable {gone more : List α} {p : Payload α} {y : α}

/-- A payload without some of its children. -/
def lacking (gone : List α) : Payload α → Payload α := mapSlots (fun _ => (·.filter (· ∉ gone))) (Slot.leftMany gone)

lemma slots_lacking (gone : List α) (p : Payload α) :
    (p.lacking gone).slots = p.slots.map fun entry => (entry.1, entry.2.lacking gone) := slots_mapSlots

lemma lacking_eq_self (h : ∀ x ∈ p.children, x ∉ gone) : p.lacking gone = p :=
  mapSlots_eq_self fun entry hentry =>
    Slot.lacking_eq_self fun x hx => h x (List.mem_flatMap.mpr ⟨entry, hentry, hx⟩)

lemma lacking_lacking : (p.lacking gone).lacking more = p.lacking (gone ++ more) := by
  refine ext_slots (hollow_mapSlots.trans (hollow_mapSlots.trans hollow_mapSlots.symm)) ?_
  rw [slots_lacking, slots_lacking, slots_lacking, List.map_map]
  exact List.map_congr_left fun entry _ => by simp only [comp_apply, Slot.lacking_lacking]

lemma children_lacking : (p.lacking gone).children = p.children.filter (· ∉ gone) := by
  rw [children, slots_lacking, List.flatMap_map, children, List.filter_flatMap]
  exact List.flatMap_congr fun entry _ => Slot.children_lacking

/-- To take a child out of its place is to take it out of all slots. -/
lemma splice_eq_lacking {place : Place} (hplace : p.place? y = some place) (hnodup : p.children.Nodup) :
    p.splice place [] = p.lacking [y] := by
  refine splice_eq_mapSlots hplace hnodup (fun _ slot hy => ?_) (by simp [Option.filter]) fun i cs _ hi hcs => ?_
  · exact Slot.lacking_eq_self fun z hz hmem => hy (List.mem_singleton.mp hmem ▸ hz)
  · rw [List.map_nil, List.append_nil, take_append_drop_eq_leftMany hi hcs]

end Payload

namespace Arena

/-- Where a node comes from in the source text, and its comments. -/
def notes? (a : Arena) (x : NodeId) : Option (Position × List Text × List Text) :=
  (a.cell? x).map fun c => (c.position, c.leading, c.trailing)

def leadingOf (a : Arena) (id : NodeId) : List Text := ((a.cell? id).map (·.leading)).getD []

def SameNotes (a b : Arena) : Prop := b.notes? = a.notes?

namespace SameNotes

variable {a b : Arena} {x : NodeId}

instance : IsPreorder Arena SameNotes where
  refl _ := rfl
  trans _ _ _ h h' := h'.trans h

lemma modify {f : Cell → Cell}
    (h : ∀ c, ((f c).position, (f c).leading, (f c).trailing) = (c.position, c.leading, c.trailing)) (a : Arena)
    (id : NodeId) : SameNotes a (a.modify id f) := by
  funext x
  rw [notes?, notes?, cell?_modify]
  split
  · rw [Option.map_map]
    exact congrArg (Option.map · (a.cell? x)) (funext h)
  · rfl

lemma rewires : Edit.Rewires SameNotes where
  parent a id parent := modify (f := fun c => { c with parent }) (fun _ => rfl) a id
  payload a id g := modify (f := fun c => { c with payload := g c.payload }) (fun _ => rfl) a id

end SameNotes

/-- The notes with other leading comments. -/
def notesWith (a : Arena) (leading : NodeId → List Text) (x : NodeId) : Option (Position × List Text × List Text) :=
  (a.notes? x).map fun (position, _, trailing) => (position, leading x, trailing)

/-- Nodes have new parents, payloads and leading comments, and nothing else is new. -/
structure Becomes (a : Arena) (parent : NodeId → Option NodeId) (payload : NodeId → Option (Payload NodeId))
    (leading : NodeId → List Text) (b : Arena) : Prop where
  size_eq : b.size = a.size
  root_eq : b.root = a.root
  parentOf_eq : ∀ x, b.parentOf x = parent x
  payload?_eq : ∀ x, b.payload? x = payload x
  notes?_eq : ∀ x, b.notes? x = a.notesWith leading x

/-- The leading comments are the same, too. -/
abbrev Relinked (a : Arena) (parent : NodeId → Option NodeId) (payload : NodeId → Option (Payload NodeId))
    (b : Arena) : Prop := a.Becomes parent payload a.leadingOf b

def parentWithout (a : Arena) (gone : List NodeId) (x : NodeId) : Option NodeId :=
  if x ∈ gone then none else a.parentOf x

def payloadWithout (a : Arena) (gone : List NodeId) (q : NodeId) : Option (Payload NodeId) :=
  (a.payload? q).map (·.lacking gone)

/-- Some nodes have left their slots. -/
abbrev Released (a : Arena) (gone : List NodeId) (b : Arena) : Prop :=
  a.Relinked (a.parentWithout gone) (a.payloadWithout gone) b

variable {a b c : Arena} {gone more : List NodeId}

lemma notesWith_eq {leading : NodeId → List Text} {x : NodeId} (h : leading x = a.leadingOf x) :
    a.notesWith leading x = a.notes? x := by
  rw [notesWith, h]
  cases hx : a.cell? x <;> simp [notes?, leadingOf, hx]

lemma leadingOf_eq_notes (a : Arena) (x : NodeId) : a.leadingOf x = ((a.notes? x).map (·.2.1)).getD [] := by
  cases hx : a.cell? x <;> simp [leadingOf, notes?, hx]

lemma Becomes.leadingOf_eq {parent : NodeId → Option NodeId} {payload : NodeId → Option (Payload NodeId)}
    {leading : NodeId → List Text} (h : a.Becomes parent payload leading b) {x : NodeId} (hx : x < a.size) :
    b.leadingOf x = leading x := by
  obtain ⟨c, hc⟩ := exists_cell hx
  rw [leadingOf_eq_notes, h.notes?_eq, notesWith]
  simp [notes?, hc]

lemma payloadWithout_eq {q : NodeId} (h : ∀ x ∈ gone, x ∉ a.childIds q) : a.payloadWithout gone q = a.payload? q := by
  cases hq : a.payload? q with
  | none => simp [payloadWithout, hq]
  | some payload =>
    rw [childIds_eq hq] at h
    simpa [payloadWithout, hq] using Payload.lacking_eq_self fun x hx hmem => h x hmem hx

namespace Relinked

variable {parent parent' : NodeId → Option NodeId} {payload payload' : NodeId → Option (Payload NodeId)}

lemma congr (h : a.Relinked parent payload b) (hp : ∀ x, parent x = parent' x) (hk : ∀ x, payload x = payload' x) :
    a.Relinked parent' payload' b :=
  funext hp ▸ funext hk ▸ h

lemma leadingOf_eq (h : a.Relinked parent payload b) : b.leadingOf = a.leadingOf :=
  funext fun x => by rw [leadingOf_eq_notes, h.notes?_eq, notesWith_eq rfl, ← leadingOf_eq_notes]

lemma becomes {leading : NodeId → List Text} (h : a.Relinked parent payload b)
    (h' : b.Becomes parent' payload' leading c) : a.Becomes parent' payload' leading c where
  size_eq := h'.size_eq.trans h.size_eq
  root_eq := h'.root_eq.trans h.root_eq
  parentOf_eq := h'.parentOf_eq
  payload?_eq := h'.payload?_eq
  notes?_eq x := by rw [h'.notes?_eq, notesWith, notesWith, h.notes?_eq, notesWith_eq rfl]

lemma trans (h : a.Relinked parent payload b) (h' : b.Relinked parent' payload' c) :
    a.Relinked parent' payload' c := by
  rw [Relinked, ← h.leadingOf_eq]
  exact h.becomes h'

end Relinked

namespace Released

lemma refl (a : Arena) : a.Released [] a :=
  ⟨rfl, rfl, fun x => by simp [parentWithout], fun q => (payloadWithout_eq (by simp)).symm,
    fun x => (notesWith_eq rfl).symm⟩

lemma append (h : a.Released gone b) (h' : b.Released more c) : a.Released (gone ++ more) c := by
  refine (Relinked.trans h h').congr (fun x => ?_) fun q => ?_
  · rw [parentWithout, parentWithout, h.parentOf_eq, parentWithout]
    by_cases hx : x ∈ more <;> simp [hx]
  · rw [payloadWithout, payloadWithout, h.payload?_eq, payloadWithout, Option.map_map]
    exact Option.map_congr fun payload _ => Payload.lacking_lacking

lemma childIds_eq (h : a.Released gone b) (q : NodeId) : b.childIds q = (a.childIds q).filter (· ∉ gone) := by
  rw [childIds, childIds, h.payload?_eq, payloadWithout]
  cases a.payload? q with
  | none => rfl
  | some payload => exact Payload.children_lacking

lemma parentOf_eq_some_iff (h : a.Released gone b) {x q : NodeId} :
    b.parentOf x = some q ↔ x ∉ gone ∧ a.parentOf x = some q := by
  rw [h.parentOf_eq, parentWithout]
  split <;> simp_all

lemma parentOf_of_mem (h : a.Released gone b) {x : NodeId} (hx : x ∈ gone) : b.parentOf x = none := by
  rw [h.parentOf_eq, parentWithout, if_pos hx]

lemma parentOf_of_notMem (h : a.Released gone b) {x : NodeId} (hx : x ∉ gone) : b.parentOf x = a.parentOf x := by
  rw [h.parentOf_eq, parentWithout, if_neg hx]

lemma way (h : a.Released gone b) (x q : NodeId) (hx : b.parentOf x = some q) : a.parentOf x = some q :=
  (h.parentOf_eq_some_iff.mp hx).2

/-- A node that holds none of those that have left is the same. -/
lemma payload?_of_far (h : a.Released gone b) (ha : Firm a.parentOf a.childIds) {q : NodeId}
    (hfar : ∀ x ∈ gone, a.parentOf x ≠ some q) : b.payload? q = a.payload? q := by
  rw [h.payload?_eq, payloadWithout_eq]
  exact fun x hx hmem => hfar x hx (ha.mem_iff.mp hmem)

lemma firm (h : a.Released gone b) (ha : Firm a.parentOf a.childIds) : Firm b.parentOf b.childIds := by
  have hmem (q x : NodeId) : x ∈ b.childIds q ↔ b.parentOf x = some q := by
    rw [h.childIds_eq, h.parentOf_eq_some_iff, List.mem_filter, ha.mem_iff, and_comm]
    simp
  exact ⟨fun q => h.childIds_eq q ▸ (ha.nodup q).filter _, fun q x hx => .inl ((hmem q x).mp hx),
    fun q x hx => .inl ((hmem q x).mpr hx), fun x hx => ha.acyclic x (TransGen.mono h.way x x hx)⟩

end Released

end Arena

namespace Edit

open Arena

variable {a : Arena} {failed : Arena → Prop}

lemma setParent_relinks {c : NodeId} {p : Option NodeId} (hc : c < a.size) :
    (setParent c p).Ensures a (fun _ b => a.Relinked (update a.parentOf c p) a.payload? b) failed :=
  ensures_change ⟨size_modify .., rfl, congrFun (parentOf_setParent hc p), congrFun (payload?_setParent a c p),
    fun x => (congrFun (SameNotes.rewires.parent a c p) x).trans (notesWith_eq rfl).symm⟩

lemma changePayload_relinks {p : NodeId} {payload : Payload NodeId} (f : Payload NodeId → Payload NodeId)
    (hp : a.payload? p = some payload) :
    (change (·.modify p fun c => { c with payload := f c.payload })).Ensures a
      (fun _ b => a.Relinked a.parentOf (update a.payload? p (some (f payload))) b) failed :=
  ensures_change ⟨size_modify .., rfl, congrFun (parentOf_modifyPayload a p f), congrFun (payload?_modifyPayload hp f),
    fun x => (congrFun (SameNotes.rewires.payload a p f) x).trans (notesWith_eq rfl).symm⟩

/-- A node leaves its slot. -/
lemma unlink_releases {r : NodeId} (h : Firm a.parentOf a.childIds) (hr : r < a.size) :
    (unlink r).Ensures a (fun _ b => a.Released [r] b) failed := by
  refine ensures_bind (ensures_askParent hr ?_)
  cases hp : a.parentOf r with
  | none =>
    refine ensures_pure ((Released.refl a).congr (fun x => ?_) fun q => ?_)
    · by_cases hx : x = r
      · subst hx; simp [parentWithout, hp]
      · simp [parentWithout, hx]
    · rw [payloadWithout_eq (by simp), payloadWithout_eq (by simp [h.mem_iff, hp])]
  | some p =>
    refine ensures_bind (ensures_locate hr (fun q hq => h.mem_iff.mpr hq) (by simp [hp])
      fun q payload place hq hpay hplace => ?_)
    refine ensures_bind ((changePayload_relinks (·.splice place []) hpay).mono (fun _ b hb => ?_) fun _ => id)
    refine (setParent_relinks (hb.size_eq ▸ hr)).mono (fun _ c hc => ?_) fun _ => id
    refine (hb.trans hc).congr (fun x => ?_) fun x => ?_
    · rw [funext hb.parentOf_eq, parentWithout, update_apply]
      simp
    · rw [hb.payload?_eq]
      by_cases hx : x = q
      · subst hx
        rw [update_self, payloadWithout, hpay, Option.map_some,
          Payload.splice_eq_lacking hplace (Arena.childIds_eq hpay ▸ h.nodup x)]
      · rw [update_of_ne hx, payloadWithout_eq]
        simpa [h.mem_iff, hq, eq_comm] using hx

lemma gather_releases {rs : List NodeId} (h : Firm a.parentOf a.childIds) (hrs : ∀ r ∈ rs, r < a.size) :
    (forIn rs PUnit.unit fun r _ => do unlink r; pure (ForInStep.yield PUnit.unit) : Edit _).Ensures a
      (fun _ b => a.Released rs b) failed := by
  refine (ensures_forIn (fun pending b => ∃ done, rs = done ++ pending ∧ a.Released done b) ?_ ?_).mono ?_ fun _ => id
  · rintro r rest b ⟨done, rfl, hb⟩
    have hr : r < b.size := hb.size_eq ▸ hrs r (by simp)
    exact ensures_bind ((unlink_releases (hb.firm h) hr).mono
      (fun _ c hc => ensures_pure ⟨rfl, done ++ [r], by simp, hb.append hc⟩) fun _ => id)
  · exact ⟨[], rfl, .refl a⟩
  · rintro _ b ⟨done, hdone, hb⟩
    rw [List.append_nil] at hdone
    exact hdone ▸ hb

lemma setParents_relinks {rs : List NodeId} {p : NodeId} (hrs : ∀ r ∈ rs, r < a.size) :
    (forIn rs PUnit.unit fun r _ => do setParent r (some p); pure (ForInStep.yield PUnit.unit) : Edit _).Ensures a
      (fun _ b => a.Relinked (fun x => if x ∈ rs then some p else a.parentOf x) a.payload? b) failed := by
  refine (ensures_forIn (fun pending b => ∃ done, rs = done ++ pending ∧
    a.Relinked (fun x => if x ∈ done then some p else a.parentOf x) a.payload? b) ?_ ?_).mono ?_ fun _ => id
  · rintro r rest b ⟨done, rfl, hb⟩
    refine ensures_bind ((setParent_relinks (hb.size_eq ▸ hrs r (by simp))).mono
      (fun _ c hc => ensures_pure ⟨rfl, done ++ [r], by simp, ?_⟩) fun _ => id)
    refine (hb.trans hc).congr (fun x => ?_) hb.payload?_eq
    by_cases hx : x = r
    · subst hx; simp
    · simp [hx, hb.parentOf_eq]
  · exact ⟨[], rfl, (Released.refl a).congr (fun x => by simp [parentWithout]) fun q => payloadWithout_eq (by simp)⟩
  · rintro _ b ⟨done, hdone, hb⟩
    rw [List.append_nil] at hdone
    exact hdone ▸ hb

end Edit

end PlainScript
