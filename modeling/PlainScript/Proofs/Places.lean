import PlainScript.Node.Slots
import Mathlib.Data.List.Basic
import Mathlib.Data.List.Nodup
import Mathlib.Tactic.Lemma

/-! What is at a place of a payload. Changing a slot leaves the slots before and behind it alone, and
a child that is found at a place is the first of its kind among the children. -/
namespace PlainScript

variable {α : Type}

/-- A slot with its contents changed. -/
def Slot.change (one : Option α → Option α) (many : List (Option α) → List (Option α)) :
    Slot α → Slot α
  | .one c => .one (one c)
  | .many cs => .many (many cs)

@[simp] lemma Slot.children_one (c : Option α) : (Slot.one c).children = c.toList := rfl
@[simp] lemma Slot.children_many (cs : List (Option α)) :
    (Slot.many cs).children = cs.filterMap id := rfl

/-- What is left in a list. -/
def Slot.leftMany [DecidableEq α] (gone : List α) (cs : List (Option α)) : List (Option α) :=
  cs.filter fun c => c.all (· ∉ gone)

namespace Payload

lemma slots_modifySlot (n : Nat) (one : Option α → Option α)
    (many : List (Option α) → List (Option α)) (p : Payload α) :
    (p.modifySlot n one many).slots =
      p.slots.modify n fun (role, slot) => (role, slot.change one many) := by
  cases p <;> rcases n with _ | _ | _ | _ | _ | n <;> rfl

/-- The payload without anything in its slots. -/
def hollow (p : Payload α) : Payload α := Id.run (p.traverse (fun _ _ => pure none) fun _ _ => pure [])

/-- The payload with its slots filled one after the other. -/
def fill (p : Payload α) (slots : List (Role × Slot α)) : Payload α :=
  let pop : StateM (List (Role × Slot α)) (Option (Slot α)) :=
    modifyGet fun slots => (slots.head?.map Prod.snd, slots.tail)
  let run : StateM (List (Role × Slot α)) (Payload α) := p.traverse
    (fun _ _ => do match ← pop with
      | some (.one c) => return c
      | _ => return none)
    fun _ _ => do match ← pop with
      | some (.many cs) => return cs
      | _ => return []
  (run.run slots).1

lemma fill_hollow (p : Payload α) : p.hollow.fill p.slots = p := by
  cases p <;> rfl

/-- A payload is determined by its slots and what there is besides. -/
lemma ext_slots {p q : Payload α} (h : p.hollow = q.hollow) (hslots : p.slots = q.slots) : p = q := by
  rw [← fill_hollow p, h, hslots, fill_hollow]

lemma hollow_modifySlot (n : Nat) (one : Option α → Option α) (many : List (Option α) → List (Option α))
    (p : Payload α) : (p.modifySlot n one many).hollow = p.hollow := by
  cases p <;> rfl

/-- The payload with all its slots changed. -/
def mapSlots (one : Role → Option α → Option α) (many : List (Option α) → List (Option α)) (p : Payload α) :
    Payload α :=
  Id.run (p.traverse (fun role c => pure (one role c)) fun _ cs => pure (many cs))

section MapSlots

variable {one : Role → Option α → Option α} {many : List (Option α) → List (Option α)} {p : Payload α}

lemma slots_mapSlots :
    (p.mapSlots one many).slots = p.slots.map fun entry => (entry.1, entry.2.change (one entry.1) many) := by
  cases p <;> rfl

lemma hollow_mapSlots : (p.mapSlots one many).hollow = p.hollow := by
  cases p <;> rfl

lemma mapSlots_eq_self (h : ∀ entry ∈ p.slots, entry.2.change (one entry.1) many = entry.2) :
    p.mapSlots one many = p := by
  refine ext_slots hollow_mapSlots (slots_mapSlots.trans ?_)
  conv_rhs => rw [← List.map_id p.slots]
  exact List.map_congr_left fun entry hentry => Prod.ext rfl (h entry hentry)

end MapSlots

/-- The children on both sides of a slot. -/
lemma children_modifySlot {p : Payload α} {pre post : List (Role × Slot α)} {role : Role}
    {slot : Slot α} (h : p.slots = pre ++ (role, slot) :: post) (one : Option α → Option α)
    (many : List (Option α) → List (Option α)) :
    (p.modifySlot pre.length one many).children =
      pre.flatMap (·.2.children) ++ (slot.change one many).children
        ++ post.flatMap (·.2.children) := by
  simp [children, slots_modifySlot, h, List.modify_eq_take_cons_drop]

variable [DecidableEq α]

/-- The slot at a place, with what is before and behind it. -/
lemma placeIn_eq_some {child : α} {place : Place} :
    ∀ {ss : List (Role × Slot α)} {n : Nat}, placeIn child n ss = some place →
      ∃ pre slot post, ss = pre ++ (place.role, slot) :: post ∧ place.slot = n + pre.length ∧
        (place.index = none ∧ slot = .one (some child) ∨
          ∃ i cs, place.index = some i ∧ slot = .many cs ∧ cs.idxOf? (some child) = some i)
  | [], _, h => by simp [placeIn] at h
  | (role, .one c) :: rest, n, h => by
    rw [placeIn] at h
    split at h
    · next hc =>
      cases h
      exact ⟨[], _, rest, rfl, rfl, .inl ⟨rfl, by rw [hc]⟩⟩
    · obtain ⟨pre, slot, post, rfl, hs, hi⟩ := placeIn_eq_some h
      exact ⟨(role, .one c) :: pre, slot, post, rfl, by simp [hs]; omega, hi⟩
  | (role, .many cs) :: rest, n, h => by
    rw [placeIn] at h
    split at h
    · next i hc =>
      cases h
      exact ⟨[], _, rest, rfl, rfl, .inr ⟨i, cs, rfl, rfl, hc⟩⟩
    · obtain ⟨pre, slot, post, rfl, hs, hi⟩ := placeIn_eq_some h
      exact ⟨(role, .many cs) :: pre, slot, post, rfl, by simp [hs]; omega, hi⟩

lemma placeIn_isSome {child : α} :
    ∀ {ss : List (Role × Slot α)} {n : Nat}, child ∈ ss.flatMap (·.2.children) →
      (placeIn child n ss).isSome
  | (role, .one c) :: rest, n, h => by
    rw [placeIn]
    split
    · rfl
    · next hc =>
      apply placeIn_isSome
      simpa [hc] using h
  | (role, .many cs) :: rest, n, h => by
    rw [placeIn]
    split
    · rfl
    · next hc =>
      apply placeIn_isSome
      simpa [List.idxOf?_eq_none_iff.mp hc] using h

/-- A child of a payload has a place in it. -/
lemma exists_place {p : Payload α} {child : α} (h : child ∈ p.children) :
    ∃ place, p.place? child = some place :=
  Option.isSome_iff_exists.mp (placeIn_isSome h)

lemma idxOf?_split {cs : List (Option α)} {c : Option α} {i : Nat} (h : cs.idxOf? c = some i) :
    cs = cs.take i ++ c :: cs.drop (i + 1) := by
  obtain ⟨hi, hc, -⟩ := List.idxOf?_eq_some_iff.mp h
  rw [← hc, ← List.drop_eq_getElem_cons hi, List.take_append_drop]

lemma mem_children_of_place {child : α} {place : Place} {slot : Slot α}
    (h : place.index = none ∧ slot = .one (some child) ∨
      ∃ i cs, place.index = some i ∧ slot = .many cs ∧ cs.idxOf? (some child) = some i) :
    child ∈ slot.children := by
  obtain ⟨-, rfl⟩ | ⟨i, cs, -, rfl, hc⟩ := h
  · simp
  · rw [Slot.children_many, idxOf?_split hc]
    simp

/-- What is taken out of a list is gone from it. -/
lemma take_append_drop_eq_leftMany {cs : List (Option α)} {i : Nat} (hi : cs.idxOf? (some y) = some i)
    (hnodup : (cs.filterMap id).Nodup) : cs.take i ++ cs.drop (i + 1) = Slot.leftMany [y] cs := by
  have hcs := idxOf?_split hi
  have hkept {ds : List (Option α)} (hds : some y ∉ ds) : Slot.leftMany [y] ds = ds := by
    refine List.filter_eq_self.mpr fun c hc => ?_
    cases c with
    | none => rfl
    | some x => simpa using fun heq : x = y => hds (heq ▸ hc)
  rw [hcs, List.filterMap_append, List.filterMap_cons_some (f := id) (b := y) rfl, List.nodup_middle,
    List.nodup_cons] at hnodup
  simp only [List.mem_append, List.mem_filterMap, id_eq, exists_eq_right, not_or] at hnodup
  conv_rhs => rw [hcs]
  rw [Slot.leftMany, List.filter_append, List.filter_cons_of_neg (by simp)]
  exact congrArg₂ _ (hkept hnodup.1.1).symm (hkept hnodup.1.2).symm

/-- What a splice does to the slot at its place is done to all slots, if it leaves slots without the child alone. -/
lemma splice_eq_mapSlots {p : Payload α} {child : α} {place : Place} {new : List α}
    {one : Role → Option α → Option α} {many : List (Option α) → List (Option α)} (h : p.place? child = some place)
    (hnodup : p.children.Nodup)
    (hothers : ∀ role, ∀ slot : Slot α, child ∉ slot.children → slot.change (one role) many = slot)
    (hone : new.head? = one place.role (some child))
    (hmany : ∀ i cs, (place.role, .many cs) ∈ p.slots → cs.idxOf? (some child) = some i → (cs.filterMap id).Nodup →
      cs.take i ++ new.map some ++ cs.drop (i + 1) = many cs) :
    p.splice place new = p.mapSlots one many := by
  obtain ⟨pre, slot, post, hslots, hslot, hcase⟩ := placeIn_eq_some h
  rw [Nat.zero_add] at hslot
  have hchild : child ∈ slot.children := mem_children_of_place hcase
  have hkids : p.children = pre.flatMap (·.2.children) ++ (slot.children ++ post.flatMap (·.2.children)) := by
    simp [children, hslots]
  rw [hkids, List.nodup_append', List.nodup_append'] at hnodup
  obtain ⟨-, ⟨hslotNodup, -, hpost⟩, hpre⟩ := hnodup
  have hrest {ss : List (Role × Slot α)} (hss : child ∉ ss.flatMap (·.2.children)) :
      ss.map (fun entry => (entry.1, entry.2.change (one entry.1) many)) = ss := by
    conv_rhs => rw [← List.map_id ss]
    refine List.map_congr_left fun entry hentry => Prod.ext rfl (hothers _ _ fun hmem => hss ?_)
    exact List.mem_flatMap.mpr ⟨entry, hentry, hmem⟩
  have hmodify (one' : Option α → Option α) (many' : List (Option α) → List (Option α))
      (hchange : slot.change one' many' = slot.change (one place.role) many) :
      p.modifySlot place.slot one' many' = p.mapSlots one many := by
    refine ext_slots (by rw [hollow_modifySlot, hollow_mapSlots]) ?_
    rw [slots_modifySlot, slots_mapSlots, hslots, hslot, List.map_append, List.map_cons,
      hrest fun hmem => hpre hmem (by simp [hchild]), hrest fun hmem => hpost hchild hmem, ← hchange]
    simp [List.modify_eq_take_cons_drop]
  rw [splice]
  obtain ⟨hindex, rfl⟩ | ⟨i, cs, hindex, rfl, hi⟩ := hcase
  · simp only [hindex]
    exact hmodify _ _ (congrArg Slot.one hone)
  · simp only [hindex]
    exact hmodify _ _ (congrArg Slot.many (hmany i cs (by simp [hslots]) hi hslotNodup))

/-- The slot at the place of a child, and that splicing changes no other slot. -/
lemma slots_splice {p : Payload α} {child : α} {place : Place} (h : p.place? child = some place) :
    ∃ pre slot post, p.slots = pre ++ (place.role, slot) :: post ∧ child ∈ slot.children ∧
      ∀ replacement, ∃ slot',
        (p.splice place replacement).slots = pre ++ (place.role, slot') :: post := by
  obtain ⟨pre, slot, post, hs, hn, hi⟩ := placeIn_eq_some h
  rw [Nat.zero_add] at hn
  refine ⟨pre, slot, post, hs, mem_children_of_place hi, fun replacement => ?_⟩
  have hmodify (one : Option α → Option α) (many : List (Option α) → List (Option α)) :
      ∃ slot', (p.modifySlot pre.length one many).slots = pre ++ (place.role, slot') :: post :=
    ⟨slot.change one many, by simp [slots_modifySlot, hs, List.modify_eq_take_cons_drop]⟩
  rw [splice, hn]
  split
  · exact hmodify _ _
  · exact hmodify _ _

/-- Splicing at the place of a child puts something else between the children around it. -/
lemma children_splice {p : Payload α} {child : α} {place : Place}
    (h : p.place? child = some place) :
    ∃ before after, p.children = before ++ child :: after ∧
      ∀ replacement, (p.splice place replacement).children = before ++
        (if place.index.isSome then replacement else replacement.head?.toList) ++ after := by
  obtain ⟨pre, slot, post, hs, hn, hi⟩ := placeIn_eq_some h
  rw [Nat.zero_add] at hn
  have hp : p.children = pre.flatMap (·.2.children) ++ slot.children
      ++ post.flatMap (·.2.children) := by simp [children, hs]
  rcases hi with ⟨hi, rfl⟩ | ⟨i, cs, hi, rfl, hc⟩
  · refine ⟨_, _, hp.trans (List.append_assoc ..), fun r => ?_⟩
    rw [splice, hi, hn]
    simpa [Slot.change] using children_modifySlot hs (fun _ => r.head?) id
  · have hcs := idxOf?_split hc
    refine ⟨pre.flatMap (·.2.children) ++ (cs.take i).filterMap id,
      (cs.drop (i + 1)).filterMap id ++ post.flatMap (·.2.children), ?_, fun r => ?_⟩
    · rw [hp, Slot.children_many]
      nth_rewrite 1 [hcs]
      simp
    · rw [splice, hi, hn]
      simp [Slot.change, children_modifySlot hs]

/-- Inserting into the list at a place adds one child. -/
lemma children_insert {p : Payload α} {child : α} {place : Place} {i : Nat}
    (h : p.place? child = some place) (hi : place.index = some i) (k : Nat) (new : α) :
    ∃ before after, p.children = before ++ after ∧
      (p.modifySlot place.slot id fun cs => cs.take k ++ some new :: cs.drop k).children =
        before ++ new :: after := by
  obtain ⟨pre, slot, post, hs, hn, ⟨hi', _⟩ | ⟨i, cs, hi', rfl, hc⟩⟩ := placeIn_eq_some h
  · simp [hi] at hi'
  · rw [Nat.zero_add] at hn
    refine ⟨pre.flatMap (·.2.children) ++ (cs.take k).filterMap id,
      (cs.drop k).filterMap id ++ post.flatMap (·.2.children), ?_, ?_⟩
    · rw [List.append_assoc, ← List.append_assoc (List.filterMap _ _), ← List.filterMap_append,
        List.take_append_drop]
      simp [children, hs]
    · rw [hn, children_modifySlot hs]
      simp [Slot.change]

end Payload
end PlainScript
