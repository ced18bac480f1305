import PlainScript.Table
import Mathlib.Algebra.Ring.Int.Defs
import Mathlib.Data.List.Lex
import Mathlib.Data.List.Nodup
import Mathlib.Order.Basic
import Mathlib.Tactic.Lemma
import Mathlib.Tactic.SplitIfs

/-! Tables list their keys in order. What is added up over the entries of a table grows by what is inserted
under a new key. -/
namespace PlainScript

lemma Text.le_iff {s t : Text} : Text.le s t = true ↔ s ≤ t := by simp [Text.le]

namespace Table

variable {α : Type}

/-- The keys stand in order, none of them twice. -/
def Sorted (t : Table α) : Prop := t.keys.Pairwise (· < ·)

lemma Sorted.nodup {t : Table α} (h : t.Sorted) : t.keys.Nodup :=
  List.Pairwise.imp (fun hlt => by rintro rfl; exact List.lt_irrefl _ hlt) h

lemma sorted_empty : ({} : Table α).Sorted := .nil

lemma mem_keys_insert {t : Table α} {key k : Text} {value : α} (h : k ∈ (t.insert key value).keys) :
    k = key ∨ k ∈ t.keys := by
  obtain ⟨entries⟩ := t
  simp only [insert, keys] at h ⊢
  induction entries with
  | nil => simpa [insertEntry] using h
  | cons e rest ih =>
    obtain ⟨j, v⟩ := e
    rw [insertEntry] at h
    split_ifs at h
    · simp_all
    · simpa using h
    · rw [List.map_cons, List.mem_cons] at h ⊢
      exact h.elim (fun heq => .inr (.inl heq)) fun h => (ih h).imp_right .inr

lemma Sorted.insert {t : Table α} (h : t.Sorted) (key : Text) (value : α) : (t.insert key value).Sorted := by
  obtain ⟨entries⟩ := t
  simp only [Sorted, keys, Table.insert] at h ⊢
  induction entries with
  | nil => simp [insertEntry]
  | cons e rest ih =>
    obtain ⟨k, v⟩ := e
    rw [List.map_cons, List.pairwise_cons] at h
    rw [insertEntry]
    split_ifs with heq hle
    · subst heq
      exact List.pairwise_cons.mpr h
    · have hlt : key < k := by
        by_contra hge
        exact heq (List.le_antisymm hge (Text.le_iff.mp hle))
      refine List.pairwise_cons.mpr ⟨fun j hj => ?_, List.pairwise_cons.mpr h⟩
      obtain rfl | hj := List.mem_cons.mp hj
      · exact hlt
      · exact List.lt_trans hlt (h.1 j hj)
    · have hlt : k < key := List.not_le.mp (fun hge => hle (Text.le_iff.mpr hge))
      refine List.pairwise_cons.mpr ⟨fun j hj => ?_, ih h.2⟩
      obtain rfl | hj := mem_keys_insert (t := ⟨rest⟩) hj
      · exact hlt
      · exact h.1 j hj

lemma get?_eq_none {t : Table α} {key : Text} (h : key ∉ t.keys) : t.get? key = none := by
  obtain ⟨entries⟩ := t
  simp only [get?, keys] at h ⊢
  induction entries with
  | nil => rfl
  | cons e rest ih => simp_all [findEntry, eq_comm]

lemma mem_keys_of_get? {t : Table α} {key : Text} {value : α} (h : t.get? key = some value) : key ∈ t.keys := by
  by_contra hkey
  simp [get?_eq_none hkey] at h

/-- What the entries add up to. -/
def sum (f : Text → α → Int) (t : Table α) : Int := (t.entries.map fun (key, value) => f key value).sum

/-- What is inserted counts, and what was there before no longer does. -/
lemma Sorted.sum_insert {t : Table α} (h : t.Sorted) (f : Text → α → Int) (key : Text) (value : α) :
    (t.insert key value).sum f = t.sum f - (t.get? key).elim 0 (f key) + f key value := by
  obtain ⟨entries⟩ := t
  simp only [Sorted, keys, Table.insert, sum, get?] at h ⊢
  induction entries with
  | nil => simp [insertEntry, findEntry]
  | cons e rest ih =>
    obtain ⟨k, v⟩ := e
    rw [List.map_cons, List.pairwise_cons] at h
    rw [insertEntry, findEntry]
    split_ifs with heq hle
    · subst heq
      simp
      omega
    · have hnew : findEntry key rest = none := by
        refine get?_eq_none (t := ⟨rest⟩) fun hm => ?_
        exact List.lt_irrefl _ (List.lt_of_le_of_lt (Text.le_iff.mp hle) (h.1 key hm))
      simp [hnew]
      omega
    · have := ih h.2
      simp only [List.map_cons, List.sum_cons] at this ⊢
      omega

lemma get?_insertAll_of_notMem {entries : List (Text × α)} {key : Text} (h : key ∉ entries.map (·.1)) (t : Table α) :
    (t.insertAll entries).get? key = t.get? key := by
  induction entries generalizing t with
  | nil => rfl
  | cons e rest ih =>
    rw [List.map_cons, List.mem_cons, not_or] at h
    exact (ih h.2 _).trans (by rw [get?_insert, if_neg (Ne.symm h.1)])

lemma get?_insertAll {entries : List (Text × α)} (hnodup : (entries.map (·.1)).Nodup) {key : Text} {value : α}
    (h : (key, value) ∈ entries) (t : Table α) : (t.insertAll entries).get? key = some value := by
  induction entries generalizing t with
  | nil => cases h
  | cons e rest ih =>
    rw [List.map_cons, List.nodup_cons] at hnodup
    obtain rfl | h := List.mem_cons.mp h
    · exact (get?_insertAll_of_notMem hnodup.1 _).trans (by simp)
    · exact ih hnodup.2 h _

lemma Sorted.insertAll {t : Table α} (h : t.Sorted) (entries : List (Text × α)) : (t.insertAll entries).Sorted := by
  induction entries generalizing t with
  | nil => exact h
  | cons e rest ih => exact ih (h.insert ..)

lemma insertEntry_last {entries : List (Text × α)} {key : Text} (h : ∀ k ∈ entries.map (·.1), k < key) (value : α) :
    insertEntry key value entries = entries ++ [(key, value)] := by
  induction entries with
  | nil => rfl
  | cons e rest ih =>
    have hlt : e.1 < key := h e.1 (by simp)
    have hne : e.1 ≠ key := fun heq => List.lt_irrefl _ (heq ▸ hlt)
    rw [insertEntry, if_neg hne, if_neg fun hle => List.not_le.mpr hlt (Text.le_iff.mp hle),
      ih fun k hk => h k (List.mem_cons_of_mem _ hk)]
    rfl

/-- Entries that stand in order are inserted as they stand. -/
lemma Sorted.insertAll_append (before : List (Text × α)) {after : List (Text × α)} (h : Sorted ⟨before ++ after⟩) :
    (⟨before⟩ : Table α).insertAll after = ⟨before ++ after⟩ := by
  induction after generalizing before with
  | nil => simp [Table.insertAll]
  | cons e rest ih =>
    have hlast : ∀ k ∈ before.map (·.1), k < e.1 := by
      intro k hk
      rw [Sorted, keys, List.map_append, List.pairwise_append] at h
      exact h.2.2 k hk e.1 (by simp)
    have hrest := ih (before ++ [e]) (by simpa using h)
    rw [List.append_assoc, List.singleton_append, ← insertEntry_last hlast] at hrest
    exact hrest

lemma Sorted.sum_insertAll {t : Table α} (h : t.Sorted) (f : Text → α → Int) {entries : List (Text × α)}
    (hnodup : (entries.map (·.1)).Nodup) (hnew : ∀ key ∈ entries.map (·.1), key ∉ t.keys) :
    (t.insertAll entries).sum f = t.sum f + (entries.map fun (key, value) => f key value).sum := by
  induction entries generalizing t with
  | nil => simp [Table.insertAll]
  | cons e rest ih =>
    rw [List.map_cons, List.nodup_cons] at hnodup
    have hrest := ih (h.insert e.1 e.2) hnodup.2 fun key hkey hm => by
      obtain rfl | hm := mem_keys_insert hm
      · exact hnodup.1 hkey
      · exact hnew key (by simp_all) hm
    rw [show t.insertAll (e :: rest) = (t.insert e.1 e.2).insertAll rest from rfl, hrest, h.sum_insert,
      get?_eq_none (hnew e.1 (by simp))]
    simp
    omega

lemma mem_entries_of_get? {t : Table α} {key : Text} {value : α} (h : t.get? key = some value) :
    (key, value) ∈ t.entries := by
  obtain ⟨entries⟩ := t
  simp only [get?] at h ⊢
  induction entries with
  | nil => cases h
  | cons e rest ih =>
    obtain ⟨k, v⟩ := e
    rw [findEntry] at h
    split_ifs at h with heq
    · simp_all
    · exact List.mem_cons_of_mem _ (ih h)

lemma Sorted.get?_of_mem {t : Table α} (hs : t.Sorted) {key : Text} {value : α} (h : (key, value) ∈ t.entries) :
    t.get? key = some value := by
  have hnodup := hs.nodup
  obtain ⟨entries⟩ := t
  simp only [get?, keys] at h hnodup ⊢
  induction entries with
  | nil => cases h
  | cons e rest ih =>
    obtain ⟨k, v⟩ := e
    rw [List.map_cons, List.nodup_cons] at hnodup
    rw [findEntry]
    obtain heq | h := List.mem_cons.mp h
    · cases heq
      rw [if_pos rfl]
    · rw [if_neg, ih (List.pairwise_cons.mp hs).2 h hnodup.2]
      rintro rfl
      exact hnodup.1 (List.mem_map.mpr ⟨_, h, rfl⟩)

lemma Sorted.mem_keys_iff {t : Table α} (h : t.Sorted) {key : Text} : key ∈ t.keys ↔ (t.get? key).isSome := by
  constructor
  · intro hkey
    obtain ⟨⟨_, value⟩, hmem, rfl⟩ := List.mem_map.mp hkey
    simp [h.get?_of_mem hmem]
  · intro hsome
    obtain ⟨value, hvalue⟩ := Option.isSome_iff_exists.mp hsome
    exact mem_keys_of_get? hvalue

/-- One entry alone adds up to its value. -/
lemma Sorted.sum_single {t : Table Int} (h : t.Sorted) (key : Text) :
    t.sum (fun k n => if k = key then n else 0) = (t.get? key).getD 0 := by
  have hnodup := h.nodup
  obtain ⟨entries⟩ := t
  simp only [sum, get?, keys] at hnodup ⊢
  induction entries with
  | nil => rfl
  | cons e rest ih =>
    obtain ⟨k, v⟩ := e
    rw [List.map_cons, List.nodup_cons] at hnodup
    rw [List.map_cons, List.sum_cons, findEntry, ih (List.pairwise_cons.mp h).2 hnodup.2]
    split_ifs with heq
    · subst heq
      have hnone : findEntry k rest = none := get?_eq_none (t := ⟨rest⟩) hnodup.1
      simp [hnone]
    · simp

end Table

end PlainScript
