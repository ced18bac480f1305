import PlainScript.Proofs.Exchange
import PlainScript.Proofs.Ways

/-! What is printed of a node in which something else has come to a place of a statement. A statement is printed
as what it is there, or in a body, and so is whatever comes for it; no other part of the node is printed in another
way than before. -/
namespace PlainScript

variable {α : Type}

/-- The kinds of nodes whose statements may be of any kind. -/
def hosting : List Kind :=
  [.program, .functionDeclaration, .ifStatement, .whileStatement, .doWhileStatement, .forStatement, .forInStatement,
    .blockStatement, .switchCase, .labeledStatement, .functionExpression]

/-- What stands in a slot, empty places included. -/
def Slot.entries : Slot α → List (Option α)
  | .one c => [c]
  | .many cs => cs

/-- Several nodes stand in the slot. -/
def Slot.isList : Slot α → Bool
  | .one _ => false
  | .many _ => true

lemma Slot.mem_children_iff {slot : Slot α} {x : α} : x ∈ slot.children ↔ some x ∈ slot.entries := by
  cases slot <;> simp [Slot.entries, eq_comm]

lemma Need.mem_parts {need : Need} {slot : Slot α} {v : Way} {c : Option α} :
    (v, c) ∈ need.parts slot ↔ c ∈ slot.entries ∧ (need = .required v ∨ need = .optional v ∧ c ≠ none) := by
  cases need with
  | required u => cases slot <;> simp [parts, Slot.entries, and_comm, eq_comm]
  | optional u =>
    simp only [parts, List.mem_map, Prod.mk.injEq, Slot.mem_children_iff, reduceCtorEq, optional.injEq, false_or]
    constructor
    · rintro ⟨x, hx, rfl, rfl⟩
      exact ⟨hx, rfl, Option.some_ne_none x⟩
    · rintro ⟨hc, rfl, hne⟩
      obtain ⟨x, rfl⟩ := Option.ne_none_iff_exists'.mp hne
      exact ⟨x, hc, rfl, rfl⟩
  | unused => simp [parts]

namespace Payload

/-- Where a statement may stand, any statement may, except in a `try`. -/
lemma kind_of_takesStatement {p : Payload α} {role : Role} {slot : Slot α} (h : (role, slot) ∈ p.slots)
    (hrole : role.takesStatement = true) : p.kind ∈ hosting ∨ p.kind = .tryStatement := by
  have hnot (hall : p.slots.all (!·.1.takesStatement) = true) : p.kind ∈ hosting ∨ p.kind = .tryStatement := by
    simpa [hrole] using List.all_eq_true.mp hall _ h
  cases p with
  | program | functionDeclaration | ifStatement | whileStatement | doWhileStatement | forStatement | forInStatement
  | blockStatement | switchCase | labeledStatement | functionExpression => exact .inl (List.mem_of_elem_eq_true rfl)
  | tryStatement => exact .inr rfl
  | _ => exact hnot rfl

end Payload

namespace Way

open Payload

/-- What is printed of a node that holds statements does not depend on what is in it. -/
lemma needs_congr {p q : Payload α} (hkind : p.kind = q.kind) (hhost : p.kind ∈ hosting) (w : Way) :
    w.needs p = w.needs q := by
  cases p <;> try simp [hosting, kind] at hhost
  all_goals cases q <;> cases hkind
  all_goals cases w <;> rfl

/-- A statement that has to be there stands in a slot that may not be empty. -/
lemma role_of_required {p : Payload α} {w v : Way} {ns : List Need} {i : Nat} {role : Role} {c : Option α}
    (hhost : p.kind ∈ hosting) (hneeds : w.needs p = some ns) (hslot : p.slots[i]? = some (role, .one c))
    (hrole : role.takesStatement = true) (hneed : ns[i]? = some (.required v)) : role = .statement := by
  have hplain (hall : (p.slots.all fun entry =>
      entry.1 != .optionalStatement && (entry.1 != .statementList || entry.2.isList)) = true) : role = .statement := by
    have hs := List.all_eq_true.mp hall _ (List.mem_of_getElem? hslot)
    cases role with
    | statement => rfl
    | optionalStatement | statementList => cases hs
    | _ => cases hrole
  cases p with
  | ifStatement test consequent alternate =>
    cases w <;> cases hneeds
    rcases i with _ | _ | _ | i
    · cases hslot
      cases hrole
    · cases hslot
      rfl
    · cases hneed
    · cases hneed
  | program | functionDeclaration | whileStatement | doWhileStatement | forStatement | forInStatement
  | blockStatement | switchCase | labeledStatement | functionExpression => exact hplain rfl
  | _ => simp [hosting, kind] at hhost

/-- What is printed of a node is printed of one of its slots. -/
lemma mem_parts {p : Payload α} {w : Way} {ns : List Need} {ps : List (Way × Option α)} (hneeds : w.needs p = some ns)
    (hps : w.parts p = some ps) {part : Way × Option α} : part ∈ ps ↔
      ∃ (i : Nat) (need : Need) (role : Role) (slot : Slot α), ns[i]? = some need ∧
        p.slots[i]? = some (role, slot) ∧ part ∈ need.parts slot := by
  rw [parts, hneeds, Option.map_some] at hps
  obtain rfl := Option.some.inj hps
  rw [List.mem_flatten]
  constructor
  · rintro ⟨_, hmem, hpart⟩
    obtain ⟨i, hi⟩ := List.mem_iff_getElem?.mp hmem
    obtain ⟨need, ⟨role, slot⟩, hneed, hslot, rfl⟩ := List.getElem?_zipWith_eq_some.mp hi
    exact ⟨i, need, role, slot, hneed, hslot, hpart⟩
  · rintro ⟨i, need, role, slot, hneed, hslot, hpart⟩
    exact ⟨_, List.mem_iff_getElem?.mpr ⟨i, List.getElem?_zipWith_eq_some.mpr ⟨need, _, hneed, hslot, rfl⟩⟩, hpart⟩

lemma exists_needs {p : Payload α} {w : Way} {ps : List (Way × Option α)} (hps : w.parts p = some ps) :
    ∃ ns, w.needs p = some ns := by
  obtain ⟨ns, hneeds, -⟩ := Option.map_eq_some_iff.mp hps
  exact ⟨ns, hneeds⟩

/-- What is printed of a node is one of its children. -/
lemma mem_children_of_parts {p : Payload α} {w v : Way} {ps : List (Way × Option α)} {x : α}
    (hps : w.parts p = some ps) (hx : (v, some x) ∈ ps) : x ∈ p.children := by
  obtain ⟨ns, hneeds⟩ := exists_needs hps
  obtain ⟨i, need, role, slot, -, hslot, hpart⟩ := (mem_parts hneeds hps).mp hx
  refine List.mem_flatMap.mpr ⟨_, List.mem_of_getElem? hslot, ?_⟩
  exact Slot.mem_children_iff.mpr (Need.mem_parts.mp hpart).1

/-- What stands in a `try` is printed as a block. -/
lemma block_of_try {p : Payload α} {ps : List (Way × Option α)} {i : Nat} {role : Role} {slot : Slot α} {x : α}
    (htry : p.kind = .tryStatement) (hps : statement.parts p = some ps) (hslot : p.slots[i]? = some (role, slot))
    (hrole : role.takesStatement = true) (hx : some x ∈ slot.entries) : (block, some x) ∈ ps := by
  cases p <;> cases htry
  next tried param handler finalizer =>
    obtain ⟨ns, hneeds⟩ := exists_needs hps
    refine (mem_parts hneeds hps).mpr ⟨i, ?_⟩
    rw [needs, statementNeeds] at hneeds
    by_cases halone : (handler.isNone && finalizer.isNone) = true
    · rw [if_pos halone] at hneeds
      cases hneeds
    · rw [if_neg halone] at hneeds
      obtain rfl := Option.some.inj hneeds
      have hoptional : (block, some x) ∈ (Need.optional block).parts slot :=
        Need.mem_parts.mpr ⟨hx, .inr ⟨rfl, Option.some_ne_none x⟩⟩
      rcases i with _ | _ | _ | _ | i
      · exact ⟨.required block, role, slot, rfl, hslot, Need.mem_parts.mpr ⟨hx, .inl rfl⟩⟩
      · cases hslot
        cases hrole
      · exact ⟨.optional block, role, slot, rfl, hslot, hoptional⟩
      · exact ⟨.optional block, role, slot, rfl, hslot, hoptional⟩
      · cases hslot

end Way

/-! ### Something else at a place -/

/-- How a slot is filled at an index, alone or between what else is in the list. -/
def Slot.IsPut (index : Option Nat) (put : List α → Slot α) : Prop :=
  index = none ∧ (put = fun new => .one new.head?) ∨
    index.isSome = true ∧ ∃ before after, put = fun new => .many (before ++ new.map some ++ after)

namespace Slot.IsPut

variable {index : Option Nat} {put : List α → Slot α} {new : List α} {target : α} {c : Option α}

lemma mem_entries (h : IsPut index put) : some target ∈ (put [target]).entries := by
  obtain ⟨-, rfl⟩ | ⟨-, before, after, rfl⟩ := h <;> simp [entries]

/-- What stands in the slot now has come, or it stood there before. The slot is empty only if nothing came for what
stood in it alone. -/
lemma entries_cases (h : IsPut index put) (hc : c ∈ (put new).entries) : c ∈ (put [target]).entries ∨
    (∃ y ∈ new, c = some y) ∨ c = none ∧ index = none ∧ new = [] := by
  obtain ⟨hindex, rfl⟩ | ⟨-, before, after, rfl⟩ := h
  · obtain rfl := List.mem_singleton.mp hc
    cases new with
    | nil => exact .inr (.inr ⟨rfl, hindex, rfl⟩)
    | cons y rest => exact .inr (.inl ⟨y, List.mem_cons_self, rfl⟩)
  · simp only [entries, List.mem_append, List.mem_map] at hc ⊢
    obtain (hbefore | ⟨y, hy, rfl⟩) | hafter := hc
    · exact .inl (.inl (.inl hbefore))
    · exact .inr (.inl ⟨y, hy, rfl⟩)
    · exact .inl (.inr hafter)

end Slot.IsPut

section Splice

variable [DecidableEq α] {p : Payload α} {place : Payload.Place} {target : α} {new : List α}

namespace Payload

/-- The slot at a place, with the target in it and with something else. -/
lemma exists_put (hplace : p.place? target = some place) : ∃ put : List α → Slot α,
    Slot.IsPut place.index put ∧ p.slots[place.slot]? = some (place.role, put [target]) ∧
      ∀ new, (p.splice place new).slots = p.slots.set place.slot (place.role, put new) := by
  obtain ⟨pre, slot, post, hslots, hn, hi⟩ := placeIn_eq_some hplace
  rw [Nat.zero_add] at hn
  have hset (one : Option α → Option α) (many : List (Option α) → List (Option α)) :
      (p.modifySlot pre.length one many).slots = p.slots.set pre.length (place.role, slot.change one many) := by
    simp [slots_modifySlot, hslots, List.modify_eq_take_cons_drop]
  have hget : p.slots[place.slot]? = some (place.role, slot) := by simp [hslots, hn]
  obtain ⟨hindex, rfl⟩ | ⟨i, cs, hindex, rfl, hc⟩ := hi
  · refine ⟨fun new => .one new.head?, .inl ⟨hindex, rfl⟩, hget, fun new => ?_⟩
    rw [splice, hindex, hn]
    exact hset _ _
  · refine ⟨fun new => .many (cs.take i ++ new.map some ++ cs.drop (i + 1)), .inr ⟨by simp [hindex], _, _, rfl⟩,
      ?_, fun new => ?_⟩
    · have hcs := idxOf?_split hc
      simp [hget, ← hcs]
    · rw [splice, hindex, hn]
      exact hset _ _

end Payload

/-- What is printed of a node with something else in the place of a statement was printed before in the same way, or
it has come for a statement that was. -/
lemma Way.parts_splice (hplace : p.place? target = some place) (hhost : p.kind ∈ hosting)
    (hrole : place.role.takesStatement = true) (hfilled : place.index = none → new = [] → place.role ≠ .statement)
    {w : Way} {ps : List (Way × Option α)} (hps : w.parts p = some ps) :
    ∃ qs, w.parts (p.splice place new) = some qs ∧ ∀ v c, (v, c) ∈ qs →
      (v, c) ∈ ps ∨ ∃ y ∈ new, c = some y ∧ (v, some target) ∈ ps := by
  obtain ⟨ns, hneeds⟩ := exists_needs hps
  obtain ⟨put, hput, hslot, hslots⟩ := Payload.exists_put hplace
  have hneeds' : w.needs (p.splice place new) = some ns :=
    (needs_congr (Payload.kind_splice p place new).symm hhost w).symm.trans hneeds
  refine ⟨_, by rw [parts, hneeds', Option.map_some], fun v c hc => ?_⟩
  obtain ⟨i, need, role, slot, hneed, hi, hpart⟩ := (mem_parts hneeds' (by rw [parts, hneeds', Option.map_some])).mp hc
  rw [hslots, List.getElem?_set] at hi
  split_ifs at hi with heq
  · subst heq
    obtain ⟨rfl, rfl⟩ := Prod.mk.inj (Option.some.inj hi)
    have hbefore {c : Option α} (hc : (v, c) ∈ need.parts (put [target])) : (v, c) ∈ ps :=
      (mem_parts hneeds hps).mpr ⟨_, need, _, _, hneed, hslot, hc⟩
    obtain ⟨hentry, hway⟩ := Need.mem_parts.mp hpart
    obtain hold | ⟨y, hy, rfl⟩ | ⟨rfl, hindex, rfl⟩ := hput.entries_cases hentry
    · exact .inl (hbefore (Need.mem_parts.mpr ⟨hold, hway⟩))
    · refine .inr ⟨y, hy, rfl, hbefore (Need.mem_parts.mpr ⟨hput.mem_entries, ?_⟩)⟩
      exact hway.imp_right fun h => ⟨h.1, Option.some_ne_none _⟩
    · have hneed' : ns[place.slot]? = some (.required v) :=
        hneed.trans (congrArg some (hway.resolve_right fun h => h.2 rfl))
      obtain ⟨-, rfl⟩ | ⟨hsome, -⟩ := hput
      · exact absurd (role_of_required hhost hneeds hslot hrole hneed') (hfilled hindex rfl)
      · simp [hindex] at hsome
  · exact .inl ((mem_parts hneeds hps).mpr ⟨i, need, role, slot, hneed, hi, hpart⟩)

end Splice

/-! ### Statements and bodies -/

namespace Way

/-- A plain statement has parts only as a statement. -/
lemma needs_of_plain {p : Payload α} (hplain : p.kind.isPlainStatement = true) {w : Way} (hw : w ≠ .statement) :
    w.needs p = none := by
  cases p <;> try cases hplain
  all_goals cases w <;> first | rfl | exact absurd rfl hw

end Way

namespace Printable

variable {source : NodeSource α} {n : Nat} {w : Way} {x : α} {node : Node α}

/-- A plain statement is printed as one, directly, as a body or behind a label. -/
lemma of_plain (hnode : source.node? x = some node) (hplain : node.payload.kind.isPlainStatement = true)
    (h : Printable source n w x) : Printable source n .statement x ∧ (w = .statement ∨ w = .nested ∨ w = .labeled) := by
  have hnot {v : Way} (hv : v ≠ .statement) (hway : v.resolve node = none) : ¬ Printable source n v x :=
    not_of_none hnode hway (by rw [Way.parts, Way.needs_of_plain hplain hv, Option.map_none])
  have hblock : node.payload.kind ≠ .blockStatement := fun h => by cases h ▸ hplain
  have hdeclaration : node.payload.kind ≠ .variableDeclaration := fun h => by cases h ▸ hplain
  have hexpression : ¬ Printable source n .expression x := hnot (by simp) rfl
  cases w with
  | statement => exact ⟨h, .inl rfl⟩
  | nested => exact ⟨(nested_iff_statement hnode hblock).mp h, .inr (.inl rfl)⟩
  | labeled =>
    refine ⟨?_, .inr (.inr rfl)⟩
    by_cases hleading : node.leading.isEmpty = true
    · exact (iff_resolve hnode .statement (by rw [Way.resolve, if_pos hleading])).mp h
    · exact (nested_iff_statement hnode hblock).mp
        ((iff_resolve hnode .nested (by rw [Way.resolve, if_neg hleading])).mp h)
  | head => exact absurd ((iff_resolve hnode .expression (by rw [Way.resolve, if_neg hdeclaration])).mp h) hexpression
  | arrowBody => exact absurd ((iff_resolve hnode .expression (by rw [Way.resolve, if_neg hblock])).mp h) hexpression
  | chain opLevel =>
    refine absurd ((iff_resolve hnode .expression ?_).mp h) hexpression
    rw [Way.resolve, Way.needs_of_plain (w := .chain opLevel) hplain (by simp)]
    rfl
  | _ => exact absurd h (hnot (by simp) rfl)

lemma exists_room_statement (h : Printable source n .statement x) : ∃ m, n = m + 1 := by
  obtain ⟨node, -, ⟨m, ps, rfl, -⟩ | ⟨w', hway, -⟩⟩ := h.cases_room
  · exact ⟨m, rfl⟩
  · cases hway

section Block

variable {body : List (Option α)} (hnode : source.node? x = some node) (hp : node.payload = .blockStatement body)
include hnode hp

/-- In a body a block takes no room of its own. -/
lemma iff_nested_block : Printable source n .nested x ↔ ∀ c ∈ body, Fills (Printable source n) .statement c := by
  rw [iff_resolve hnode .block (by simp [Way.resolve, hp, Payload.kind]),
    iff_parts hnode rfl [body.map fun c => (Way.statement, c)].flatten (by rw [hp]; rfl)]
  simp

lemma iff_statement_block :
    Printable source (n + 1) .statement x ↔ ∀ c ∈ body, Fills (Printable source n) .statement c := by
  rw [iff_statement hnode [body.map fun c => (Way.statement, c)].flatten (by rw [hp]; rfl)]
  simp

end Block

/-- What is printed as a body can be printed as a statement with more room. -/
lemma of_nested (h : Printable source n .nested x) : Printable source (n + 1) .statement x := by
  obtain ⟨node, hnode⟩ := h.exists_node
  cases hp : node.payload with
  | blockStatement body => exact (iff_statement_block hnode hp).mpr ((iff_nested_block hnode hp).mp h)
  | _ => exact ((nested_iff_statement hnode (by simp [hp, Payload.kind])).mp h).mono (Nat.le_succ n)

/-- What is printed as a statement can be printed as a body. -/
lemma nested (h : Printable source n .statement x) : Printable source n .nested x := by
  obtain ⟨node, hnode⟩ := h.exists_node
  cases hp : node.payload with
  | blockStatement body =>
    obtain ⟨m, rfl⟩ := h.exists_room_statement
    exact ((iff_nested_block hnode hp).mpr ((iff_statement_block hnode hp).mp h)).mono (Nat.le_succ m)
  | _ => exact (nested_iff_statement hnode (by simp [hp, Payload.kind])).mpr h

lemma labeled (h : Printable source n .statement x) : Printable source n .labeled x := by
  obtain ⟨node, hnode⟩ := h.exists_node
  by_cases hleading : node.leading.isEmpty = true
  · exact .resolve hnode (by rw [Way.resolve, if_pos hleading]) h
  · exact .resolve hnode (by rw [Way.resolve, if_neg hleading]) h.nested

end Printable

end PlainScript
