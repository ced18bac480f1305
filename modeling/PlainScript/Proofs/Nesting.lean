import PlainScript.Proofs.Recovery
import PlainScript.Proofs.TreeInduction

/-! Ways down a tree, and readers that answer with shallow trees. A way counts the operands that stand beside their node
and the parameters of functions on their own: what the readers build there is not bounded by how deep they may go. -/
namespace PlainScript

variable {α : Type}

/-- How a child nests in its node. -/
inductive Nesting
  | deeper
  | beside
  | parameter
  deriving DecidableEq, Repr

namespace Payload

/-- How the children in the first slots nest. In all others they nest deeper. -/
def nestings : Payload α → List Nesting
  | functionDeclaration .. | functionExpression .. | arrowFunctionExpression .. => [.parameter]
  | classDeclaration .. | classExpression .. => [.beside]
  | binaryExpression op .. => if op == "**" then [.beside, .beside] else [.beside]
  | callExpression .. | newExpression .. | memberExpression .. | taggedTemplateExpression .. => [.beside]
  | _ => []

def nest : List Nesting → List (Role × Slot α) → List (Nesting × Slot α)
  | _, [] => []
  | ns, (_, slot) :: rest => (ns.headD .deeper, slot) :: nest ns.tail rest

/-- The slots with how their children nest. -/
def nestedSlots (p : Payload α) : List (Nesting × Slot α) := nest p.nestings p.slots

lemma exists_mem_nest {role : Role} {slot : Slot α} : ∀ {ns : List Nesting} {slots : List (Role × Slot α)},
    (role, slot) ∈ slots → ∃ nesting, (nesting, slot) ∈ nest ns slots
  | ns, _ :: _, .head _ => ⟨ns.headD .deeper, List.mem_cons_self⟩
  | _, _ :: _, .tail _ hslot => (exists_mem_nest hslot).imp fun _ h => List.mem_cons_of_mem _ h

/-- Every child nests in one of the slots. -/
lemma exists_nestedSlot {p : Payload α} {c : α} (h : c ∈ p.children) :
    ∃ nesting slot, (nesting, slot) ∈ p.nestedSlots ∧ c ∈ slot.children := by
  obtain ⟨⟨role, slot⟩, hslot, hc⟩ := List.mem_flatMap.mp h
  obtain ⟨nesting, hnested⟩ := exists_mem_nest hslot
  exact ⟨nesting, slot, hnested, hc⟩

end Payload

namespace Tree

/-- A way down a tree. -/
inductive Descends : Tree → List Nesting → Tree → Prop
  | here (t : Tree) : Descends t [] t
  | down {t c u : Tree} {nesting : Nesting} {slot : Slot Tree} {way : List Nesting}
      (hslot : (nesting, slot) ∈ t.node.payload.nestedSlots) (hc : c ∈ slot.children) (h : Descends c way u) :
      Descends t (nesting :: way) u

/-- Every way down goes at most `n` levels deeper, and three more for each parameter that it comes to. -/
def Shallow (n : Nat) (t : Tree) : Prop :=
  ∀ way u, t.Descends way u → way.count .deeper ≤ n + 3 * way.count .parameter

/-- A longest way down. -/
lemma exists_descends (t : Tree) : ∃ way u, t.Descends way u ∧ t.height = way.length + 1 := by
  induction t using Tree.induction with
  | h node ih =>
    obtain hleaf | ⟨c, hc, hheight⟩ := height_cases (mk node)
    · exact ⟨[], mk node, .here _, hleaf⟩
    obtain ⟨way, u, hway, hlength⟩ := ih c hc
    obtain ⟨nesting, slot, hslot, hc⟩ := Payload.exists_nestedSlot hc
    exact ⟨nesting :: way, u, .down hslot hc hway, by rw [hheight, hlength, List.length_cons]⟩

end Tree

lemma Nesting.length_eq (way : List Nesting) :
    way.length = way.count .deeper + way.count .beside + way.count .parameter := by
  induction way with
  | nil => rfl
  | cons nesting way ih => cases nesting <;> simp [ih] <;> omega

def Slot.Shallow (n : Nat) (slot : Slot Tree) : Prop := ∀ t ∈ slot.children, t.Shallow n

/-- The slots may stand in a node that is `n` levels deep. -/
inductive Nests (n : Nat) : List (Nesting × Slot Tree) → Prop
  | nil : Nests n []
  | deeper {slot : Slot Tree} {rest : List (Nesting × Slot Tree)} {m : Nat} (h : slot.Shallow m) (hlt : m < n)
      (hrest : Nests n rest) : Nests n ((.deeper, slot) :: rest)
  | beside {slot : Slot Tree} {rest : List (Nesting × Slot Tree)} {m : Nat} (h : slot.Shallow m) (hle : m ≤ n)
      (hrest : Nests n rest) : Nests n ((.beside, slot) :: rest)
  | parameter {slot : Slot Tree} {rest : List (Nesting × Slot Tree)} {m : Nat} (h : slot.Shallow m) (hle : m ≤ n + 3)
      (hrest : Nests n rest) : Nests n ((.parameter, slot) :: rest)

section Shallow

variable {m n : Nat} {t : Tree} {slots : List (Option Tree)}

lemma Tree.Shallow.mono (h : t.Shallow m) (hle : m ≤ n) : t.Shallow n := fun way u hway => by
  have := h way u hway
  omega

lemma Slot.shallow_none : (Slot.one none).Shallow n := nofun

lemma Tree.Shallow.one (h : t.Shallow n) : (Slot.one (some t)).Shallow n := fun c hc => by
  obtain rfl : c = t := by simpa [Slot.children] using hc
  exact h

lemma Slot.shallow_many : (Slot.many slots).Shallow n ↔ ∀ slot ∈ slots, (Slot.one slot).Shallow n := by
  constructor
  · intro h slot hslot t ht
    obtain rfl : slot = some t := by simpa [Slot.children] using ht
    exact h t (by simpa [Slot.children] using hslot)
  · intro h t ht
    exact h (some t) (by simpa [Slot.children] using ht) t (by simp [Slot.children])

lemma Slot.shallow_map_some {ts : List Tree} (h : ∀ t ∈ ts, t.Shallow n) : (Slot.many (ts.map some)).Shallow n := by
  refine shallow_many.mpr fun slot hslot => ?_
  obtain ⟨t, ht, rfl⟩ := List.mem_map.mp hslot
  exact (h t ht).one

/-- A way down from one of the slots. -/
lemma Nests.count_le {entries : List (Nesting × Slot Tree)} (h : Nests n entries) {nesting : Nesting} {slot : Slot Tree}
    (hslot : (nesting, slot) ∈ entries) (ht : t ∈ slot.children) {way : List Nesting} {u : Tree}
    (hway : t.Descends way u) :
    (nesting :: way).count .deeper ≤ n + 3 * (nesting :: way).count .parameter := by
  induction h with
  | nil => cases hslot
  | deeper h hlt _ ih =>
    cases hslot with
    | head =>
      have hcount := h t ht way u hway
      rw [List.count_cons_self, List.count_cons_of_ne (by decide)]
      omega
    | tail _ hslot => exact ih hslot
  | beside h hle _ ih =>
    cases hslot with
    | head =>
      have hcount := h t ht way u hway
      rw [List.count_cons_of_ne (by decide), List.count_cons_of_ne (by decide)]
      omega
    | tail _ hslot => exact ih hslot
  | parameter h hle _ ih =>
    cases hslot with
    | head =>
      have hcount := h t ht way u hway
      rw [List.count_cons_of_ne (by decide), List.count_cons_self]
      omega
    | tail _ hslot => exact ih hslot

/-- A node is as deep as what fits into it. -/
lemma Tree.shallow_mk {node : Node Tree} (h : Nests n node.payload.nestedSlots) : (Tree.mk node).Shallow n := by
  intro way u hway
  cases hway with
  | here => simp
  | down hslot hc hway => exact h.count_le hslot hc hway

lemma Tree.shallow_of {payload : Payload Tree} {position : Position} (h : Nests n payload.nestedSlots) :
    (Tree.of payload position).Shallow n := shallow_mk h

lemma Tree.Shallow.withLeading (h : t.Shallow n) (comments : List Text) : (t.withLeading comments).Shallow n := by
  intro way u hway
  cases hway with
  | here => simp
  | down hslot hc hway => exact h _ u (.down hslot hc hway)

end Shallow

namespace Grammar

/-! ### Answers -/

section Answers

variable {β : Type} {P : α → Prop} {Q : β → Prop} {p : Parser α} {q : α → Parser β}

/-- What the rule answers has the property, whatever it reads. -/
def Answers (P : α → Prop) (p : Parser α) : Prop := ∀ c s, Meets p c s (fun a _ => P a) fun _ _ => True

lemma Answers.bind (h : Answers P p) (hq : ∀ a, P a → Answers Q (q a)) : Answers Q (p >>= q) := fun c s =>
  meets_bind ((h c s).mono (fun a s' ha => hq a ha c s') fun _ _ => id)

/-- What comes first does not matter. -/
lemma answers_then (hq : ∀ a, Answers Q (q a)) : Answers Q (p >>= q) := by
  have hp : Answers (fun _ => True) p := fun c s => by
    unfold Meets
    split <;> trivial
  exact hp.bind fun a _ => hq a

lemma Answers.mono {P' : α → Prop} (h : Answers P p) (himp : ∀ a, P a → P' a) : Answers P' p := fun c s =>
  (h c s).mono (fun a _ => himp a) fun _ _ => id

lemma answers_pure {b : β} (h : Q b) : Answers Q (pure b) := fun _ _ => h

lemma answers_throw (e : ParseError) : Answers Q (throw e) := fun _ _ => trivial

lemma answers_fail (fault : ParseFault) : Answers Q (fail fault) := fun _ _ => trivial

lemma answers_fail_bind (fault : ParseFault) : Answers Q (fail fault >>= q) := fun _ _ => meets_bind trivial

lemma answers_ite {b : Prop} [Decidable b] {p p' : Parser β} (hp : Answers Q p) (hp' : Answers Q p') :
    Answers Q (if b then p else p') := by
  split
  · exact hp
  · exact hp'

lemma answers_unexpected : Answers Q (unexpected : Parser β) :=
  answers_then fun _ => answers_ite (answers_fail _) (answers_fail _)

lemma Answers.map {f : α → β} (h : Answers P p) (hf : ∀ a, P a → Q (f a)) : Answers Q (f <$> p) := by
  rw [← bind_pure_comp]
  exact h.bind fun a ha => answers_pure (hf a ha)

lemma answers_inFunction {isAsync isGenerator : Bool} (h : Answers P p) : Answers P (inFunction isAsync isGenerator p) :=
  fun _ s => h _ s

lemma answers_extend {step : α → Parser (Option α)} {start : α} (hstart : P start)
    (h : ∀ a, P a → Answers (∀ b ∈ ·, P b) (step a)) : Answers P (extend step start) := by
  refine answers_then fun n => ?_
  generalize n + 1 = rounds
  induction rounds generalizing start with
  | zero => exact answers_unexpected
  | succ rounds ih =>
    refine (h start hstart).bind fun next hnext => ?_
    cases next with
    | none => exact answers_pure hstart
    | some b => exact ih (hnext b rfl)

lemma answers_repeatUntil {stop : Parser Bool} (h : Answers P p) : Answers (∀ a ∈ ·, P a) (repeatUntil stop p) := by
  refine answers_then fun n => ?_
  generalize n + 1 = rounds
  induction rounds with
  | zero => exact answers_unexpected
  | succ rounds ih =>
    refine answers_then fun _ => answers_ite (answers_pure nofun) (h.bind fun a ha => ih.bind fun as has => ?_)
    exact answers_pure (List.forall_mem_cons.mpr ⟨ha, has⟩)

lemma answers_commaList {closing : Text} (h : Answers P p) : Answers (∀ a ∈ ·, P a) (commaList closing p) :=
  answers_repeatUntil <| h.bind fun _ ha => answers_then fun _ =>
    answers_ite (answers_then fun _ => answers_pure ha) (answers_pure ha)

end Answers

lemma Answers.some {n : Nat} {p : Parser Tree} (h : Answers (Tree.Shallow n) p) :
    Answers (fun slot => (Slot.one slot).Shallow n) (Option.some <$> p) := h.map fun _ ht => ht.one

lemma answers_identifierHere {n : Nat} : Answers (Tree.Shallow n) identifierHere :=
  answers_then fun _ => answers_then fun _ => answers_pure (Tree.shallow_of .nil)

end Grammar

end PlainScript
