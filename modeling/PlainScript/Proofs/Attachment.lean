import PlainScript.Proofs.Progress
import PlainScript.Proofs.TreeInduction

/-! Comments on their way into a tree. A comment is ahead of the reader until its token is reached, then it waits,
and then it belongs to a node. What rules attach are the comments that they pass, one after the other. -/
namespace PlainScript

namespace Tree

/-- The comments in a tree, from left to right. -/
def comments (t : Tree) : List Text :=
  t.fold fun node => node.leading ++ node.payload.children.flatten ++ node.trailing

/-- The comments in a slot with at most one tree. -/
abbrev commentsIn (slot : Option Tree) : List Text := slot.elim [] comments

end Tree

/-- The comments in the trees of a slot. -/
def Slot.comments : Slot Tree → List Text
  | .one t => Tree.commentsIn t
  | .many ts => ts.flatMap Tree.commentsIn

namespace Tree

variable {node : Node Tree}

lemma commentsIn_children (slot : Slot Tree) : slot.children.flatMap comments = slot.comments := by
  cases slot with
  | one t => cases t <;> simp [Slot.children, Slot.comments]
  | many ts =>
    induction ts with
    | nil => rfl
    | cons t ts ih => cases t <;> simp_all [Slot.children, Slot.comments]

lemma comments_mk (slots : List (Slot Tree)) (h : node.payload.slots.map Prod.snd = slots) :
    (mk node).comments = node.leading ++ slots.flatMap Slot.comments ++ node.trailing := by
  have hchildren : node.payload.children.flatMap comments = slots.flatMap Slot.comments := by
    rw [← h, Payload.children, List.flatMap_assoc, List.flatMap_map]
    exact List.flatMap_congr fun slot _ => commentsIn_children slot.2
  rw [comments, fold_mk, ← hchildren]
  dsimp only
  rw [children_foldPayload, List.flatMap_def]
  rfl

lemma comments_of {payload : Payload Tree} {position : Position} (slots : List (Slot Tree))
    (h : payload.slots.map Prod.snd = slots) :
    (of payload position).comments = slots.flatMap Slot.comments := by
  rw [of, comments_mk slots h, List.nil_append, List.append_nil]

lemma comments_withLeading (t : Tree) (comments : List Text) :
    (t.withLeading comments).comments = comments ++ t.comments := by
  obtain ⟨node⟩ := t
  rw [withLeading, comments_mk _ rfl, comments_mk _ rfl]
  simp [Tree.node]

lemma commentsIn_filter_isSome (slots : List (Option Tree)) :
    (slots.filter Option.isSome).flatMap commentsIn = slots.flatMap commentsIn := by
  induction slots with
  | nil => rfl
  | cons slot slots ih => cases slot <;> simp [ih]

lemma commentsIn_map_some (ts : List Tree) : (ts.map some).flatMap commentsIn = ts.flatMap comments := by
  rw [List.flatMap_map]
  rfl

end Tree

namespace Grammar

/-- The tokens from the current one on. -/
def State.tokens (s : State) : List Token := s.current :: s.later

/-- The comments that belong to no node yet: those that wait, and those that are ahead. -/
def State.comments (s : State) : List Text := s.pending ++ s.later.flatMap (·.comments)

/-- Where nothing is recovered, what was attached before a rule and what was to be attached then is, one behind the
other, what is attached after the rule and what is to be attached now. -/
def Attaches {α : Type} (before : List Text) (after : α → List Text) (p : Parser α) : Prop :=
  ∀ c s, Meets p c s (fun a s' => s'.recovered = [] → s.recovered = [] ∧ s'.tokens <:+ s.tokens ∧
    before ++ s.comments = after a ++ s'.comments) fun _ _ => True

/-- The rule attaches nothing. -/
def Silent {α : Type} (p : Parser α) : Prop := ∀ before, Attaches before (fun _ => before) p

/-- The rule attaches the comments of what it reads. -/
def Collects (p : Parser Tree) : Prop := ∀ before, Attaches before (fun t => before ++ t.comments) p

section Rules

variable {α β : Type} {before : List Text} {mid : α → List Text} {after : β → List Text} {p : Parser α}
  {q : α → Parser β}

lemma Attaches.bind (h : Attaches before mid p) (hq : ∀ a, Attaches (mid a) after (q a)) :
    Attaches before after (p >>= q) := by
  intro c s
  refine meets_bind ((h c s).mono (fun a s' hs => ?_) fun _ _ => id)
  refine (hq a c s').mono (fun b s'' hs' hrecovered => ?_) fun _ _ => id
  obtain ⟨hmiddle, htokens', hcomments'⟩ := hs' hrecovered
  obtain ⟨hstart, htokens, hcomments⟩ := hs hmiddle
  exact ⟨hstart, htokens'.trans htokens, hcomments.trans hcomments'⟩

lemma attaches_pure {b : β} (h : before = after b) : Attaches before after (pure b) :=
  fun _ _ hrecovered => ⟨hrecovered, List.suffix_rfl, by rw [h]⟩

lemma Attaches.map {f : α → β} (h : Attaches before mid p) (hf : ∀ a, mid a = after (f a)) :
    Attaches before after (f <$> p) := by
  rw [← bind_pure_comp]
  exact h.bind fun a => attaches_pure (hf a)

lemma attaches_fail (fault : ParseFault) : Attaches before after (fail fault) := fun _ _ => trivial

lemma attaches_fail_bind (fault : ParseFault) : Attaches before after (fail fault >>= q) := fun _ _ =>
  meets_bind trivial

lemma attaches_ite {b : Prop} [Decidable b] {p q : Parser β} (hp : Attaches before after p)
    (hq : Attaches before after q) : Attaches before after (if b then p else q) := by
  split
  · exact hp
  · exact hq

lemma Silent.bind (h : Silent p) (hq : ∀ a, Attaches before after (q a)) : Attaches before after (p >>= q) :=
  Attaches.bind (h before) hq

lemma Asks.silent (h : Asks p) : Silent p := fun _ c s => by
  obtain ⟨a, ha⟩ := h c s
  rw [Meets, ha]
  exact fun hrecovered => ⟨hrecovered, List.suffix_rfl, rfl⟩

lemma Asks.bind_attaches (h : Asks p) (hq : ∀ a, Attaches before after (q a)) : Attaches before after (p >>= q) :=
  h.silent.bind hq

lemma attaches_unexpected : Attaches before after (unexpected : Parser β) :=
  asks_current.bind_attaches fun _ => attaches_ite (attaches_fail _) (attaches_fail _)

end Rules

/-! ### Tokens -/

lemma silent_advance : Silent advance := fun before c s => by
  obtain ⟨current, later, pending, recovered⟩ := s
  cases later with
  | nil => exact fun hrecovered => ⟨hrecovered, List.suffix_rfl, rfl⟩
  | cons t rest =>
    refine fun hrecovered => ⟨hrecovered, List.suffix_cons current (t :: rest), ?_⟩
    simp [State.comments]

lemma silent_skip : Silent skip := fun _ => silent_advance.bind fun _ => attaches_pure rfl

lemma silent_eat (w : Text) : Silent (eat w) := fun _ => (asks_atPunct w).bind_attaches fun _ =>
  attaches_ite (silent_skip.bind fun _ => attaches_pure rfl) (attaches_pure rfl)

lemma silent_expect (w : Text) : Silent (expect w) := fun _ => (silent_eat w).bind fun _ =>
  attaches_ite (asks_current.bind_attaches fun _ => attaches_fail _) (attaches_pure rfl)

lemma silent_expectWord (w : Text) : Silent (expectWord w) := fun _ => (asks_atWord w).bind_attaches fun _ =>
  attaches_ite ((attaches_fail _).bind fun _ => silent_skip _) (silent_skip _)

lemma silent_semicolon : Silent semicolon := fun _ => (silent_eat _).bind fun _ =>
  attaches_ite (asks_current.bind_attaches fun _ => attaches_ite attaches_unexpected (attaches_pure rfl))
    (attaches_pure rfl)

lemma attaches_drainComments (before : List Text) : Attaches before (before ++ ·) drainComments :=
  fun _ s hrecovered => ⟨hrecovered, List.suffix_rfl, by simp [State.comments]⟩

/-! ### Loops -/

section Loops

variable {α : Type} {before : List Text}

lemma attaches_extend (attached : α → List Text) {step : α → Parser (Option α)} {start : α}
    (h : ∀ a, Attaches (attached a) (fun b => attached (b.getD a)) (step a)) :
    Attaches (attached start) attached (extend step start) := by
  have hgo (n : Nat) (a : α) : Attaches (attached a) attached (extend.go step n a) := by
    induction n generalizing a with
    | zero => exact attaches_unexpected
    | succ n ih =>
      refine (h a).bind fun b => ?_
      cases b with
      | none => exact attaches_pure rfl
      | some b => exact ih b
  exact asks_tokensLeft.bind_attaches fun _ => hgo _ _

lemma attaches_extension {step : Tree → Parser (Option Tree)} {start : Tree}
    (h : ∀ owner, Attaches (before ++ owner.comments) (fun extended => before ++ (extended.getD owner).comments)
      (step owner)) :
    Attaches (before ++ start.comments) (fun t => before ++ t.comments) (extend step start) :=
  attaches_extend (before ++ Tree.comments ·) h

lemma attaches_repeatUntil {stop : Parser Bool} {item : Parser α} {attached : α → List Text} (hstop : Silent stop)
    (h : ∀ before, Attaches before (fun a => before ++ attached a) item) :
    Attaches before (fun as => before ++ as.flatMap attached) (repeatUntil stop item) := by
  have hgo (n : Nat) (before : List Text) :
      Attaches before (fun as => before ++ as.flatMap attached) (repeatUntil.go stop item n) := by
    induction n generalizing before with
    | zero => exact attaches_unexpected
    | succ n ih =>
      refine hstop.bind fun done => attaches_ite (attaches_pure (by simp)) ?_
      refine (h before).bind fun a => (ih _).bind fun as => attaches_pure ?_
      rw [List.flatMap_cons, List.append_assoc]
  exact asks_tokensLeft.bind_attaches fun _ => hgo _ _

lemma attaches_commaList {closing : Text} {item : Parser Tree} (h : Collects item) :
    Attaches before (fun ts => before ++ ts.flatMap Tree.comments) (commaList closing item) := by
  refine attaches_repeatUntil (asks_atPunct _).silent fun before => (h before).bind fun t => ?_
  refine (asks_atPunct _).bind_attaches fun _ => attaches_ite ?_ (attaches_pure rfl)
  exact (silent_expect _).bind fun _ => attaches_pure rfl

lemma attaches_inFunction {p : Parser α} {after : α → List Text} {isAsync isGenerator : Bool}
    (h : Attaches before after p) : Attaches before after (inFunction isAsync isGenerator p) :=
  fun _ s => h _ s

end Loops

/-! ### Nodes -/

section Nodes

variable {before : List Text} {payload : Payload Tree} {position : Position}

/-- A node collects what is in its slots. -/
lemma attaches_node {pre : List Text} (slots : List (Slot Tree)) (hslots : payload.slots.map Prod.snd = slots)
    (h : before = pre ++ slots.flatMap Slot.comments) :
    Attaches before (fun t => pre ++ t.comments) (pure (Tree.of payload position)) :=
  attaches_pure (by rw [h, Tree.comments_of slots hslots])

lemma attaches_leaf (h : payload.slots = []) :
    Attaches before (fun t => before ++ t.comments) (pure (Tree.of payload position)) :=
  attaches_node [] (by rw [h]; rfl) (by simp)

/-- What a node is extended to collects what is in its slots. -/
lemma attaches_extended {pre : List Text} {owner : Tree} (slots : List (Slot Tree))
    (hslots : payload.slots.map Prod.snd = slots) (h : before = pre ++ slots.flatMap Slot.comments) :
    Attaches before (fun extended => pre ++ (extended.getD owner).comments) (pure (some (Tree.of payload position))) :=
  attaches_pure (by rw [h, Option.getD_some, Tree.comments_of slots hslots])

lemma collects_identifierHere : Collects identifierHere := fun _ =>
  asks_here.bind_attaches fun _ => silent_advance.bind fun _ => attaches_leaf rfl

/-- Where nothing is read for a slot, nothing is attached. -/
lemma attaches_none {β : Type} {after : β → List Text} {q : Option Tree → Parser β}
    (h : ∀ slot, Attaches (before ++ Tree.commentsIn slot) after (q slot)) : Attaches before after (q none) := by
  simpa using h none

lemma Collects.some {p : Parser Tree} (h : Collects p) :
    Attaches before (fun slot => before ++ Tree.commentsIn slot) (some <$> p) := (h before).map fun _ => rfl

end Nodes

end Grammar

end PlainScript
