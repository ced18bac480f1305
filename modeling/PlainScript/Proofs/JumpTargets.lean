import PlainScript.Proofs.Recovery
import PlainScript.Proofs.Unflattening

/-! Where the jumps of a tree lead. A jump passes the nodes around it, up to the function that it stands in, until
one of them catches it. The cases of a flattened loop take its place only if none of their jumps is caught by the
`switch` or by the loop, so that every jump is still caught where it was. -/
namespace PlainScript

open Relation

/-- The label that a statement gives to the one inside it. -/
def Payload.label? {α : Type} : Payload α → Option Text
  | labeledStatement label _ => some label
  | _ => none

namespace Payload

variable {α : Type}

/-- A jump out of a statement or to the next round of a loop. -/
def isJump : Payload α → Bool
  | breakStatement _ | continueStatement _ => true
  | _ => false

lemma label?_splice (p : Payload α) (place : Place) (rs : List α) : (p.splice place rs).label? = p.label? := by
  unfold splice
  split <;> cases p <;> rfl

lemma isJump_splice (p : Payload α) (place : Place) (rs : List α) : (p.splice place rs).isJump = p.isJump := by
  unfold splice
  split <;> cases p <;> rfl

lemma isJump_of_place [DecidableEq α] {p : Payload α} {child : α} {place : Place} (h : p.place? child = some place) :
    p.isJump = false := by
  cases p
  case breakStatement => cases h
  case continueStatement => cases h
  all_goals rfl

/-- There is no list below a label. -/
lemma label?_of_list [DecidableEq α] {p : Payload α} {child : α} {place : Place} (h : p.place? child = some place)
    (hi : place.index.isSome = true) : p.label? = none := by
  cases p
  case labeledStatement label body =>
    replace h : (if body = some child then some (⟨0, .statement, none⟩ : Place) else none) = some place := h
    split_ifs at h
    cases h
    cases hi
  all_goals rfl

end Payload

namespace Arena

/-! ### Jumps and their targets -/

/-- The label that a node gives to the statement inside it. -/
def label? (a : Arena) (x : NodeId) : Option Text := (a.payload? x).bind Payload.label?

/-- The label stands on the node, maybe among others. -/
inductive Carries (a : Arena) (label : Text) : NodeId → Prop
  | here {x y : NodeId} (hparent : a.parentOf x = some y) (hlabel : a.label? y = some label) : Carries a label x
  | up {x y : NodeId} {other : Text} (hparent : a.parentOf x = some y) (hother : a.label? y = some other)
      (h : Carries a label y) : Carries a label x

def IsLoop (a : Arena) (x : NodeId) : Prop := ∃ k, a.kind? x = some k ∧ k.isLoop = true

/-- The jumps in the node are its own. -/
def OwnsJumps (a : Arena) (x : NodeId) : Prop := ∃ k, a.kind? x = some k ∧ hasOwnJumps k = true

/-- A jump that stands in the node ends there: a `break` without a label at a loop or a `switch`, a `continue` at a
loop, and one with a label where the label stands. -/
def Catches (a : Arena) (x : NodeId) : Payload NodeId → Prop
  | .breakStatement label =>
    if label.isEmpty then a.IsLoop x ∨ a.kind? x = some .switchStatement else a.Carries label x
  | .continueStatement label => a.IsLoop x ∧ (label.isEmpty = true ∨ a.Carries label x)
  | _ => False

/-- The jump goes on from the node to its parent. -/
def Passes (a : Arena) (jump : Payload NodeId) (x y : NodeId) : Prop :=
  a.parentOf x = some y ∧ ¬ a.OwnsJumps x ∧ ¬ a.Catches x jump

/-- A jump at `x` leads to `t`, the first node on its way that catches it, in the same function. -/
def Targets (a : Arena) (jump : Payload NodeId) (x t : NodeId) : Prop :=
  ReflTransGen (a.Passes jump) x t ∧ ¬ a.OwnsJumps t ∧ a.Catches t jump

variable {a b : Arena} {jump : Payload NodeId} {root x y t : NodeId} {label : Text}

lemma catches_congr (hkind : b.kind? y = a.kind? x) (hlabels : ∀ label, b.Carries label y ↔ a.Carries label x) :
    b.Catches y jump ↔ a.Catches x jump := by
  cases jump <;> simp only [Catches, IsLoop, hkind, hlabels]

lemma not_carries (hparent : a.parentOf x = some y) (hnone : a.label? y = none) : ¬ a.Carries label x := by
  rintro (⟨h, hlabel⟩ | ⟨h, hlabel, -⟩) <;> obtain rfl := Option.some.inj (h.symm.trans hparent) <;>
    cases hlabel.symm.trans hnone

lemma carries_iff_parent (hparent : a.parentOf x = some y) :
    a.Carries label x ↔ a.label? y = some label ∨ (∃ other, a.label? y = some other) ∧ a.Carries label y := by
  constructor
  · rintro (⟨h, hlabel⟩ | ⟨h, hother, hup⟩) <;> obtain rfl := Option.some.inj (h.symm.trans hparent)
    · exact .inl hlabel
    · exact .inr ⟨⟨_, hother⟩, hup⟩
  · rintro (hlabel | ⟨⟨other, hother⟩, hup⟩)
    · exact .here hparent hlabel
    · exact .up hparent hother hup

lemma not_catches (jump : Payload NodeId) {k : Kind} (hk : a.kind? x = some k) (hloop : k.isLoop = false)
    (hswitch : k ≠ .switchStatement) (hlabels : ∀ label, ¬ a.Carries label x) : ¬ a.Catches x jump := by
  have hnot : ¬ a.IsLoop x := fun ⟨_, hk', h⟩ => by simp [Option.some.inj (hk'.symm.trans hk), hloop] at h
  cases jump <;> simp [Catches, hnot, hk, hswitch, hlabels]

lemma Targets.head (h : a.Passes jump x y) (ht : a.Targets jump y t) : a.Targets jump x t := ⟨.head h ht.1, ht.2⟩

/-- A jump ends at a node or goes on from there. -/
lemma Targets.cases (h : a.Targets jump x t) :
    t = x ∧ ¬ a.OwnsJumps x ∧ a.Catches x jump ∨ ∃ y, a.Passes jump x y ∧ a.Targets jump y t := by
  obtain ⟨hpath, hown, hcatches⟩ := h
  obtain rfl | ⟨y, hpasses, hpath⟩ := hpath.cases_head
  · exact .inl ⟨rfl, hown, hcatches⟩
  · exact .inr ⟨y, hpasses, hpath, hown, hcatches⟩

/-- A jump goes on from a node that does not catch it. -/
lemma Targets.up (h : a.Targets jump x t) (hparent : a.parentOf x = some y) (hcatches : ¬ a.Catches x jump) :
    a.Passes jump x y ∧ a.Targets jump y t := by
  obtain ⟨-, -, hc⟩ | ⟨y', hpasses, ht⟩ := h.cases
  · exact absurd hc hcatches
  · obtain rfl := Option.some.inj (hparent.symm.trans hpasses.1)
    exact ⟨hpasses, ht⟩

/-! ### The labels of a loop -/

lemma labelsUpTo_succ (hparent : a.parentOf x = some y) (hlabel : a.label? y = some label) (steps : Nat) :
    a.labelsUpTo (steps + 1) x = label :: a.labelsUpTo steps y := by
  obtain ⟨p, hp, hlabel⟩ := Option.bind_eq_some_iff.mp hlabel
  cases p <;> try cases hlabel
  rw [labelsUpTo, show (a.cell? x).bind (·.parent) = some y from hparent]
  simp only [hp]

lemma Carries.mem_labelsUpTo (hfirm : Firm a.parentOf a.childIds) (h : a.Carries label x) {steps : Nat}
    {below : List NodeId} (hway : (x :: below).Pairwise fun x y => TransGen a.HasParent y x)
    (hlt : ∀ y ∈ below, y < a.size) (hsteps : a.size ≤ steps + below.length) : label ∈ a.labelsUpTo steps x := by
  -- The way up to the node has fewer nodes than there are, so that there are steps left.
  have hsucc {x y : NodeId} {below : List NodeId} {steps : Nat} (hparent : a.parentOf x = some y)
      (hway : (x :: below).Pairwise fun x y => TransGen a.HasParent y x) (hlt : ∀ y ∈ below, y < a.size)
      (hsteps : a.size ≤ steps + below.length) : ∃ n, steps = n + 1 := by
    have hlength := hfirm.length_le (fun _ _ => .inr) hway
      (List.forall_mem_cons.mpr ⟨lt_size_of_parentOf hparent, hlt⟩)
    rw [List.length_cons] at hlength
    exact ⟨steps - 1, by omega⟩
  induction h generalizing steps below with
  | here hparent hlabel =>
    obtain ⟨n, rfl⟩ := hsucc hparent hway hlt hsteps
    simp [labelsUpTo_succ hparent hlabel]
  | @up x y other hparent hother h ih =>
    obtain ⟨n, rfl⟩ := hsucc hparent hway hlt hsteps
    rw [labelsUpTo_succ hparent hother]
    have hway' : (y :: x :: below).Pairwise fun x y => TransGen a.HasParent y x :=
      List.pairwise_cons.mpr ⟨List.forall_mem_cons.mpr ⟨.single hparent, fun z hz =>
        ((List.pairwise_cons.mp hway).1 z hz).tail hparent⟩, hway⟩
    have hsteps' : a.size ≤ n + (x :: below).length := by
      rw [List.length_cons]
      omega
    exact List.mem_cons_of_mem _ (ih hway' (List.forall_mem_cons.mpr ⟨lt_size_of_parentOf hparent, hlt⟩) hsteps')

lemma Carries.mem_loopLabels (hfirm : Firm a.parentOf a.childIds) (h : a.Carries label x) :
    label ∈ a.loopLabels x :=
  h.mem_labelsUpTo hfirm (List.pairwise_singleton _ _) (by simp) (by simp)

/-! ### Jumps that would miss their loop -/

section Escaping

variable {labels : List Text} {entered : Entered} {j : NodeId} {p : Payload NodeId}

/-- A node that a jump passes makes no difference to it. -/
lemma isEscaping_below {k : Kind} (hk : a.kind? x = some k) (hcatches : ¬ a.Catches x jump)
    (h : isEscaping labels entered jump = true) : isEscaping labels (entered.below k) jump = true := by
  have hloop : a.IsLoop x ↔ k.isLoop = true := ⟨fun ⟨_, hk', h⟩ => Option.some.inj (hk'.symm.trans hk) ▸ h,
    fun h => ⟨k, hk, h⟩⟩
  cases jump with
  | breakStatement label =>
    simp only [isEscaping, Bool.and_eq_true, Bool.not_eq_true'] at h ⊢
    simp only [Catches, h.1.1, if_true, hloop, hk, Option.some.injEq, not_or] at hcatches
    simpa [Entered.below, hcatches] using h
  | continueStatement label =>
    simp only [Catches, hloop] at hcatches
    by_cases hlabel : label.isEmpty = true
    · simp only [hlabel, true_or, and_true] at hcatches
      simp only [isEscaping, hlabel, if_true, Entered.below, if_neg hcatches] at h ⊢
      split <;> exact h
    · simpa [isEscaping, hlabel] using h
  | _ => cases h

lemma foldr_add_ne_zero {f : NodeId → Nat} {ids : List NodeId} {id : NodeId} (hid : id ∈ ids) (h : f id ≠ 0) :
    ids.foldr (fun id n => f id + n) 0 ≠ 0 := by
  induction ids with
  | nil => cases hid
  | cons other rest ih =>
    rw [List.foldr_cons]
    obtain rfl | hid := List.mem_cons.mp hid
    · omega
    · have := ih hid
      omega

lemma escapingUpTo_succ (hp : a.payload? x = some p) (hown : ¬ a.OwnsJumps x) (depth : Nat) :
    a.escapingUpTo labels (depth + 1) entered x = (if isEscaping labels entered p then 1 else 0) +
      p.children.foldr (fun child n => a.escapingUpTo labels depth (entered.below p.kind) child + n) 0 := by
  have hkind : hasOwnJumps p.kind = false := by
    by_contra h
    exact hown ⟨p.kind, by rw [kind?_eq, hp]; rfl, by simpa using h⟩
  simp [escapingUpTo, hp, hkind]

/-- The count finds every jump that passes the node it begins with. -/
lemma escapingUpTo_ne_zero (hfirm : Firm a.parentOf a.childIds) (hj : a.payload? j = some jump)
    (hpath : ReflTransGen (a.Passes jump) j x) (hown : ¬ a.OwnsJumps x) (hcatches : ¬ a.Catches x jump) {depth : Nat}
    {above : List NodeId} (hway : (x :: above).Pairwise (TransGen a.HasParent)) (hlt : ∀ y ∈ above, y < a.size)
    (hdepth : a.size ≤ depth + above.length) (h : isEscaping labels entered jump = true) :
    a.escapingUpTo labels depth entered x ≠ 0 := by
  -- The way down to the node has fewer nodes than there are, so that some depth is left.
  have hsucc {x : NodeId} {p : Payload NodeId} {above : List NodeId} {depth : Nat} (hp : a.payload? x = some p)
      (hway : (x :: above).Pairwise (TransGen a.HasParent)) (hlt : ∀ y ∈ above, y < a.size)
      (hdepth : a.size ≤ depth + above.length) : ∃ n, depth = n + 1 := by
    have hlength := hfirm.length_le (fun _ _ => .inl) hway (List.forall_mem_cons.mpr ⟨lt_size_of_payload? hp, hlt⟩)
    rw [List.length_cons] at hlength
    exact ⟨depth - 1, by omega⟩
  induction hpath generalizing depth entered above with
  | refl =>
    obtain ⟨n, rfl⟩ := hsucc hj hway hlt hdepth
    rw [escapingUpTo_succ hj hown, if_pos h]
    omega
  | @tail y x hpath hpasses ih =>
    obtain ⟨hparent, hown', hcatches'⟩ := hpasses
    have hchild := hfirm.mem_iff.mpr hparent
    cases hp : a.payload? x with
    | none => simp [childIds, hp] at hchild
    | some p =>
      rw [childIds_eq hp] at hchild
      have hk : a.kind? x = some p.kind := by rw [kind?_eq, hp]; rfl
      obtain ⟨n, rfl⟩ := hsucc hp hway hlt hdepth
      rw [escapingUpTo_succ hp hown]
      have hway' : (y :: x :: above).Pairwise (TransGen a.HasParent) :=
        List.pairwise_cons.mpr ⟨List.forall_mem_cons.mpr ⟨.single hparent, fun z hz =>
          .head hparent ((List.pairwise_cons.mp hway).1 z hz)⟩, hway⟩
      have hdepth' : a.size ≤ n + (x :: above).length := by
        rw [List.length_cons]
        omega
      have hbelow := ih hown' hcatches' hway' (List.forall_mem_cons.mpr ⟨lt_size_of_payload? hp, hlt⟩) hdepth'
        (isEscaping_below hk hcatches h)
      have := foldr_add_ne_zero (f := fun child => a.escapingUpTo labels n (entered.below p.kind) child) hchild hbelow
      omega

/-- Where the count finds nothing, no jump that passes the statements escapes. -/
lemma not_isEscaping (hfirm : Firm a.parentOf a.childIds) (hj : a.payload? j = some jump)
    (hpath : ReflTransGen (a.Passes jump) j x) (hown : ¬ a.OwnsJumps x) (hcatches : ¬ a.Catches x jump)
    {statements : List NodeId} (hx : x ∈ statements) (h : a.escapingJumps statements labels = 0) :
    ¬ isEscaping labels {} jump = true := fun hescaping =>
  foldr_add_ne_zero (f := a.escapingUpTo labels a.size {}) hx
    (escapingUpTo_ne_zero hfirm hj hpath hown hcatches (List.pairwise_singleton _ _) (by simp) (by simp) hescaping) h

end Escaping

/-! ### Jumps in what was restored -/

section Exchange

variable {target p : NodeId} {payload : Payload NodeId} {place : Payload.Place} {moved new : List NodeId}
  (h : a.Exchange root target p payload place moved new b)
include h

lemma Exchange.label?_of_lt (hx : x < a.size) (hstays : ¬ a.StaysWith moved target x) :
    b.label? x = a.label? x := by
  rw [label?, label?]
  by_cases hp : x = p
  · subst hp
    rw [h.replaced.payload?_place, h.payload_eq, Option.bind_some, Option.bind_some, Payload.label?_splice]
  · rw [h.payload?_of_lt hx hp hstays]

variable (hbefore : ∀ r ∈ moved, ∀ label, ¬ a.Carries label r) (hafter : ∀ r ∈ moved, ∀ label, ¬ b.Carries label r)
include hbefore hafter

/-- Where nothing is moved to or from a label, the labels stay with their statements. -/
lemma Exchange.carries_iff (hx : x < a.size) (hstays : ¬ a.StaysWith moved target x) :
    b.Carries label x ↔ a.Carries label x := by
  have hnot {x : NodeId} (hcarries : b.Carries label x) : x ∉ moved := fun hm => hafter x hm label hcarries
  have hnot' {x : NodeId} (hcarries : a.Carries label x) : x ∉ moved := fun hm => hbefore x hm label hcarries
  constructor
  · intro hcarries
    induction hcarries with
    | here hparent hlabel =>
      have hmoved := hnot (.here hparent hlabel)
      rw [h.parentOf_of_not_stays hx hmoved hstays] at hparent
      refine .here hparent ?_
      rwa [h.label?_of_lt (h.rooted.firm.parent_lt hparent) (parent_not_stays hparent hmoved hstays)] at hlabel
    | up hparent hother hup ih =>
      have hmoved := hnot (.up hparent hother hup)
      rw [h.parentOf_of_not_stays hx hmoved hstays] at hparent
      have hlt := h.rooted.firm.parent_lt hparent
      have hstays' := parent_not_stays hparent hmoved hstays
      rw [h.label?_of_lt hlt hstays'] at hother
      exact .up hparent hother (ih hlt hstays')
  · intro hcarries
    induction hcarries with
    | here hparent hlabel =>
      have hmoved := hnot' (.here hparent hlabel)
      have hlabel' := h.label?_of_lt (h.rooted.firm.parent_lt hparent) (parent_not_stays hparent hmoved hstays)
      exact .here ((h.parentOf_of_not_stays hx hmoved hstays).trans hparent) (hlabel'.trans hlabel)
    | up hparent hother hup ih =>
      have hmoved := hnot' (.up hparent hother hup)
      have hlt := h.rooted.firm.parent_lt hparent
      have hstays' := parent_not_stays hparent hmoved hstays
      exact .up ((h.parentOf_of_not_stays hx hmoved hstays).trans hparent)
        ((h.label?_of_lt hlt hstays').trans hother) (ih hlt hstays')

lemma Exchange.catches_iff (hx : x < a.size) (hstays : ¬ a.StaysWith moved target x) :
    b.Catches x jump ↔ a.Catches x jump :=
  catches_congr (h.kind?_of_lt hx hstays) fun _ => h.carries_iff hbefore hafter hx hstays

lemma Exchange.passes (hx : x < a.size) (hmoved : x ∉ moved) (hstays : ¬ a.StaysWith moved target x)
    (hpasses : a.Passes jump x y) : b.Passes jump x y := by
  obtain ⟨hparent, hown, hcatches⟩ := hpasses
  refine ⟨(h.parentOf_of_not_stays hx hmoved hstays).trans hparent, ?_, ?_⟩
  · rwa [OwnsJumps, h.kind?_of_lt hx hstays]
  · rwa [h.catches_iff hbefore hafter hx hstays]

/-- A node that caught a jump still does. -/
lemma Exchange.targets_self (hx : x < a.size) (hstays : ¬ a.StaysWith moved target x) (hown : ¬ a.OwnsJumps x)
    (hcatches : a.Catches x jump) : b.Targets jump x x := by
  refine ⟨.refl, ?_, (h.catches_iff hbefore hafter hx hstays).mpr hcatches⟩
  rwa [OwnsJumps, h.kind?_of_lt hx hstays]

/-- A jump outside of the node that went leads where it did. -/
lemma Exchange.targets_outside (hx : x < a.size) (houtside : ¬ ReflTransGen a.HasParent x target)
    (ht : a.Targets jump x t) : b.Targets jump x t := by
  obtain ⟨hpath, hown, hcatches⟩ := ht
  induction hpath using ReflTransGen.head_induction_on with
  | refl => exact h.targets_self hbefore hafter hx (fun hs => houtside hs.way) hown hcatches
  | @head x y hpasses _ ih =>
    have hmoved : x ∉ moved := fun hm => houtside (h.moved_way hm).to_reflTransGen
    exact .head (h.passes hbefore hafter hx hmoved (fun hs => houtside hs.way) hpasses)
      (ih (h.rooted.firm.parent_lt hpasses.1) fun hy => houtside (.head hpasses.1 hy))

end Exchange

section Merges

variable {loop dispatch block p j r : NodeId} {payload : Payload NodeId} {place : Payload.Place} {new : List NodeId}

/-- A statement of a case stands in the case, and that in the `switch`. -/
lemma exists_case (hfirm : Firm a.parentOf a.childIds) (hr : r ∈ a.mergedCases dispatch) :
    ∃ c, a.parentOf r = some c ∧ a.kind? c = some .switchCase ∧ a.label? c = none ∧
      a.parentOf c = some dispatch := by
  obtain ⟨c, hc, hr⟩ := List.mem_flatMap.mp hr
  obtain ⟨test, consequent, hp, -⟩ := mem_caseStatements hr
  exact ⟨c, hfirm.mem_iff.mp ((caseStatements_sublist a c).subset hr), by rw [kind?_eq, hp]; rfl,
    by rw [label?, hp]; rfl, hfirm.mem_iff.mp ((cases_sublist a dispatch).subset hc)⟩

/-- The block stands where the loop stood, which is nowhere now. -/
structure Restored (a b : Arena) (loop block : NodeId) : Prop where
  isLoop : a.IsLoop loop
  kind_eq : b.kind? block = some .blockStatement
  parent_eq : b.parentOf block = a.parentOf loop
  gone : b.parentOf loop = none

/-- A `break` with a label. -/
def IsLabeledBreak (jump : Payload NodeId) : Prop := ∃ label, jump = .breakStatement label ∧ label.isEmpty = false

lemma merged_before (h : a.Exchange root loop p payload place (a.mergedCases dispatch) new b) :
    ∀ r ∈ a.mergedCases dispatch, ∀ label, ¬ a.Carries label r := fun r hr label => by
  obtain ⟨c, hc, -, hlabel, -⟩ := exists_case h.rooted.firm hr
  exact not_carries hc hlabel

lemma merged_after (h : a.Exchange root loop p payload place (a.mergedCases dispatch) new b)
    (hnew : new = a.mergedCases dispatch ∧ place.index.isSome = true ∨
      new = [a.size] ∧ b.payload? a.size = some (.blockStatement ((a.mergedCases dispatch).map some))) :
    ∀ r ∈ a.mergedCases dispatch, ∀ label, ¬ b.Carries label r := fun r hr label => by
  obtain ⟨rfl, hi⟩ | ⟨rfl, hblock⟩ := hnew
  · refine not_carries (y := p) (by rw [h.replaced.parentOf_eq, if_pos hr]) ?_
    rw [label?, h.replaced.payload?_place, Option.bind_some, Payload.label?_splice,
      Payload.label?_of_list h.place_eq hi]
  · refine not_carries (y := a.size) ?_ (by rw [label?, hblock]; rfl)
    rw [h.replaced.parentOf_eq, if_neg, if_pos hr]
    exact fun hm => absurd (h.moved_lt hr) (List.mem_singleton.mp hm ▸ Nat.lt_irrefl _)

namespace Flattened

variable (hflat : a.Flattened loop dispatch block)
include hflat

lemma loop_label : a.label? loop = none := by
  obtain ⟨test, hp⟩ | ⟨init, test, update, hp⟩ := hflat.loop_eq <;> rw [label?, hp] <;> rfl

lemma block_kind : a.kind? block = some .blockStatement := by
  obtain ⟨rest, hp⟩ := hflat.block_eq
  rw [kind?_eq, hp]
  rfl

lemma block_label : a.label? block = none := by
  obtain ⟨rest, hp⟩ := hflat.block_eq
  rw [label?, hp]
  rfl

lemma dispatch_kind : a.kind? dispatch = some .switchStatement := by
  obtain ⟨discriminant, cases, hp⟩ := hflat.dispatch_eq
  rw [kind?_eq, hp]
  rfl

lemma dispatch_label : a.label? dispatch = none := by
  obtain ⟨discriminant, cases, hp⟩ := hflat.dispatch_eq
  rw [label?, hp]
  rfl

/-- Only a `break` without a label ends at the `switch`, and it would leave the loop. -/
lemma isEscaping_of_dispatch (hfirm : Firm a.parentOf a.childIds) (hcatches : a.Catches dispatch jump)
    (labels : List Text) : isEscaping labels {} jump = true := by
  have hnot : ¬ a.IsLoop dispatch := fun ⟨k, hk, hloop⟩ => by
    obtain rfl := Option.some.inj (hk.symm.trans hflat.dispatch_kind)
    cases hloop
  cases jump with
  | breakStatement label =>
    rw [Catches] at hcatches
    split_ifs at hcatches with hlabel
    · simp [isEscaping, hlabel]
    · exact absurd hcatches (not_carries (hflat.dispatch_parent hfirm) hflat.block_label)
  | continueStatement label => exact absurd hcatches.1 hnot
  | _ => exact hcatches.elim

omit hflat in
/-- A jump that ends at the loop would leave it, unless it is a `break` with a label. -/
lemma isEscaping_of_loop (hfirm : Firm a.parentOf a.childIds) (hcatches : a.Catches loop jump) :
    isEscaping (a.loopLabels loop) {} jump = true ∨ IsLabeledBreak jump := by
  cases jump with
  | breakStatement label =>
    cases hlabel : label.isEmpty with
    | true => exact .inl (by simp [isEscaping, hlabel])
    | false => exact .inr ⟨label, rfl, hlabel⟩
  | continueStatement label =>
    refine .inl ?_
    obtain ⟨-, hlabel | hlabel⟩ := hcatches
    · simp [isEscaping, hlabel]
    · rw [isEscaping]
      split
      · rfl
      · exact List.elem_eq_true_of_mem (hlabel.mem_loopLabels hfirm)
  | _ => exact hcatches.elim

/-- A jump that escapes neither the `switch` nor the loop goes on from a case to what is around the loop, or it ends
at the loop. -/
lemma targets_loop (hfirm : Firm a.parentOf a.childIds) (hnot : ¬ isEscaping (a.loopLabels loop) {} jump = true)
    {c : NodeId} (hc : a.kind? c = some .switchCase) (hparent : a.parentOf c = some dispatch)
    (ht : a.Targets jump c t) : a.Targets jump loop t := by
  have hcase := not_catches jump hc rfl (by decide) fun _ => not_carries hparent hflat.dispatch_label
  have hdispatch : ¬ a.Catches dispatch jump := fun hc => hnot (hflat.isEscaping_of_dispatch hfirm hc _)
  have hblock := not_catches jump hflat.block_kind rfl (by decide) fun _ =>
    not_carries (hflat.block_parent hfirm) hflat.loop_label
  exact (((ht.up hparent hcase).2.up (hflat.dispatch_parent hfirm) hdispatch).2.up (hflat.block_parent hfirm) hblock).2

end Flattened

section Block

variable (h : a.Exchange root loop p payload place (a.mergedCases dispatch) [a.size] b)
  (hblock : b.payload? a.size = some (.blockStatement ((a.mergedCases dispatch).map some)))
include h

lemma parentOf_block : b.parentOf a.size = some p := by
  rw [h.replaced.parentOf_eq, if_pos (List.mem_singleton.mpr rfl)]

lemma parentOf_merged (hr : r ∈ a.mergedCases dispatch) : b.parentOf r = some a.size := by
  rw [h.replaced.parentOf_eq, if_neg, if_pos hr]
  exact fun hm => absurd (h.moved_lt hr) (List.mem_singleton.mp hm ▸ Nat.lt_irrefl _)

include hblock

omit h in
lemma kind?_block : b.kind? a.size = some .blockStatement := by
  rw [kind?_eq, hblock]
  rfl

/-- The labels of the loop stand on the block. -/
lemma carries_block : b.Carries label a.size ↔ a.Carries label loop := by
  have hlt := h.rooted.firm.parent_lt h.parent_eq
  rw [carries_iff_parent (parentOf_block h), carries_iff_parent h.parent_eq, h.label?_of_lt hlt h.p_not_stays,
    h.carries_iff (merged_before h) (merged_after h (.inr ⟨rfl, hblock⟩)) hlt h.p_not_stays]

lemma catches_block (hcatches : b.Catches a.size jump) : a.Catches loop jump := by
  have hnot : ¬ b.IsLoop a.size := fun ⟨k, hk, hloop⟩ => by
    obtain rfl := Option.some.inj (hk.symm.trans (kind?_block hblock))
    cases hloop
  cases jump with
  | breakStatement label =>
    rw [Catches] at hcatches ⊢
    split_ifs at hcatches ⊢
    · simp [hnot, kind?_block hblock] at hcatches
    · exact (carries_block h hblock).mp hcatches
  | continueStatement label => exact absurd hcatches.1 hnot
  | _ => exact hcatches.elim

omit h in
lemma not_ownsJumps_block : ¬ b.OwnsJumps a.size := fun ⟨k, hk, hown⟩ => by
  obtain rfl := Option.some.inj (hk.symm.trans (kind?_block hblock))
  cases hown

end Block

variable (h : a.Exchange root loop p payload place (a.mergedCases dispatch) new b)
  (hnew : new = a.mergedCases dispatch ∧ place.index.isSome = true ∨
    new = [a.size] ∧ b.payload? a.size = some (.blockStatement ((a.mergedCases dispatch).map some)))

include h hnew

/-- A jump that goes on from a statement of a case goes on to where the loop was. -/
lemma merged_lands (hr : r ∈ a.mergedCases dispatch) (hown : ¬ a.OwnsJumps r) (hcatches : ¬ a.Catches r jump)
    (hloop : ¬ a.Catches loop jump) : ReflTransGen (b.Passes jump) r p := by
  have hlt := h.moved_lt hr
  have hstays := h.moved_not_stays hr
  have hown' : ¬ b.OwnsJumps r := by rwa [OwnsJumps, h.kind?_of_lt hlt hstays]
  have hcatches' : ¬ b.Catches r jump := by rwa [h.catches_iff (merged_before h) (merged_after h hnew) hlt hstays]
  obtain ⟨rfl, -⟩ | ⟨rfl, hblock⟩ := hnew
  · exact .single ⟨by rw [h.replaced.parentOf_eq, if_pos hr], hown', hcatches'⟩
  · exact .head ⟨parentOf_merged h hr, hown', hcatches'⟩ (.single ⟨parentOf_block h, not_ownsJumps_block hblock,
      fun hc => hloop (catches_block h hblock hc)⟩)

/-- A `break` with a label of the loop ends at the block. -/
lemma merged_restored (hr : r ∈ a.mergedCases dispatch) (hown : ¬ a.OwnsJumps r) (hcatches : ¬ a.Catches r jump)
    (hflat : a.Flattened loop dispatch block) (hlabel : IsLabeledBreak jump) (hloop : a.Catches loop jump) :
    ∃ t', b.Targets jump r t' ∧ Restored a b loop t' := by
  have hlt := h.moved_lt hr
  have hstays := h.moved_not_stays hr
  have hown' : ¬ b.OwnsJumps r := by rwa [OwnsJumps, h.kind?_of_lt hlt hstays]
  have hcatches' : ¬ b.Catches r jump := by rwa [h.catches_iff (merged_before h) (merged_after h hnew) hlt hstays]
  obtain ⟨label, rfl, hempty⟩ := hlabel
  have hcarries : a.Carries label loop := by simpa [Catches, hempty] using hloop
  obtain ⟨rfl, hi⟩ | ⟨rfl, hblock⟩ := hnew
  · refine absurd hcarries (not_carries h.parent_eq ?_)
    rw [label?, h.payload_eq, Option.bind_some, Payload.label?_of_list h.place_eq hi]
  · refine ⟨a.size, ⟨.single ⟨parentOf_merged h hr, hown', hcatches'⟩, not_ownsJumps_block hblock, ?_⟩,
      hflat.loop_kind, kind?_block hblock, (parentOf_block h).trans h.parent_eq.symm, ?_⟩
    · simpa [Catches, hempty] using (carries_block h hblock).mpr hcarries
    · rw [h.parentOf_of_lt h.target_lt h.target_not_moved, if_pos rfl]

variable (hflat : a.Flattened loop dispatch block)
  (hjumps : a.escapingJumps (a.mergedCases dispatch) (a.loopLabels loop) = 0)
include hflat hjumps

/-- A jump in what is left of the tree leads where it did, or to the block in the place of the loop. -/
lemma exchange_targets (hj : a.payload? j = some jump) (hway : ReflTransGen (a.Passes jump) j x) (hx : x < a.size)
    (hstays : ¬ a.StaysWith (a.mergedCases dispatch) loop x) (ht : a.Targets jump x t) :
    ∃ t', b.Targets jump x t' ∧ (t' = t ∨ IsLabeledBreak jump ∧ t = loop ∧ Restored a b loop t') := by
  have hfirm := h.rooted.firm
  have hbefore := merged_before h
  have hafter := merged_after h hnew
  obtain ⟨hpath, hown, hcatches⟩ := ht
  induction hpath using ReflTransGen.head_induction_on with
  | refl => exact ⟨t, h.targets_self hbefore hafter hx hstays hown hcatches, .inl rfl⟩
  | @head x y hpasses hpath ih =>
    by_cases hr : x ∈ a.mergedCases dispatch
    · obtain ⟨hparent, hownX, hcatchesX⟩ := hpasses
      have hnot : ¬ isEscaping (a.loopLabels loop) {} jump = true :=
        not_isEscaping hfirm hj hway hownX hcatchesX hr hjumps
      obtain ⟨c, hc, hckind, -, hcparent⟩ := exists_case hfirm hr
      obtain rfl := Option.some.inj (hparent.symm.trans hc)
      have hloop := hflat.targets_loop hfirm hnot hckind hcparent ⟨hpath, hown, hcatches⟩
      obtain ⟨rfl, -, hcaught⟩ | ⟨q, hpassesLoop, ht⟩ := hloop.cases
      · have hlabel := (Flattened.isEscaping_of_loop hfirm hcaught).resolve_left hnot
        obtain ⟨t', ht', hrestored⟩ := merged_restored h hnew hr hownX hcatchesX hflat hlabel hcaught
        exact ⟨t', ht', .inr ⟨hlabel, rfl, hrestored⟩⟩
      · obtain rfl := Option.some.inj (h.parent_eq.symm.trans hpassesLoop.1)
        have ht' := h.targets_outside hbefore hafter (hfirm.parent_lt h.parent_eq)
          (fun hp => hfirm.acyclic _ (.head' h.parent_eq hp)) ht
        exact ⟨t, ⟨(merged_lands h hnew hr hownX hcatchesX hpassesLoop.2.2).trans ht'.1, ht'.2⟩, .inl rfl⟩
    · obtain ⟨t', ht', hcases⟩ := ih (hway.tail hpasses) (hfirm.parent_lt hpasses.1)
        (Exchange.parent_not_stays hpasses.1 hr hstays)
      exact ⟨t', ht'.head (h.passes hbefore hafter hx hr hstays hpasses), hcases⟩

end Merges

/-! ### Jumps after a run -/

/-- Every jump of the tree has its target. -/
def WellTargeted (a : Arena) (root : NodeId) : Prop :=
  ∀ j jump, ReflTransGen a.HasParent j root → a.payload? j = some jump → jump.isJump = true → ∃ t, a.Targets jump j t

/-- The target of a jump is the same node in the same place, or for a `break` with a label the block in the place of
the loop that it was. -/
def Leads (a b : Arena) (jump : Payload NodeId) (t t' : NodeId) : Prop :=
  t' = t ∧ b.kind? t = a.kind? t ∧ (IsLabeledBreak jump → b.parentOf t = a.parentOf t) ∨
    IsLabeledBreak jump ∧ Restored a b t t'

section Steps

variable {c : Arena} {t' t'' j : NodeId}

lemma Leads.trans (h : Leads a b jump t t') (h' : Leads b c jump t' t'')
    (hgone : t < a.size → b.parentOf t = none → c.parentOf t = none) : Leads a c jump t t'' := by
  obtain ⟨rfl, hkind, hparent⟩ | ⟨hlabel, hrestored⟩ := h <;>
    obtain ⟨rfl, hkind', hparent'⟩ | ⟨hlabel', hrestored'⟩ := h'
  · exact .inl ⟨rfl, hkind'.trans hkind, fun hlabel => (hparent' hlabel).trans (hparent hlabel)⟩
  · refine .inr ⟨hlabel', ?_, hrestored'.kind_eq, hrestored'.parent_eq.trans (hparent hlabel'), hrestored'.gone⟩
    rw [IsLoop, ← hkind]
    exact hrestored'.isLoop
  · obtain ⟨k, hk, -⟩ := hrestored.isLoop
    exact .inr ⟨hlabel, hrestored.isLoop, hkind'.trans hrestored.kind_eq,
      (hparent' hlabel).trans hrestored.parent_eq, hgone (lt_size_of_kind? hk) hrestored.gone⟩
  · obtain ⟨k, hk, hloop⟩ := hrestored'.isLoop
    obtain rfl := Option.some.inj (hrestored.kind_eq.symm.trans hk)
    cases hloop

lemma Rooted.attached_of_way (h : a.Rooted root) (hj : ReflTransGen a.HasParent j root)
    (hway : ReflTransGen a.HasParent j t) : ReflTransGen a.HasParent t root := by
  induction hway with
  | refl => exact hj
  | tail _ hparent ih =>
    obtain rfl | ⟨y, hy, hroot⟩ := ih.cases_head
    · cases hparent.symm.trans h.parentOf_root
    · exact Option.some.inj (hparent.symm.trans hy) ▸ hroot

lemma Targets.way (h : a.Targets jump x t) : ReflTransGen a.HasParent x t :=
  ReflTransGen.mono (fun _ _ => And.left) _ _ h.1

lemma Targets.lt (h : a.Targets jump x t) (hfirm : Firm a.parentOf a.childIds) (hx : x < a.size) : t < a.size := by
  obtain rfl | ⟨y, -, hy⟩ := h.way.cases_tail
  · exact hx
  · exact hfirm.parent_lt hy

/-- A node that stands nowhere stays there. -/
lemma Merges.parentOf_none (h : Merges root a b) (hx : x < a.size) (hnone : a.parentOf x = none) :
    b.parentOf x = none := by
  obtain ⟨loop, dispatch, block, p, payload, place, new, -, hexchange, -⟩ := h
  rw [hexchange.parentOf_of_lt hx fun hm => ?_]
  · split
    · rfl
    · exact hnone
  · obtain ⟨q, hq, -⟩ := hexchange.taken x hm
    cases hnone.symm.trans hq

/-- A jump that is left in the tree was there before and leads where it did. -/
lemma Merges.keeps_targets (h : Merges root a b) (hway : ReflTransGen b.HasParent j root)
    (hj : b.payload? j = some jump) (hjump : jump.isJump = true) :
    ReflTransGen a.HasParent j root ∧ a.payload? j = some jump ∧
      ∀ t, a.Targets jump j t → ∃ t', b.Targets jump j t' ∧ Leads a b jump t t' := by
  obtain ⟨loop, dispatch, block, p, payload, place, new, hflat, hexchange, hjumps, hnew, -⟩ := h
  have hlt : j < a.size := by
    obtain ⟨-, hsize⟩ | ⟨-, hsize, hfresh⟩ := hexchange.replaced.filling
    · exact hsize ▸ lt_size_of_payload? hj
    · have hj' : j < a.size + 1 := hsize ▸ lt_size_of_payload? hj
      refine (Nat.lt_succ_iff_lt_or_eq.mp hj').resolve_right ?_
      rintro rfl
      obtain hblock | ⟨-, hempty⟩ := hfresh
      · cases Option.some.inj (hblock.symm.trans hj) ▸ hjump
      · cases Option.some.inj (hempty.symm.trans hj) ▸ hjump
  have hstays : ¬ a.StaysWith (a.mergedCases dispatch) loop j := fun hs => hexchange.not_attached hs hway
  have hp : j ≠ p := by
    rintro rfl
    obtain rfl := Option.some.inj (hexchange.replaced.payload?_place.symm.trans hj)
    rw [Payload.isJump_splice, Payload.isJump_of_place hexchange.place_eq] at hjump
    cases hjump
  have hj' : a.payload? j = some jump := (hexchange.payload?_of_lt hlt hp hstays).symm.trans hj
  refine ⟨hexchange.attached_before hway hlt, hj', fun t ht => ?_⟩
  obtain ⟨t', ht', rfl | ⟨hlabel, rfl, hrestored⟩⟩ := exchange_targets hexchange hnew hflat hjumps hj' .refl hlt hstays ht
  · have hltT := ht.lt hexchange.rooted.firm hlt
    have hstaysT : ¬ a.StaysWith (a.mergedCases dispatch) loop t' := fun hs =>
      hexchange.not_attached hs (hexchange.rooted_after.attached_of_way hway ht'.way)
    refine ⟨t', ht', .inl ⟨rfl, hexchange.kind?_of_lt hltT hstaysT, fun ⟨label, hlabel, hempty⟩ => ?_⟩⟩
    refine hexchange.parentOf_of_not_stays hltT (fun hm => merged_before hexchange t' hm label ?_) hstaysT
    obtain ⟨-, -, hcatches⟩ := ht
    subst hlabel
    simpa [Catches, hempty] using hcatches
  · exact ⟨t', ht', .inr ⟨hlabel, hrestored⟩⟩

lemma merges_keep_targets {n : Nat} (h : InSteps (Merges root) n a b) (hway : ReflTransGen b.HasParent j root)
    (hj : b.payload? j = some jump) (hjump : jump.isJump = true) :
    ReflTransGen a.HasParent j root ∧ a.payload? j = some jump ∧
      ∀ t, a.Targets jump j t → ∃ t', b.Targets jump j t' ∧ Leads a b jump t t' := by
  induction h with
  | zero => exact ⟨hway, hj, fun t ht => ⟨t, ht, .inl ⟨rfl, rfl, fun _ => rfl⟩⟩⟩
  | succ hsteps hstep ih =>
    obtain ⟨hway', hj', hkeeps'⟩ := hstep.keeps_targets hway hj hjump
    obtain ⟨hway'', hj'', hkeeps⟩ := ih hway' hj'
    refine ⟨hway'', hj'', fun t ht => ?_⟩
    obtain ⟨t', ht', hleads⟩ := hkeeps t ht
    obtain ⟨t'', ht'', hleads'⟩ := hkeeps' t' ht'
    have hsize := hsteps.keeps (P := fun b => _ ≤ b.size) (fun _ _ hle hm => Nat.le_trans hle hm.size_le) (Nat.le_refl _)
    exact ⟨t'', ht'', hleads.trans hleads' fun hlt hnone => hstep.parentOf_none (Nat.lt_of_lt_of_le hlt hsize) hnone⟩

end Steps

/-! ### Targets that are found -/

/-- Whether a jump in the node ends there. -/
def catchesJump (a : Arena) (x : NodeId) : Payload NodeId → Bool
  | .breakStatement label =>
    if label.isEmpty then (a.kind? x).any fun k => k.isLoop || k = .switchStatement
    else (a.loopLabels x).contains label
  | .continueStatement label =>
    (a.kind? x).any Kind.isLoop && (label.isEmpty || (a.loopLabels x).contains label)
  | _ => false

/-- The target of a jump at a node. -/
def targetUpTo (a : Arena) (jump : Payload NodeId) : Nat → NodeId → Option NodeId
  | 0, _ => none
  | steps + 1, x =>
    if (a.kind? x).any hasOwnJumps then none
    else if a.catchesJump x jump then some x
    else (a.parentOf x).bind (a.targetUpTo jump steps)

/-- Whether all jumps have targets. -/
def allTargeted (a : Arena) : Bool :=
  (List.range a.size).all fun j =>
    (a.payload? j).all fun p => !p.isJump || (a.targetUpTo p a.size j).isSome

lemma carries_of_mem_labelsUpTo {steps : Nat} (h : label ∈ a.labelsUpTo steps x) : a.Carries label x := by
  induction steps generalizing x with
  | zero => cases h
  | succ steps ih =>
    rw [labelsUpTo] at h
    split at h
    next => cases h
    next up hup =>
      split at h
      next other body hp =>
        have hother : a.label? up = some other := by rw [label?, hp]; rfl
        obtain rfl | h := List.mem_cons.mp h
        · exact .here hup hother
        · exact .up hup hother (ih h)
      next => cases h

lemma Firm.catchesJump_iff (hfirm : Firm a.parentOf a.childIds) : a.catchesJump x jump = true ↔ a.Catches x jump := by
  have hlabels (label : Text) : (a.loopLabels x).contains label = true ↔ a.Carries label x :=
    List.contains_iff_mem.trans ⟨carries_of_mem_labelsUpTo, fun h => h.mem_loopLabels hfirm⟩
  have hloop : (a.kind? x).any Kind.isLoop = true ↔ a.IsLoop x := by
    rw [Option.any_eq_true]
    rfl
  cases jump with
  | breakStatement label =>
    rw [catchesJump, Catches]
    split
    · rw [← hloop]
      cases a.kind? x <;> simp
    · exact hlabels label
  | continueStatement label => rw [catchesJump, Catches, Bool.and_eq_true, Bool.or_eq_true, hloop, hlabels]
  | _ => simp [catchesJump, Catches]

lemma Firm.targets_of_targetUpTo (hfirm : Firm a.parentOf a.childIds) {steps : Nat}
    (h : a.targetUpTo jump steps x = some t) : a.Targets jump x t := by
  induction steps generalizing x with
  | zero => cases h
  | succ steps ih =>
    rw [targetUpTo] at h
    split_ifs at h with hown hcatches
    · cases h
      exact ⟨.refl, fun ⟨k, hk, hk'⟩ => hown (by rw [hk]; exact hk'), hfirm.catchesJump_iff.mp hcatches⟩
    · obtain ⟨y, hparent, ht⟩ := Option.bind_eq_some_iff.mp h
      exact (ih ht).head ⟨hparent, fun ⟨k, hk, hk'⟩ => hown (by rw [hk]; exact hk'),
        fun hc => hcatches (hfirm.catchesJump_iff.mpr hc)⟩

lemma Firm.wellTargeted (hfirm : Firm a.parentOf a.childIds) (h : a.allTargeted = true) : a.WellTargeted root := by
  intro j jump _ hj hjump
  have hall := List.all_eq_true.mp h j (List.mem_range.mpr (lt_size_of_payload? hj))
  rw [hj, Option.all_some, hjump, Bool.not_true, Bool.false_or] at hall
  obtain ⟨t, ht⟩ := Option.isSome_iff_exists.mp hall
  exact ⟨t, hfirm.targets_of_targetUpTo ht⟩

end Arena

namespace Pass.Dispatch

open Arena PlainScript.Action

variable {s : Run} {root : NodeId}

/-- A refusal leaves the tree alone. -/
lemma restoreLoop_refuses {loop dispatch : NodeId} (hlt : loop < s.arena.size)
    (hdispatch : s.arena.dispatch? loop = some dispatch) {refusal : Refusal}
    (hrefusal : refusal? s.arena s.printing loop (s.arena.mergedCases dispatch) = some refusal) (t : Tally) :
    (restoreLoop loop t).Yields s fun t' s' => t' = { t with failed := t.failed + 1 } ∧ s'.arena = s.arena := by
  refine yields_bind ⟨s, s, rfl, ?_⟩
  simp only [hdispatch]
  refine yields_bind ((yields_line hlt).mono fun text s₁ hs => ?_)
  subst hs
  simp only [hrefusal]
  exact yields_bind (yields_modify _ (yields_bind (yields_modify _ (yields_pure _ ⟨rfl, rfl⟩))))

/-- All jumps of a tree keep their targets, up to the blocks that stand where restored loops stood, and a loop that
is not restored is left as it was. -/
theorem transform_keeps_jumps (hscripted : s.arena.Scripted root) (hjumps : s.arena.WellTargeted root) :
    (transform.Yields s fun _ s' => s'.arena.WellTargeted root ∧
      ∀ j jump, ReflTransGen s'.arena.HasParent j root → s'.arena.payload? j = some jump → jump.isJump = true →
        ReflTransGen s.arena.HasParent j root ∧ s.arena.payload? j = some jump ∧
          ∀ t, s.arena.Targets jump j t → ∃ t', s'.arena.Targets jump j t' ∧
            (t' = t ∨ IsLabeledBreak jump ∧ Restored s.arena s'.arena t t')) ∧
      (∀ (s₁ : Run) (loop dispatch : NodeId) (refusal : Refusal) (t : Tally), loop < s₁.arena.size →
        s₁.arena.dispatch? loop = some dispatch →
        refusal? s₁.arena s₁.printing loop (s₁.arena.mergedCases dispatch) = some refusal →
        (restoreLoop loop t).Yields s₁ fun t' s₂ =>
          t' = { t with failed := t.failed + 1 } ∧ s₂.arena = s₁.arena) ∧
      ∀ (s₁ : Run) (loop : NodeId) (k : Kind) (t : Tally), s₁.arena.Scripted root →
        ReflTransGen s₁.arena.HasParent loop root → s₁.arena.kind? loop = some k → k.isLoop = true →
        (restoreLoop loop t).Yields s₁ fun t' s₂ =>
          t'.restored = t.restored + 1 ∨ t'.restored = t.restored ∧ s₂.arena = s₁.arena := by
  refine ⟨(transform_counts hscripted).mono fun _ s' h => ?_, fun s₁ loop dispatch refusal t hlt hd hr =>
    restoreLoop_refuses hlt hd hr t, fun s₁ loop k t hs hway hk hloop =>
      (restoreLoop_turns hs hk hloop hway t).mono fun t' s₂ h => ?_⟩
  · obtain ⟨n, hsteps, -⟩ := h
    refine ⟨fun j jump hway hj hjump => ?_, fun j jump hway hj hjump => ?_⟩
    · obtain ⟨hway', hj', hkeeps⟩ := merges_keep_targets hsteps hway hj hjump
      obtain ⟨t, ht⟩ := hjumps j jump hway' hj' hjump
      obtain ⟨t', ht', -⟩ := hkeeps t ht
      exact ⟨t', ht'⟩
    · obtain ⟨hway', hj', hkeeps⟩ := merges_keep_targets hsteps hway hj hjump
      refine ⟨hway', hj', fun t ht => ?_⟩
      obtain ⟨t', ht', ⟨heq, -⟩ | hrestored⟩ := hkeeps t ht
      · exact ⟨t', ht', .inl heq⟩
      · exact ⟨t', ht', .inr hrestored⟩
  · obtain ⟨⟨hn, harena⟩ | ⟨hn, -⟩, -⟩ := h
    · exact .inr ⟨hn, harena⟩
    · exact .inl hn

/-- A loop with a label that its cases break. -/
def labeledDispatch : Text :=
  "a: while (true) { switch (x) { case 0: for (;;) { if (y) break; else break a; } case 1: h(); break; } }"

theorem transform_keeps_jumps_labeled : ∃ script root, parse labeledDispatch {} = .ok script ∧
    (ofTree script.tree).Scripted root ∧ (ofTree script.tree).WellTargeted root ∧
    transform.Yields { arena := ofTree script.tree } fun _ s' => s'.arena.WellTargeted root := by
  have hread : (parse labeledDispatch {}).toOption.any (fun script => (ofTree script.tree).allTargeted) := by
    decide +kernel
  cases hparse : parse labeledDispatch {} with
  | error e => simp [hparse, Except.toOption] at hread
  | ok script =>
    simp only [hparse, Except.toOption, Option.any_some] at hread
    obtain ⟨root, hstanding⟩ := ofTree_standing (parse_is_program hparse)
    have hjumps : (ofTree script.tree).WellTargeted root := hstanding.firm.wellTargeted hread
    exact ⟨script, root, rfl, hstanding.toScripted, hjumps,
      (transform_keeps_jumps (s := { arena := ofTree script.tree }) hstanding.toScripted hjumps).1.mono
        fun _ _ h => h.1⟩

end Pass.Dispatch

end PlainScript
