import PlainScript.Proofs.Pruning
import PlainScript.Proofs.Recovery

/-! What is left of a script without its debugger traps. Timers are visited from the outside in, so that those inside
of others go with them, and each of the others is as it was until its turn. -/
namespace PlainScript

open Relation Function

namespace Arena

variable {a b : Arena} {root x y t : NodeId} {timers : List NodeId}

/-- A call that starts a timer, and that is no part of another one. -/
structure IsOuterTimer (a : Arena) (t : NodeId) : Prop where
  attached : a.Attached t
  timer : a.isDebuggerTimer t = true
  outermost : ∀ y, TransGen a.HasParent t y → a.isDebuggerTimer y = false

/-- A `debugger` statement that is no part of a timer. -/
structure IsTrap (a : Arena) (x : NodeId) : Prop where
  attached : a.Attached x
  kind_eq : a.kind? x = some .debuggerStatement
  outside : ∀ y, TransGen a.HasParent x y → a.isDebuggerTimer y = false

/-- The traps of a script are gone, and so are its timers, with their statements where they are all that these hold.
Everything else that is no part of a timer is still there, without what is gone. -/
structure Disarms (a b : Arena) : Prop where
  no_debugger : ∀ x, b.Attached x → b.kind? x ≠ some .debuggerStatement
  no_timer : ∀ x, b.Attached x → b.isDebuggerTimer x = false
  replaced : ∀ t, a.IsOuterTimer t → a.statementOf? t = none →
    b.Attached t ∧ b.payload? t = some (.identifier "undefined")
  others : ∃ removed stand, (∀ x, x ∈ removed ↔ a.IsTrap x ∨ ∃ t, a.IsOuterTimer t ∧ a.statementOf? t = some x) ∧
    (∀ x ∈ removed, ¬ b.Attached x ∧ a.size ≤ stand x) ∧
    ∀ x, a.Attached x → x ∉ removed → (∀ t, a.IsOuterTimer t → ¬ ReflTransGen a.HasParent x t) →
      b.Attached x ∧ b.payload? x = (a.payload? x).map (·.without removed stand)
  new : ∀ x, b.Attached x → a.size ≤ x → b.payload? x = some .emptyStatement

/-- The node in the slot is below the handler. -/
lemma handlerBody?_eq_some {slot : Option NodeId} (h : a.handlerBody? slot = some x) :
    ∃ handler payload, slot = some handler ∧ a.payload? handler = some payload ∧ x ∈ payload.children := by
  unfold handlerBody? at h
  split at h
  next params body _ _ hp =>
    obtain ⟨handler, rfl, hp⟩ := Option.bind_eq_some_iff.mp hp
    refine ⟨handler, _, rfl, hp, ?_⟩
    show x ∈ params.filterMap id ++ (body.toList ++ [])
    simp [h]
  next params body _ hp =>
    obtain ⟨handler, rfl, hp⟩ := Option.bind_eq_some_iff.mp hp
    refine ⟨handler, _, rfl, hp, ?_⟩
    show x ∈ params.filterMap id ++ (body.toList ++ [])
    simp [h]
  next => cases h

lemma hasDebugger_iff {slot : Option NodeId} : a.hasDebugger slot = true ↔ ∃ block body d, slot = some block ∧
    a.payload? block = some (.blockStatement body) ∧ some d ∈ body ∧ a.kind? d = some .debuggerStatement := by
  unfold hasDebugger
  split
  next body hp =>
    obtain ⟨block, rfl, hp⟩ := Option.bind_eq_some_iff.mp hp
    simp only [List.any_eq_true, Option.any_eq_true]
    constructor
    · rintro ⟨c, hc, d, rfl, hd⟩
      exact ⟨block, body, d, rfl, hp, hc, by simpa [isKind] using hd⟩
    · rintro ⟨_, _, d, ⟨⟩, hp', hd, hk⟩
      cases hp.symm.trans hp'
      exact ⟨some d, hd, d, rfl, by simpa [isKind] using hk⟩
  next hnot =>
    refine iff_of_false Bool.false_ne_true ?_
    rintro ⟨block, body, d, rfl, hp, -⟩
    exact hnot body hp

section Timers

variable (h : a.Rooted root)
include h

/-- What a timer stops in is below it. -/
lemma exists_debugger (ht : a.isDebuggerTimer t = true) :
    a.kind? t = some .callExpression ∧ ∃ d, ReflTransGen a.HasParent d t ∧ a.kind? d = some .debuggerStatement := by
  unfold isDebuggerTimer at ht
  split at ht
  next callee handler rest optional hp =>
    obtain ⟨-, hdebugger⟩ := Bool.and_eq_true_iff.mp ht
    obtain ⟨block, body, d, hblock, hbody, hd, hk⟩ := hasDebugger_iff.mp hdebugger
    obtain ⟨f, payload, rfl, hf, hchild⟩ := handlerBody?_eq_some hblock
    refine ⟨by rw [kind?_eq, hp]; rfl, d, .head (h.hasParent_of_mem hbody ?_) (.head (h.hasParent_of_mem hf hchild)
      (.single (h.hasParent_of_mem hp ?_))), hk⟩
    · show d ∈ body.filterMap id ++ []
      simpa using hd
    · show f ∈ callee.toList ++ ((some f :: rest).filterMap id ++ [])
      simp
  next => cases ht

/-- A timer is known by what is below it. -/
lemma isDebuggerTimer_congr (hb : ∀ y, ReflTransGen a.HasParent y t → b.payload? y = a.payload? y) :
    b.isDebuggerTimer t = a.isDebuggerTimer t := by
  unfold isDebuggerTimer
  rw [hb t .refl]
  split
  next callee handler rest optional hp =>
    have hbind {slot : Option NodeId}
        (hslot : ∀ x ∈ slot, x ∈ callee.toList ++ ((handler :: rest).filterMap id ++ [])) :
        slot.bind b.payload? = slot.bind a.payload? := by
      cases slot with
      | none => rfl
      | some x => exact hb x (.single (h.hasParent_of_mem hp (hslot x rfl)))
    have hcallee : b.nameIn? callee = a.nameIn? callee := by
      rw [nameIn?, nameIn?, hbind fun x hx => by simp [Option.mem_def.mp hx]]
    have hbody : b.handlerBody? handler = a.handlerBody? handler := by
      rw [handlerBody?, handlerBody?, hbind fun x hx => by simp [Option.mem_def.mp hx]]
    have hblock (block : NodeId) (hblock : a.handlerBody? handler = some block) : ReflTransGen a.HasParent block t := by
      obtain ⟨f, payload, rfl, hf, hchild⟩ := handlerBody?_eq_some hblock
      refine .head (h.hasParent_of_mem hf hchild) (.single (h.hasParent_of_mem hp ?_))
      show f ∈ callee.toList ++ ((some f :: rest).filterMap id ++ [])
      simp
    have hdebugger : b.hasDebugger (a.handlerBody? handler) = a.hasDebugger (a.handlerBody? handler) := by
      rw [Bool.eq_iff_iff, hasDebugger_iff, hasDebugger_iff]
      refine exists_congr fun block => exists_congr fun body => exists_congr fun d => and_congr_right fun hslot => ?_
      have hway := hblock block hslot
      rw [hb block hway]
      refine and_congr_right fun hbody => and_congr_right fun hd => ?_
      have hchild : d ∈ body.filterMap id ++ [] := by simpa using hd
      rw [kind?_eq, kind?_eq, hb d (.head (h.hasParent_of_mem hbody hchild) hway)]
    simp only [hcallee, hbody, hdebugger]
  next => rfl

lemma exists_outerTimer (hway : ReflTransGen a.HasParent x root)
    (hx : ∃ y, ReflTransGen a.HasParent x y ∧ a.isDebuggerTimer y = true) :
    ∃ t, a.IsOuterTimer t ∧ ReflTransGen a.HasParent x t := by
  obtain ⟨t, hup, ht, htimer, houter⟩ := h.exists_topmost hway hx
  exact ⟨t, ⟨h.attached_iff.mpr ht, htimer, fun y hy => by simpa using houter y hy⟩, hup⟩

end Timers

/-! ### What goes with timers -/

/-- The statements that hold just a timer. -/
def holders (a : Arena) (timers : List NodeId) : List NodeId := timers.filterMap a.statementOf?

/-- The timers that are used as values. -/
def values (a : Arena) (timers : List NodeId) : List NodeId := timers.filter fun t => (a.statementOf? t).isNone

lemma mem_holders : x ∈ a.holders timers ↔ ∃ t ∈ timers, a.statementOf? t = some x := List.mem_filterMap

lemma mem_values : x ∈ a.values timers ↔ x ∈ timers ∧ a.statementOf? x = none := by
  rw [values, List.mem_filter, Option.isNone_iff_eq_none]

/-- The node does not go with the timer. -/
def Spares (a : Arena) (t x : NodeId) : Prop :=
  ¬ TransGen a.HasParent x t ∧ (x = t → a.statementOf? t = none) ∧ a.statementOf? t ≠ some x

lemma spares_of_kind (hk : a.kind? x ≠ some .expressionStatement) (hup : ¬ TransGen a.HasParent x t)
    (heq : x = t → a.statementOf? t = none) : a.Spares t x :=
  ⟨hup, heq, fun hx => hk (by rw [kind?_eq, (statementOf?_iff.mp hx).2]; rfl)⟩

section Holders

variable (h : a.Scripted root)
include h

lemma IsOuterTimer.kind_eq (ht : a.IsOuterTimer t) : a.kind? t = some .callExpression :=
  (exists_debugger h.toRooted ht.timer).1

/-- There is something around the statement of a timer. -/
lemma IsOuterTimer.holder_hasParent (ht : a.IsOuterTimer t) (hx : a.statementOf? t = some x) :
    ∃ p, a.HasParent x p := by
  obtain ⟨hparent, hp⟩ := statementOf?_iff.mp hx
  obtain rfl | ⟨q, hq, hway⟩ := (h.attached_iff.mp ht.attached).cases_head
  · cases h.parentOf_root.symm.trans hparent
  · obtain rfl := Option.some.inj (hq.symm.trans hparent)
    obtain rfl | ⟨p, hp', -⟩ := hway.cases_head
    · have hprogram := h.isProgram
      rw [kind?_eq, hp] at hprogram
      cases hprogram
    · exact ⟨p, hp'⟩

/-- The way up from a node leads through nothing that goes with timers, unless it leads through one of these. -/
lemma kept_iff (htimers : ∀ t ∈ timers, a.IsOuterTimer t) :
    (∀ y p, ReflTransGen a.HasParent x y → a.HasParent y p → y ∉ a.holders timers ∧ p ∉ a.values timers) ↔
      ∀ t ∈ timers, a.Spares t x := by
  constructor
  · intro hall t ht
    have hholder (y : NodeId) (hy : a.statementOf? t = some y) : ¬ ReflTransGen a.HasParent x y := fun hup => by
      obtain ⟨p, hp⟩ := (htimers t ht).holder_hasParent h hy
      exact (hall y p hup hp).1 (mem_holders.mpr ⟨t, ht, hy⟩)
    refine ⟨fun hup => ?_, ?_, fun hx => hholder x hx .refl⟩
    · cases hstatement : a.statementOf? t with
      | none =>
        obtain ⟨y, hy, hp⟩ := TransGen.tail'_iff.mp hup
        exact (hall y t hy hp).2 (mem_values.mpr ⟨ht, hstatement⟩)
      | some y => exact hholder y hstatement (hup.to_reflTransGen.tail (statementOf?_iff.mp hstatement).1)
    · rintro rfl
      by_contra hne
      obtain ⟨y, hy⟩ := Option.ne_none_iff_exists'.mp hne
      exact hholder y hy (.single (statementOf?_iff.mp hy).1)
  · refine fun hall y p hy hp => ⟨fun hmem => ?_, fun hmem => ?_⟩
    · obtain ⟨t, ht, hstatement⟩ := mem_holders.mp hmem
      obtain ⟨hnot, hself, hne⟩ := hall t ht
      obtain rfl | hup := reflTransGen_iff_eq_or_transGen.mp hy
      · exact hne hstatement
      obtain ⟨z, hz, hzy⟩ := TransGen.tail'_iff.mp hup
      obtain rfl := List.mem_singleton.mp (h.mem_children (statementOf?_iff.mp hstatement).2 hzy)
      obtain rfl | hup := reflTransGen_iff_eq_or_transGen.mp hz
      · cases (hself rfl).symm.trans hstatement
      · exact hnot hup
    · exact (hall p (mem_values.mp hmem).1).1 (.tail' hy hp)

end Holders

lemma Rooted.not_hasParent_debugger (h : a.Rooted root) (hk : a.kind? y = some .debuggerStatement) :
    ¬ a.HasParent x y := fun hx => by
  obtain ⟨q, hq, hkind⟩ := exists_payload hk
  have hmem := h.mem_children hq hx
  cases q <;> cases hkind
  cases hmem

namespace Pruned

variable {gone bared : List NodeId} {stand : NodeId → NodeId}

/-- What is left of the way up tells whether an expression is all that a statement holds. -/
lemma statementOf?_eq (h : a.Pruned root gone bared stand b) (hrooted : a.Rooted root) (hx : x < a.size)
    (hne : x ≠ root) (hway : ReflTransGen b.HasParent x root) : b.statementOf? x = a.statementOf? x := by
  obtain ⟨p, hp, hgone, hbared⟩ := h.not_gone hx hne hway
  have hbp : b.HasParent x p := (h.hasParent_iff x hx p).mpr ⟨hp, hgone, hbared⟩
  have hpayload : b.payload? p = some (.expressionStatement (some x)) ↔
      a.payload? p = some (.expressionStatement (some x)) := by
    rw [h.payload?_eq p (hrooted.firm.parent_lt hp) hbared]
    cases hq : a.payload? p with
    | none => exact iff_of_false nofun nofun
    | some q =>
      have hmem := hrooted.mem_children hq hp
      rw [Option.map_some, Option.some.injEq, Option.some.injEq]
      constructor
      · intro heq
        have hkind := q.kind_without gone stand
        rw [heq] at hkind
        cases q <;> cases hkind
        next e =>
        have he : x ∈ e.toList ++ [] := hmem
        obtain rfl : e = some x := by simpa using he
        rfl
      · rintro rfl
        exact Payload.without_eq_self fun y hy => List.mem_singleton.mp hy ▸ hgone
  refine Option.ext fun y => ?_
  rw [statementOf?_iff, statementOf?_iff]
  constructor
  · rintro ⟨hy, hpy⟩
    obtain rfl := Option.some.inj (hbp.symm.trans hy)
    exact ⟨hp, hpayload.mp hpy⟩
  · rintro ⟨hy, hpy⟩
    obtain rfl := Option.some.inj (hp.symm.trans hy)
    exact ⟨hbp, hpayload.mpr hpy⟩

end Pruned

/-- These timers and traps are gone so far. -/
structure Disarmed (a : Arena) (root : NodeId) (timers traps : List NodeId) (b : Arena) : Prop where
  timer : ∀ t ∈ timers, a.IsOuterTimer t
  trap : ∀ x ∈ traps, a.kind? x = some .debuggerStatement
  pruned : ∃ stand, a.Pruned root (a.holders timers ++ traps) (a.values timers) stand b

lemma Standing.disarmed (h : a.Standing root) : a.Disarmed root [] [] a := ⟨by simp, by simp, id, h.pruned⟩

namespace Disarmed

variable {traps : List NodeId} (h : a.Disarmed root timers traps b) (ha : a.Scripted root)
include h

lemma standing : b.Standing root := h.pruned.elim fun _ h => h.standing

lemma size_le : a.size ≤ b.size := h.pruned.elim fun _ h => h.size_le

/-- A `debugger` statement that is left was one before. -/
lemma kind?_of_debugger (hk : b.kind? x = some .debuggerStatement) : a.kind? x = some .debuggerStatement := by
  obtain ⟨stand, hpruned⟩ := h.pruned
  obtain ⟨q, hq, hkind⟩ := exists_payload hk
  have hx : x < a.size := Nat.lt_of_not_ge fun hle => by
    rw [hpruned.payload?_new x hle q hq] at hkind
    cases hkind
  have hbared : x ∉ a.values timers := fun hmem => by
    rw [kind?_eq, hpruned.payload?_bared x hmem] at hk
    cases hk
  rw [← hpruned.kind?_eq hx hbared, hk]

include ha

/-- What is left below the root. -/
lemma way_iff (hx : x < a.size) : ReflTransGen b.HasParent x root ↔
    ReflTransGen a.HasParent x root ∧ (∀ t ∈ timers, a.Spares t x) ∧ x ∉ traps := by
  obtain ⟨stand, hpruned⟩ := h.pruned
  rw [hpruned.way_iff ha.toRooted hx]
  refine and_congr_right fun hway => ?_
  rw [← kept_iff ha h.timer]
  constructor
  · refine fun hall => ⟨fun y p hy hp => ?_, fun hmem => ?_⟩
    · obtain ⟨hgone, hbared⟩ := hall y p hy hp
      exact ⟨fun hmem => hgone (List.mem_append_left _ hmem), hbared⟩
    · obtain rfl | ⟨p, hp, -⟩ := hway.cases_head
      · cases (h.trap x hmem).symm.trans ha.isProgram
      · exact (hall x p .refl hp).1 (List.mem_append_right _ hmem)
  · rintro ⟨hall, htrap⟩ y p hy hp
    obtain ⟨hgone, hbared⟩ := hall y p hy hp
    refine ⟨fun hmem => ?_, hbared⟩
    obtain hmem | hmem := List.mem_append.mp hmem
    · exact hgone hmem
    -- A `debugger` statement has nothing below it, so that it can only be the node itself.
    · obtain rfl | hup := reflTransGen_iff_eq_or_transGen.mp hy
      · exact htrap hmem
      · obtain ⟨z, -, hz⟩ := TransGen.tail'_iff.mp hup
        exact ha.toRooted.not_hasParent_debugger (h.trap y hmem) hz

end Disarmed

section Steps

variable {c : Arena} {traps : List NodeId} (ha : a.Scripted root)
include ha

/-- Before anything below it is gone, a call is still what it was. -/
lemma Disarmed.isDebuggerTimer_eq (h : a.Disarmed root timers [] b) (hx : ReflTransGen a.HasParent x root)
    (hbelow : ∀ y, ReflTransGen a.HasParent y x → y ∉ timers) : b.isDebuggerTimer x = a.isDebuggerTimer x := by
  obtain ⟨stand, hpruned⟩ := h.pruned
  refine isDebuggerTimer_congr ha.toRooted fun y hy => ?_
  refine hpruned.payload?_of_children (ha.toRooted.lt_size (hy.trans hx))
    (fun hmem => hbelow y hy (mem_values.mp hmem).1) (fun z hz hmem => ?_) ha.toRooted
  rw [List.append_nil] at hmem
  obtain ⟨t, ht, hstatement⟩ := mem_holders.mp hmem
  exact hbelow t (.head (statementOf?_iff.mp hstatement).1 (.head hz hy)) ht

/-- A timer goes with its statement, or becomes a name. -/
lemma Disarmed.remove_timer (h : a.Disarmed root timers [] b) (ht : a.IsOuterTimer t) (hnot : t ∉ timers)
    (hway : ReflTransGen b.HasParent t root)
    (hc : (∃ x, b.statementOf? t = some x ∧ RemovesAt root x b c) ∨
      b.statementOf? t = none ∧ b.Bared t (.identifier "undefined") c) : a.Disarmed root (timers ++ [t]) [] c := by
  obtain ⟨stand, hpruned⟩ := h.pruned
  have hlt := ha.toRooted.lt_size (ha.toRooted.attached_iff.mp ht.attached)
  have hne : t ≠ root := by
    rintro rfl
    cases (ht.kind_eq ha).symm.trans ha.isProgram
  rw [hpruned.statementOf?_eq ha.toRooted hlt hne hway] at hc
  refine ⟨?_, by simp, ?_⟩
  · simpa only [List.mem_append, List.mem_singleton, or_imp, forall_and, forall_eq] using ⟨h.timer, ht⟩
  obtain ⟨x, hx, hremoves⟩ | ⟨hnone, hbared⟩ := hc
  · obtain ⟨hparent, -⟩ := statementOf?_iff.mp hx
    have hxlt : x < a.size := ha.toRooted.firm.parent_lt hparent
    have hxway : ReflTransGen b.HasParent x root := by
      obtain heq | ⟨p, hp, hup⟩ := hway.cases_head
      · exact absurd heq hne
      · exact Option.some.inj (((hpruned.hasParent_iff t hlt p).mp hp).1.symm.trans hparent) ▸ hup
    have hgone : x ∉ a.holders timers ++ [] := fun hmem => by
      rw [List.append_nil] at hmem
      obtain ⟨t', ht', hstatement⟩ := mem_holders.mp hmem
      exact (((h.way_iff ha hxlt).mp hxway).2.1 t' ht').2.2 hstatement
    have hholders : a.holders (timers ++ [t]) ++ [] = a.holders timers ++ [] ++ [x] := by simp [holders, hx]
    have hvalues : a.values (timers ++ [t]) = a.values timers := by simp [values, List.filter_append, hx]
    rw [hholders, hvalues]
    exact ⟨_, hpruned.remove hxlt hgone hremoves⟩
  · have hk : b.kind? t = some .callExpression := by
      rw [hpruned.kind?_eq hlt fun hmem => hnot (mem_values.mp hmem).1, ht.kind_eq ha]
    have hholders : a.holders (timers ++ [t]) = a.holders timers := by simp [holders, hnone]
    have hvalues : a.values (timers ++ [t]) = a.values timers ++ [t] := by simp [values, List.filter_append, hnone]
    rw [hholders, hvalues]
    exact ⟨_, hpruned.bare hway hk hbared⟩

/-- A `debugger` statement goes. -/
lemma Disarmed.remove_trap (h : a.Disarmed root timers traps b) (hk : a.kind? x = some .debuggerStatement)
    (hway : ReflTransGen b.HasParent x root) (hc : RemovesAt root x b c) :
    a.Disarmed root timers (traps ++ [x]) c := by
  obtain ⟨stand, hpruned⟩ := h.pruned
  have hlt := lt_size_of_kind? hk
  obtain ⟨-, hspares, hnot⟩ := (h.way_iff ha hlt).mp hway
  refine ⟨h.timer, ?_, ?_⟩
  · simpa only [List.mem_append, List.mem_singleton, or_imp, forall_and, forall_eq] using ⟨h.trap, hk⟩
  · rw [← List.append_assoc]
    refine ⟨_, hpruned.remove hlt (fun hmem => ?_) hc⟩
    obtain hmem | hmem := List.mem_append.mp hmem
    · obtain ⟨t, ht, hstatement⟩ := mem_holders.mp hmem
      exact (hspares t ht).2.2 hstatement
    · exact hnot hmem

/-- The traps are what is spared when all timers are gone. -/
lemma isTrap_iff (htimers : ∀ t, t ∈ timers ↔ a.IsOuterTimer t) : a.IsTrap x ↔
    a.kind? x = some .debuggerStatement ∧ ReflTransGen a.HasParent x root ∧ ∀ t ∈ timers, a.Spares t x := by
  constructor
  · refine fun hx => ⟨hx.kind_eq, ha.toRooted.attached_iff.mp hx.attached, fun t ht => ?_⟩
    have houter := (htimers t).mp ht
    refine spares_of_kind (by simp [hx.kind_eq]) (fun hup => ?_) ?_
    · exact Bool.false_ne_true ((hx.outside t hup).symm.trans houter.timer)
    · rintro rfl
      cases hx.kind_eq.symm.trans (houter.kind_eq ha)
  · rintro ⟨hk, hway, hspares⟩
    refine ⟨ha.toRooted.attached_iff.mpr hway, hk, fun y hy => Bool.eq_false_iff.mpr fun htimer => ?_⟩
    obtain ⟨t, ht, hxt⟩ := exists_outerTimer ha.toRooted hway ⟨y, hy.to_reflTransGen, htimer⟩
    obtain rfl | hup := reflTransGen_iff_eq_or_transGen.mp hxt
    · cases hk.symm.trans (ht.kind_eq ha)
    · exact (hspares t ((htimers t).mpr ht)).1 hup

section Complete

variable (h : a.Disarmed root timers traps b) (htimers : ∀ t, t ∈ timers ↔ a.IsOuterTimer t)
  (htraps : ∀ x, x ∈ traps ↔ a.IsTrap x)
include h htimers htraps

lemma Disarmed.no_debugger (hx : ReflTransGen b.HasParent x root) : b.kind? x ≠ some .debuggerStatement := fun hk => by
  have hk' := h.kind?_of_debugger hk
  obtain ⟨hway, hspares, hnot⟩ := (h.way_iff ha (lt_size_of_kind? hk')).mp hx
  exact hnot ((htraps x).mpr ((isTrap_iff ha htimers).mpr ⟨hk', hway, hspares⟩))

lemma Disarmed.replaced (ht : a.IsOuterTimer t) (hstatement : a.statementOf? t = none) :
    ReflTransGen b.HasParent t root ∧ b.payload? t = some (.identifier "undefined") := by
  obtain ⟨stand, hpruned⟩ := h.pruned
  have hway := ha.toRooted.attached_iff.mp ht.attached
  refine ⟨(h.way_iff ha (ha.toRooted.lt_size hway)).mpr ⟨hway, fun t' ht' => ?_, fun hmem => ?_⟩, ?_⟩
  · refine spares_of_kind (by simp [ht.kind_eq ha]) (fun hup => ?_) fun heq => heq ▸ hstatement
    exact Bool.false_ne_true ((ht.outermost t' hup).symm.trans ((htimers t').mp ht').timer)
  · cases ((htraps t).mp hmem).kind_eq.symm.trans (ht.kind_eq ha)
  · exact hpruned.payload?_bared t (mem_values.mpr ⟨(htimers t).mpr ht, hstatement⟩)

/-- When all timers and all traps are gone, everything else is still there. -/
theorem Disarmed.disarms : a.Disarms b where
  no_debugger x hx := h.no_debugger ha htimers htraps (h.standing.toRooted.attached_iff.mp hx)
  no_timer x hx := Bool.eq_false_iff.mpr fun htimer => by
    obtain ⟨-, d, hd, hk⟩ := exists_debugger h.standing.toRooted htimer
    exact h.no_debugger ha htimers htraps (hd.trans (h.standing.toRooted.attached_iff.mp hx)) hk
  replaced t ht hstatement := by
    obtain ⟨hway, hp⟩ := h.replaced ha htimers htraps ht hstatement
    exact ⟨h.standing.toRooted.attached_iff.mpr hway, hp⟩
  others := by
    obtain ⟨stand, hpruned⟩ := h.pruned
    refine ⟨a.holders timers ++ traps, stand, fun x => ?_, fun x hx => ⟨fun hattached => ?_, hpruned.stand_new x hx⟩,
      fun x hx hremoved houtside => ?_⟩
    · simp only [List.mem_append, mem_holders, htimers, htraps, or_comm]
    · have hway := h.standing.toRooted.attached_iff.mp hattached
      obtain hmem | hmem := List.mem_append.mp hx
      · obtain ⟨t, ht, hstatement⟩ := mem_holders.mp hmem
        have hlt : x < a.size := lt_size_of_payload? (statementOf?_iff.mp hstatement).2
        exact (((h.way_iff ha hlt).mp hway).2.1 t ht).2.2 hstatement
      · exact ((h.way_iff ha (lt_size_of_kind? (h.trap x hmem))).mp hway).2.2 hmem
    · have hway := ha.toRooted.attached_iff.mp hx
      have hlt := ha.toRooted.lt_size hway
      simp only [List.mem_append, mem_holders, not_or, not_exists, not_and] at hremoved
      refine ⟨h.standing.toRooted.attached_iff.mpr ((h.way_iff ha hlt).mpr ⟨hway, fun t ht => ?_, hremoved.2⟩), ?_⟩
      · have hnot := houtside t ((htimers t).mp ht)
        exact ⟨fun hup => hnot hup.to_reflTransGen, fun heq => absurd (heq ▸ .refl) hnot, hremoved.1 t ht⟩
      · refine hpruned.payload?_eq x hlt fun hmem => ?_
        exact houtside x ((htimers x).mp (mem_values.mp hmem).1) .refl
  new x hx hle := by
    obtain ⟨stand, hpruned⟩ := h.pruned
    have hb := h.standing.toRooted
    obtain ⟨cell, hcell⟩ := exists_cell (hb.lt_size (hb.attached_iff.mp hx))
    have hp : b.payload? x = some cell.payload := by simp [payload?, hcell]
    rw [hp, hpruned.payload?_new x hle cell.payload hp]

end Complete

end Steps

end Arena

namespace Pass.Debugger

open Arena PlainScript.Action

/-- The timers that are gone once these calls have had their turn. -/
structure TimersDone (s : Run) (root : NodeId) (done : List NodeId) (n : Nat) (s' : Run) : Prop where
  quiet : Quiet s s'
  disarmed : ∃ timers, Handled s.arena.IsOuterTimer done timers ∧ timers.length = n ∧
    s.arena.Disarmed root timers [] s'.arena

/-- The traps that are gone once these statements have had their turn. -/
structure TrapsDone (s s₂ : Run) (root : NodeId) (timers done : List NodeId) (n : Nat) (s' : Run) : Prop where
  quiet : Quiet s₂ s'
  size_le : s₂.arena.size ≤ s'.arena.size
  disarmed : ∃ traps, Handled (s.arena.kind? · = some .debuggerStatement) done traps ∧ traps.length = n ∧
    s.arena.Disarmed root timers traps s'.arena

variable {s s₂ s' : Run} {root id : NodeId} {done rest timers : List NodeId} {n : Nat}

namespace TimersDone

lemma skip (h : TimersDone s root done n s') (hid : ¬ s.arena.IsOuterTimer id) :
    TimersDone s root (done ++ [id]) n s' where
  quiet := h.quiet
  disarmed := by
    obtain ⟨timers, hhandled, hrest⟩ := h.disarmed
    exact ⟨timers, hhandled.skip hid, hrest⟩

variable (hs : s.arena.Standing root) (hids : s.arena.turnsOf root .pre = done ++ id :: rest)
  (h : TimersDone s root done n s')
include hs hids h

/-- A timer that is no part of another one is still there at its turn. -/
lemma pass (hnot : ReflTransGen s'.arena.HasParent id root → s'.arena.kind? id ≠ some .callExpression) :
    TimersDone s root (done ++ [id]) n s' := by
  refine h.skip fun hid => ?_
  obtain ⟨timers, hhandled, -, hdisarmed⟩ := h.disarmed
  obtain ⟨stand, hpruned⟩ := hdisarmed.pruned
  have hrooted := hs.toRooted
  have hmem : id ∉ timers := fun hx => hrooted.not_mem_done hids ((hhandled.mem_iff id).mp hx).1
  have hk := hid.kind_eq hs.toScripted
  have hlt := lt_size_of_kind? hk
  refine hnot ((hdisarmed.way_iff hs.toScripted hlt).mpr ⟨hrooted.attached_iff.mp hid.attached, fun t ht => ?_,
    List.not_mem_nil⟩) ?_
  · refine spares_of_kind (by simp [hk]) (fun hup => ?_) fun heq => absurd (heq ▸ ht) hmem
    exact Bool.false_ne_true ((hid.outermost t hup).symm.trans (hdisarmed.timer t ht).timer)
  · rw [hpruned.kind?_eq hlt fun hx => hmem (mem_values.mp hx).1, hk]

lemma turn (hway : ReflTransGen s'.arena.HasParent id root) (hk : s'.arena.kind? id = some .callExpression) :
    (removeTimer id n).Yields s' fun n' s'' => TimersDone s root (done ++ [id]) n' s'' := by
  obtain ⟨timers, hhandled, hlength, hdisarmed⟩ := h.disarmed
  have hrooted := hs.toRooted
  have hroot : ReflTransGen s.arena.HasParent id root := (hrooted.mem_turnsOf .pre).mp (hids ▸ by simp)
  have hnot := hrooted.not_mem_done hids
  have hbelow (y : NodeId) (hy : ReflTransGen s.arena.HasParent y id) : y ∉ timers := fun hmem => by
    have hdone := ((hhandled.mem_iff y).mp hmem).1
    obtain rfl | hup := reflTransGen_iff_eq_or_transGen.mp hy
    · exact hnot hdone
    · exact (hrooted.done_pre hids).2 hup hdone
  have htimer := hdisarmed.isDebuggerTimer_eq hs.toScripted hroot hbelow
  refine (removeTimer_turn hdisarmed.standing hway hk n).mono fun n' s'' ⟨hquiet, hturn⟩ => ?_
  obtain ⟨hfalse, rfl, harena⟩ | ⟨htrue, rfl, hremoved⟩ := hturn
  · have hkept : TimersDone s root done n' s'' :=
      ⟨h.quiet.trans hquiet, timers, hhandled, hlength, harena ▸ hdisarmed⟩
    exact hkept.skip fun hid => Bool.false_ne_true (hfalse.symm.trans (htimer.trans hid.timer))
  · have hid : s.arena.IsOuterTimer id := by
      refine ⟨hrooted.attached_iff.mpr hroot, htimer ▸ htrue, fun y hy => Bool.eq_false_iff.mpr fun hytimer => ?_⟩
      obtain ⟨t, ht, hup⟩ := exists_outerTimer hrooted hroot ⟨y, hy.to_reflTransGen, hytimer⟩
      obtain rfl | hup := reflTransGen_iff_eq_or_transGen.mp hup
      · exact Bool.false_ne_true ((ht.outermost y hy).symm.trans hytimer)
      -- The timer around this one has had its turn, and this one would be gone with it.
      · have hdone := (hrooted.done_pre hids).1 hup (hrooted.attached_iff.mp ht.attached)
        have hspares := ((hdisarmed.way_iff hs.toScripted (hrooted.lt_size hroot)).mp hway).2.1
        exact (hspares t ((hhandled.mem_iff t).mpr ⟨hdone, ht⟩)).1 hup
    exact ⟨h.quiet.trans hquiet, timers ++ [id], hhandled.add hnot hid, by simp [hlength],
      hdisarmed.remove_timer hs.toScripted hid (hbelow id .refl) hway hremoved⟩

end TimersDone

namespace TrapsDone

variable (hs : s.arena.Standing root) (hdisarmed : s.arena.Disarmed root timers [] s₂.arena)
  (hids : s₂.arena.turnsOf root .pre = done ++ id :: rest) (h : TrapsDone s s₂ root timers done n s')
include hs hdisarmed hids h

/-- A `debugger` statement that is left after the timers is still there at its turn. -/
lemma pass (hnot : ReflTransGen s'.arena.HasParent id root → s'.arena.kind? id ≠ some .debuggerStatement) :
    TrapsDone s s₂ root timers (done ++ [id]) n s' where
  quiet := h.quiet
  size_le := h.size_le
  disarmed := by
    obtain ⟨traps, hhandled, hlength, hdisarmed'⟩ := h.disarmed
    refine ⟨traps, hhandled.skip fun hk => ?_, hlength, hdisarmed'⟩
    obtain ⟨stand, hpruned⟩ := hdisarmed'.pruned
    have hrooted := hdisarmed.standing.toRooted
    have hlt := lt_size_of_kind? hk
    obtain ⟨hroot, hspares, -⟩ := (hdisarmed.way_iff hs.toScripted hlt).mp
      ((hrooted.mem_turnsOf .pre).mp (hids ▸ by simp))
    refine hnot ((hdisarmed'.way_iff hs.toScripted hlt).mpr ⟨hroot, hspares, fun hmem => ?_⟩) ?_
    · exact hrooted.not_mem_done hids ((hhandled.mem_iff id).mp hmem).1
    · rw [hpruned.kind?_eq hlt fun hmem => ?_, hk]
      cases hk.symm.trans ((hdisarmed.timer id (mem_values.mp hmem).1).kind_eq hs.toScripted)

lemma turn (hway : ReflTransGen s'.arena.HasParent id root) (hk : s'.arena.kind? id = some .debuggerStatement) :
    (removeStatement id n).Yields s' fun n' s'' => TrapsDone s s₂ root timers (done ++ [id]) n' s'' := by
  obtain ⟨traps, hhandled, hlength, hdisarmed'⟩ := h.disarmed
  refine (removeStatement_turn hdisarmed'.standing hway hk n).mono fun n' s'' ⟨hquiet, hn, hremoves⟩ => ?_
  have hk := hdisarmed'.kind?_of_debugger hk
  exact ⟨h.quiet.trans hquiet, Nat.le_trans h.size_le hremoves.size_le, traps ++ [id],
    hhandled.add (hdisarmed.standing.toRooted.not_mem_done hids) hk, by simp [hlength, hn],
    hdisarmed'.remove_trap hs.toScripted hk hway hremoves⟩

end TrapsDone

/-- The timers go first. -/
lemma timers_disarmed (hs : s.arena.Standing root) : (walkKind .pre .callExpression 0 removeTimer).Yields s fun n s' =>
    Quiet s s' ∧ ∃ timers : List NodeId, timers.Nodup ∧ (∀ t, t ∈ timers ↔ s.arena.IsOuterTimer t) ∧
      timers.length = n ∧ s.arena.Disarmed root timers [] s'.arena := by
  refine (walkKind_one_by_one (P := fun done s' n => TimersDone s root done n s') hs.toRooted (fun done s' n h => ?_)
    (fun done id rest s' n hids h hnot => h.pass hs hids hnot) (fun done id rest s' n hids h hway hk =>
      h.turn hs hids hway hk) ⟨.refl s, [], .nil, rfl, hs.disarmed⟩).mono fun n s' h => ?_
  · obtain ⟨timers, -, -, hdisarmed⟩ := h.disarmed
    exact ⟨hdisarmed.standing.toRooted, hdisarmed.size_le⟩
  · obtain ⟨timers, hhandled, hlength, hdisarmed⟩ := h.disarmed
    refine ⟨h.quiet, timers, hhandled.nodup, fun t => (hhandled.mem_iff t).trans ?_, hlength, hdisarmed⟩
    rw [hs.toRooted.mem_turnsOf, ← hs.toRooted.attached_iff]
    exact and_iff_right_of_imp IsOuterTimer.attached

/-- The traps that the timers have left go then. -/
lemma traps_disarmed (hs : s.arena.Standing root) (htimers : ∀ t, t ∈ timers ↔ s.arena.IsOuterTimer t)
    (hdisarmed : s.arena.Disarmed root timers [] s₂.arena) :
    (walkKind .pre .debuggerStatement 0 removeStatement).Yields s₂ fun n s' =>
      Quiet s₂ s' ∧ ∃ traps : List NodeId, traps.Nodup ∧ (∀ x, x ∈ traps ↔ s.arena.IsTrap x) ∧ traps.length = n ∧
        s.arena.Disarmed root timers traps s'.arena := by
  have hrooted := hdisarmed.standing.toRooted
  refine (walkKind_one_by_one (P := fun done s' n => TrapsDone s s₂ root timers done n s') hrooted
    (fun done s' n h => ?_) (fun done id rest s' n hids h hnot => h.pass hs hdisarmed hids hnot)
    (fun done id rest s' n hids h hway hk => h.turn hs hdisarmed hids hway hk)
    ⟨.refl s₂, Nat.le_refl _, [], .nil, rfl, hdisarmed⟩).mono fun n s' h => ?_
  · obtain ⟨traps, -, -, hdisarmed'⟩ := h.disarmed
    exact ⟨hdisarmed'.standing.toRooted, h.size_le⟩
  · obtain ⟨traps, hhandled, hlength, hdisarmed'⟩ := h.disarmed
    refine ⟨h.quiet, traps, hhandled.nodup, fun x => ?_, hlength, hdisarmed'⟩
    rw [hhandled.mem_iff x, hrooted.mem_turnsOf, isTrap_iff hs.toScripted htimers, and_comm]
    refine and_congr_right fun hk => ?_
    rw [hdisarmed.way_iff hs.toScripted (lt_size_of_kind? hk)]
    exact and_congr_right fun _ => and_iff_left List.not_mem_nil

/-- The pass disarms whatever script stands, and records how many timers and traps are gone. -/
lemma disarms_of_standing (hstanding : s.arena.Standing root) :
    transform.Yields s fun _ s' => s.arena.Disarms s'.arena ∧
      ∃ timers traps : List NodeId, timers.Nodup ∧ traps.Nodup ∧ (∀ t, t ∈ timers ↔ s.arena.IsOuterTimer t) ∧
        (∀ x, x ∈ traps ↔ s.arena.IsTrap x) ∧ Ledger name s (timers.length + traps.length) s' := by
  refine yields_bind ((walkKind_idle (fun s id _ _ => report_idle) hstanding).mono fun _ s₁ h₁ => ?_)
  obtain ⟨-, harena, hquiet₁⟩ := h₁
  rw [← harena] at hstanding ⊢
  refine yields_bind ((timers_disarmed hstanding).mono fun n s₂ ⟨hquiet₂, timers, hnodup, htimers, hn, h₂⟩ => ?_)
  refine yields_bind ((traps_disarmed hstanding htimers h₂).mono fun m s₃ h₃ => ?_)
  obtain ⟨hquiet₃, traps, hnodup', htraps, hm, hdisarmed⟩ := h₃
  subst hn hm
  have hdisarms := hdisarmed.disarms hstanding.toScripted htimers htraps
  have hquiet := hquiet₁.trans (hquiet₂.trans hquiet₃)
  dsimp only
  split
  · refine yields_bind (idle_say.mono fun _ s₄ ⟨_, harena₄, hquiet₄⟩ => ?_)
    refine (conclude_ledger (n := timers.length + traps.length) rfl ..).mono fun _ s' ⟨harena', hledger⟩ => ?_
    rw [harena', harena₄]
    exact ⟨hdisarms, timers, traps, hnodup, hnodup', htimers, htraps, (hquiet.trans hquiet₄).ledger hledger⟩
  · refine (conclude_ledger (n := timers.length + traps.length) rfl ..).mono fun _ s' ⟨harena', hledger⟩ => ?_
    rw [harena']
    exact ⟨hdisarms, timers, traps, hnodup, hnodup', htimers, htraps, hquiet.ledger hledger⟩

/-- No `debugger` statement and no call that starts a timer is left by the pass. It records how many of both it has
taken out: a timer counts once, whatever else was inside, and everything that was outside stays. -/
theorem transform_disarms {source : Text} {options : ParseOptions} {script : Script}
    (hparse : parse source options = .ok script) {s : Run} (hs : s.arena = ofTree script.tree) :
    transform.Yields s fun _ s' => s.arena.Disarms s'.arena ∧
      ∃ timers traps : List NodeId, timers.Nodup ∧ traps.Nodup ∧ (∀ t, t ∈ timers ↔ s.arena.IsOuterTimer t) ∧
        (∀ x, x ∈ traps ↔ s.arena.IsTrap x) ∧ Ledger name s (timers.length + traps.length) s' := by
  obtain ⟨root, hstanding⟩ := ofTree_standing (parse_is_program hparse)
  exact disarms_of_standing (hs ▸ hstanding)

/-- A timer goes with the one inside of it, and the branch of an `if` does not go with its statement. -/
theorem transform_disarms_nested : ∃ script outcome s',
    parse "setInterval(() => { debugger; setTimeout(() => { debugger; }); }); if (x) debugger;" {} = .ok script ∧
    transform { arena := ofTree script.tree } = .ok outcome s' ∧ (ofTree script.tree).Disarms s'.arena := by
  obtain ⟨script, hparse, -⟩ : ∃ script,
      parse "setInterval(() => { debugger; setTimeout(() => { debugger; }); }); if (x) debugger;" {} = .ok script ∧
        True := exists_of_parse (by decide +kernel)
  obtain ⟨outcome, s', hrun, hdisarms, -⟩ := transform_disarms (s := { arena := ofTree script.tree }) hparse rfl
  exact ⟨script, outcome, s', hparse, hrun, hdisarms⟩

end Pass.Debugger

end PlainScript
