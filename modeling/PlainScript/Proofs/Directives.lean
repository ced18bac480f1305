import PlainScript.Proofs.RunTurns
import PlainScript.Proofs.Scoping
import PlainScript.Proofs.Turns

/-! Strings at the start of a body. What a pass removes or restores is not one of them, so that a directive stays a
directive with the spelling that it has. New directives come only from statements that move into a body or go away in
front of its other strings, or from calls that become strings: spelling strings anew and folding numbers make none. -/
namespace PlainScript

open Relation

namespace Arena

variable {a b : Arena} {root target statement owner x y : NodeId} {payload leaf : Payload NodeId}

/-- The statements of the node make up a program or the body of a function. -/
def IsBody (a : Arena) (owner : NodeId) : Prop :=
  a.kind? owner = some .program ∨
    a.kind? owner = some .blockStatement ∧ ∃ f, a.HasParent owner f ∧ a.isFunction f = true

/-- A string literal that is a directive. -/
def IsDirectiveString (a : Arena) (x : NodeId) : Prop := a.kind? x = some .stringLiteral ∧ a.isDirective x = true

/-- The literal is all that the statement holds, and in the body around that only strings come before it. -/
structure Directs (a : Arena) (x statement owner : NodeId) (before after : List NodeId) : Prop where
  kind_eq : a.kind? x = some .stringLiteral
  parent : a.HasParent x statement
  payload_eq : a.payload? statement = some (.expressionStatement (some x))
  around : a.HasParent statement owner
  isBody : a.IsBody owner
  children_eq : a.childIds owner = before ++ statement :: after
  strings : ∀ s ∈ before, a.isStringStatement s = true

lemma body?_eq_some {body : List NodeId} : a.body? owner = some body ↔ a.IsBody owner ∧ a.childIds owner = body := by
  unfold body? IsBody
  rw [kind?_eq, childIds]
  cases hcell : a.cell? owner with
  | none => simp [payload?, hcell]
  | some cell =>
    obtain ⟨⟨payload, _, _, _⟩, parent⟩ := cell
    have hparent (f : NodeId) : a.HasParent owner f ↔ parent = some f := by simp [HasParent, parentOf, hcell]
    have hlist (slots : List (Option NodeId)) : (slots.filterMap fun s => s) = slots.filterMap id ++ [] := by simp
    cases payload with
    | program slots =>
      simp only [payload?, hcell, Option.bind_eq_bind, Option.bind_some, Option.map_some]
      exact ⟨fun h => ⟨.inl rfl, (hlist slots).symm.trans (Option.some.inj h)⟩,
        fun h => congrArg some ((hlist slots).trans h.2)⟩
    | blockStatement slots =>
      simp only [payload?, hcell, Option.bind_eq_bind, Option.bind_some, Option.map_some, hparent]
      cases parent with
      | none =>
        refine iff_of_false (by simp) ?_
        rintro ⟨hkind | ⟨-, f, ⟨⟩, -⟩, -⟩
        cases hkind
      | some f =>
        cases hfunction : a.isFunction f with
        | false =>
          refine iff_of_false (by simp [hfunction]) ?_
          rintro ⟨hkind | ⟨-, f', ⟨⟩, hf'⟩, -⟩
          · cases hkind
          · cases hfunction.symm.trans hf'
        | true =>
          simp only [Option.any_some, hfunction, if_true]
          exact ⟨fun h => ⟨.inr ⟨rfl, f, rfl, hfunction⟩, (hlist slots).symm.trans (Option.some.inj h)⟩,
            fun h => congrArg some ((hlist slots).trans h.2)⟩
    | _ =>
      refine iff_of_false (by simp) ?_
      rintro ⟨hkind | ⟨hkind, -⟩, -⟩ <;> simp [payload?, hcell, Payload.kind] at hkind

lemma isDirective_iff : a.isDirective x = true ↔ ∃ statement owner body, a.statementOf? x = some statement ∧
    a.HasParent statement owner ∧ a.body? owner = some body ∧ statement ∈ body ∧
      ∀ s ∈ body.takeWhile (· != statement), a.isStringStatement s = true := by
  have hgetD (found? : Option Bool) : found?.getD false = true ↔ found? = some true := by cases found? <;> simp
  rw [isDirective, hgetD]
  simp only [Option.bind_eq_bind, Option.bind_eq_some_iff, Option.pure_def, Option.some.injEq, Bool.and_eq_true,
    List.contains_iff_mem, List.all_eq_true]
  constructor
  · rintro ⟨statement, hstatement, cell, hcell, owner, hparent, body, hbody, hmem, hstrings⟩
    refine ⟨statement, owner, body, hstatement, ?_, hbody, hmem, hstrings⟩
    rw [HasParent, parentOf, hcell, Option.bind_some, hparent]
  · rintro ⟨statement, owner, body, hstatement, howner, hbody, hmem, hstrings⟩
    obtain ⟨cell, hcell, hparent⟩ := Option.bind_eq_some_iff.mp howner
    exact ⟨statement, hstatement, cell, hcell, owner, hparent, body, hbody, hmem, hstrings⟩

lemma isDirectiveString_iff :
    a.IsDirectiveString x ↔ ∃ statement owner before after, a.Directs x statement owner before after := by
  rw [IsDirectiveString, isDirective_iff]
  constructor
  · rintro ⟨hkind, statement, owner, body, hstatement, howner, hbody, hmem, hstrings⟩
    obtain ⟨hparent, hp⟩ := statementOf?_iff.mp hstatement
    obtain ⟨hisBody, rfl⟩ := body?_eq_some.mp hbody
    obtain ⟨before, after, hnot, heq⟩ := List.eq_append_cons_of_mem hmem
    refine ⟨statement, owner, before, after, hkind, hparent, hp, howner, hisBody, hnot, fun s hs => hstrings s ?_⟩
    rw [hnot, List.takeWhile_append_of_pos fun y hy => by simpa using ne_of_mem_of_not_mem hy heq]
    exact List.mem_append_left _ hs
  · rintro ⟨statement, owner, before, after, h⟩
    refine ⟨h.kind_eq, statement, owner, _, statementOf?_iff.mpr ⟨h.parent, h.payload_eq⟩, h.around,
      body?_eq_some.mpr ⟨h.isBody, h.children_eq⟩, by simp, fun s hs => h.strings s ?_⟩
    rw [List.takeWhile_append] at hs
    split at hs
    · simpa using hs
    · exact List.takeWhile_subset _ hs

lemma isStringStatement_iff : a.isStringStatement y = true ↔
    ∃ e, a.payload? y = some (.expressionStatement (some e)) ∧ a.kind? e = some .stringLiteral := by
  unfold isStringStatement
  split
  next e hp => simp [hp, isKind]
  next hnot =>
    refine iff_of_false Bool.false_ne_true ?_
    rintro ⟨e, hp, -⟩
    exact hnot e hp

/-! ### Statements that give way -/

/-- The nodes are taken out of no body, no function and no statement of an expression. -/
def AreInner (a : Arena) (moved : List NodeId) : Prop := ∀ r ∈ moved, ∀ q, a.HasParent r q →
  a.kind? q ≠ some .expressionStatement ∧ ¬ a.IsBody q ∧ a.isFunction q = false

section Exchange

variable {p : NodeId} {place : Payload.Place} {moved new before after : List NodeId}
  (h : a.Exchange root target p payload place moved new b) (hrole : place.role.takesStatement = true)
  (hmoved : a.AreInner moved) (htarget : a.isStringStatement target = false)
include h hrole

/-- A statement gives way, and not the expression that a statement holds. -/
lemma Exchange.ne_of_expressionStatement {e : Option NodeId} (hy : a.payload? y = some (.expressionStatement e)) :
    y ≠ p := by
  rintro rfl
  obtain rfl := Option.some.inj (h.payload_eq.symm.trans hy)
  obtain ⟨pre, slot, post, hslots, -, -⟩ := Payload.slots_splice h.place_eq
  have hmem : (place.role, slot) ∈ (Payload.expressionStatement e).slots := by simp [hslots]
  obtain ⟨heq, -⟩ := Prod.mk.inj (List.mem_singleton.mp hmem)
  simp [heq, Role.takesStatement] at hrole

include htarget

/-- A string that was a statement of its own next to others is one still. -/
lemma Exchange.isStringStatement_after (hstays : ¬ a.StaysWith moved target owner) (hy : a.HasParent y owner) (hstring : a.isStringStatement y = true) : b.isStringStatement y = true := by
  obtain ⟨e, hp, hkind⟩ := isStringStatement_iff.mp hstring
  have hnot : ¬ a.StaysWith moved target y := fun hs => by
    obtain rfl := Exchange.stays_of_parent hy hstays hs
    exact Bool.false_ne_true (htarget.symm.trans hstring)
  have hey : a.HasParent e y := h.rooted.firm.mem_iff.mp (childIds_eq hp ▸ List.mem_singleton_self e)
  have henot : ¬ a.StaysWith moved target e := fun hs => by
    obtain rfl := Exchange.stays_of_parent hey hnot hs
    exact h.ne_of_expressionStatement hrole hp (Option.some.inj (hey.symm.trans h.parent_eq))
  refine isStringStatement_iff.mpr ⟨e, ?_, ?_⟩
  · rw [h.payload?_of_lt (lt_size_of_parentOf hy) (h.ne_of_expressionStatement hrole hp) hnot, hp]
  · rw [h.kind?_of_lt (lt_size_of_parentOf hey) henot, hkind]

include hmoved

/-- A directive that is left stays what it is. -/
lemma Exchange.directs_after (hd : a.Directs x statement owner before after) (hway : ReflTransGen b.HasParent x root) :
    (∃ after', b.Directs x statement owner before after') ∧ b.payload? x = a.payload? x := by
  have hfirm := h.rooted.firm
  have hstatementKind : a.kind? statement = some .expressionStatement := by rw [kind?_eq, hd.payload_eq]; rfl
  have hxmoved : x ∉ moved := fun hm => (hmoved x hm statement hd.parent).1 hstatementKind
  have hsmoved : statement ∉ moved := fun hm => (hmoved statement hm owner hd.around).2.1 hd.isBody
  have hx : ¬ a.StaysWith moved target x := fun hs => h.not_attached hs hway
  have hs : ¬ a.StaysWith moved target statement := Exchange.parent_not_stays hd.parent hxmoved hx
  have ho : ¬ a.StaysWith moved target owner := Exchange.parent_not_stays hd.around hsmoved hs
  have hxlt := lt_size_of_parentOf hd.parent
  have hslt := lt_size_of_parentOf hd.around
  have holt := hfirm.parent_lt hd.around
  have hxp : x ≠ p := by
    rintro rfl
    obtain ⟨q, hq, hkind⟩ := exists_payload hd.kind_eq
    have hchild : target ∈ q.children := childIds_eq hq ▸ hfirm.mem_iff.mpr h.parent_eq
    cases q <;> cases hkind
    cases hchild
  have hbody : b.IsBody owner := by
    refine hd.isBody.imp (fun hkind => ?_) fun ⟨hkind, f, hf, hfunction⟩ => ?_
    · rw [h.kind?_of_lt holt ho, hkind]
    · have homoved : owner ∉ moved := fun hm => Bool.false_ne_true ((hmoved owner hm f hf).2.2.symm.trans hfunction)
      refine ⟨by rw [h.kind?_of_lt holt ho, hkind], f, ?_, ?_⟩
      · rw [HasParent, h.parentOf_of_not_stays holt homoved ho]
        exact hf
      · rw [isFunction, h.kind?_of_lt (hfirm.parent_lt hf) (Exchange.parent_not_stays hf homoved ho)]
        exact hfunction
  -- What comes for the target in the body itself stands behind the directive.
  have hchildren : ∃ after', b.childIds owner = before ++ statement :: after' := by
    by_cases hop : owner = p
    · subst hop
      obtain ⟨left, right, hleft, hsplice⟩ := Payload.children_splice h.place_eq
      rw [childIds_eq h.replaced.payload?_place, hsplice new]
      have heq : before ++ statement :: after = left ++ target :: right := by
        rw [← hd.children_eq, ← hleft, childIds_eq h.payload_eq]
      have hne : statement ≠ target := fun hst => hs (hst ▸ .refl)
      have hnot : target ∉ before := fun hm => Bool.false_ne_true (htarget.symm.trans (hd.strings target hm))
      obtain ⟨more, rfl, hmore⟩ | ⟨more, rfl, hmore⟩ := List.append_eq_append_iff.mp heq
      · cases more with
        | nil => exact absurd (List.cons.inj hmore).1 hne
        | cons first more =>
          obtain ⟨rfl, -⟩ := List.cons.inj hmore
          exact ⟨_, by rw [List.append_assoc, List.append_assoc]; rfl⟩
      · cases more with
        | nil => exact absurd (List.cons.inj hmore).1.symm hne
        | cons first more =>
          obtain ⟨rfl, -⟩ := List.cons.inj hmore
          simp at hnot
    · refine ⟨after, ?_⟩
      rw [childIds, h.payload?_of_lt holt hop ho, ← childIds, hd.children_eq]
  obtain ⟨after', hafter⟩ := hchildren
  refine ⟨⟨after', ?_⟩, h.payload?_of_lt hxlt hxp hx⟩
  exact {
    kind_eq := by rw [h.kind?_of_lt hxlt hx, hd.kind_eq]
    parent := by
      rw [HasParent, h.parentOf_of_not_stays hxlt hxmoved hx]
      exact hd.parent
    payload_eq := by
      rw [h.payload?_of_lt hslt (h.ne_of_expressionStatement hrole hd.payload_eq) hs, hd.payload_eq]
    around := by
      rw [HasParent, h.parentOf_of_not_stays hslt hsmoved hs]
      exact hd.around
    isBody := hbody
    children_eq := hafter
    strings := fun y hy => by
      have hyo : a.HasParent y owner := hfirm.mem_iff.mp (by rw [hd.children_eq]; exact List.mem_append_left _ hy)
      exact h.isStringStatement_after hrole htarget ho hyo (hd.strings y hy) }

end Exchange

lemma isStringStatement_of_kind {k : Kind} (h : a.kind? y = some k) (hk : k ≠ .expressionStatement) :
    a.isStringStatement y = false := by
  rw [Bool.eq_false_iff]
  intro hstring
  obtain ⟨e, hp, -⟩ := isStringStatement_iff.mp hstring
  rw [kind?_eq, hp] at h
  exact hk (Option.some.inj h).symm

/-- What a branch consists of stands in its `if`, or in a block there. -/
lemma Comes.areInner (hfirm : Firm a.parentOf a.childIds) {place : Payload.Place} {moved new : List NodeId}
    (h : Comes a target place b moved new) : a.AreInner moved := by
  have hif := h.kind?_eq
  intro r hr q hq
  cases h with
  | nothing => cases hr
  | branch htakes =>
    obtain rfl := List.mem_singleton.mp hr
    obtain rfl := Option.some.inj (hq.symm.trans (htakes.parentOf_eq hfirm rfl))
    simp [hif, IsBody, isFunction, Kind.isFunction]
  | @statements k body htakes hbody =>
    have hrk : a.parentOf r = some k := hfirm.mem_iff.mp (by
      rw [childIds_eq hbody]
      exact List.mem_append_left _ hr)
    obtain rfl := Option.some.inj (hq.symm.trans hrk)
    have hk : a.kind? q = some .blockStatement := by rw [Arena.kind?_eq, hbody]; rfl
    refine ⟨by simp [hk], ?_, by simp [isFunction, hk, Kind.isFunction]⟩
    rintro (hkind | ⟨-, f, hf, hfunction⟩)
    · cases hk.symm.trans hkind
    · obtain rfl := Option.some.inj (hf.symm.trans (htakes.parentOf_eq hfirm rfl))
      simp [isFunction, hif, Kind.isFunction] at hfunction

/-- The statements of cases stand in these. -/
lemma areInner_mergedCases (hfirm : Firm a.parentOf a.childIds) {dispatch : NodeId} :
    a.AreInner (a.mergedCases dispatch) := by
  intro r hr q hq
  obtain ⟨c, -, hc⟩ := List.mem_flatMap.mp hr
  obtain ⟨test, consequent, hp, -⟩ := mem_caseStatements hc
  obtain rfl := Option.some.inj (hq.symm.trans (hfirm.mem_iff.mp ((caseStatements_sublist a c).subset hc)))
  have hk : a.kind? q = some .switchCase := by rw [kind?_eq, hp]; rfl
  simp [hk, IsBody, isFunction, Kind.isFunction]

/-! ### Literals -/

/-- The kinds of what is around a directive: its statement, and the body of the program or of a function. -/
def framing : List Kind :=
  [.expressionStatement, .program, .blockStatement, .functionDeclaration, .functionExpression,
    .arrowFunctionExpression]

/-- Where strings stay strings, and what may be around them stays as it is, so do directives. -/
lemma Directs.transfer {before after : List NodeId} (h : a.Directs x statement owner before after)
    (hstring : ∀ y, a.kind? y = some .stringLiteral → b.kind? y = some .stringLiteral)
    (hpayload : ∀ y, ∀ k ∈ framing, a.kind? y = some k → b.payload? y = a.payload? y)
    (hparent : ∀ y z, ∀ k ∈ framing, a.kind? z = some k → a.HasParent y z → b.HasParent y z) :
    b.Directs x statement owner before after := by
  have hkind (y : NodeId) (k : Kind) (hk : k ∈ framing) (hy : a.kind? y = some k) : b.kind? y = some k := by
    rw [kind?_eq, hpayload y k hk hy, ← kind?_eq, hy]
  have hstatement : a.kind? statement = some .expressionStatement := by rw [kind?_eq, h.payload_eq]; rfl
  obtain ⟨k, hk, howner⟩ : ∃ k ∈ framing, a.kind? owner = some k := by
    obtain hprogram | ⟨hblock, -⟩ := h.isBody
    · exact ⟨_, by decide, hprogram⟩
    · exact ⟨_, by decide, hblock⟩
  exact {
    kind_eq := hstring x h.kind_eq
    parent := hparent x statement _ (by decide) hstatement h.parent
    payload_eq := (hpayload statement _ (by decide) hstatement).trans h.payload_eq
    around := hparent statement owner k hk howner h.around
    isBody := by
      refine h.isBody.imp (hkind owner _ (by decide)) fun ⟨hblock, f, hf, hfunction⟩ => ?_
      obtain ⟨k', hf', hfunction'⟩ := (Option.any_eq_true ..).mp hfunction
      have hk' : k' ∈ framing := by
        revert hfunction'
        cases k' <;> decide
      refine ⟨hkind owner _ (by decide) hblock, f, hparent owner f k' hk' hf' hf, ?_⟩
      rw [isFunction, hkind f k' hk' hf', ← hf']
      exact hfunction
    children_eq := by rw [childIds, hpayload owner k hk howner, ← childIds, h.children_eq]
    strings := fun s hs => by
      obtain ⟨e, hp, he⟩ := isStringStatement_iff.mp (h.strings s hs)
      refine isStringStatement_iff.mpr ⟨e, ?_, hstring e he⟩
      rw [hpayload s .expressionStatement (by decide) (by rw [kind?_eq, hp]; rfl), hp] }

section Bared

variable {q : Payload NodeId} (h : a.Bared target leaf b) (hq : a.payload? target = some q)
  (hgives : a.Gives target q leaf)
include h hq hgives

lemma Bared.ne_of_framing {k : Kind} (hk : k ∈ framing) :
    (a.kind? y = some k → y ≠ target) ∧ (b.kind? y = some k → y ≠ target) := by
  have hnot : ∀ k ∈ withering ++ withered, k ∉ framing := by decide
  obtain ⟨hwithering, hwithered⟩ := hgives.kind_mem
  constructor
  · rintro hy rfl
    rw [kind?_eq, hq] at hy
    exact hnot k (List.mem_append_left _ (Option.some.inj hy ▸ hwithering)) hk
  · rintro hy rfl
    rw [kind?_eq, h.payload?_target] at hy
    exact hnot k (List.mem_append_right _ (Option.some.inj hy ▸ hwithered)) hk

omit hq hgives in
lemma Bared.kind?_of_ne (hy : y ≠ target) : b.kind? y = a.kind? y := by
  rw [kind?_eq, h.payload?_of_ne hy, ← kind?_eq]

/-- What an expression gives way to makes no directive out of another string, and no other thing out of a directive. -/
lemma Bared.directive_after (hx : a.IsDirectiveString x) : b.IsDirectiveString x ∧ b.payload? x = a.payload? x := by
  obtain ⟨statement, owner, before, after, hd⟩ := isDirectiveString_iff.mp hx
  have hne : x ≠ target := by
    rintro rfl
    rw [IsDirectiveString, kind?_eq, hq] at hx
    cases hgives with
    | spelling hdirective => exact Bool.false_ne_true (hdirective.symm.trans hx.2)
    | _ => cases hx.1
  refine ⟨isDirectiveString_iff.mpr ⟨statement, owner, before, after, hd.transfer (fun y hy => ?_)
    (fun y k hk hy => h.payload?_of_ne ((h.ne_of_framing hq hgives hk).1 hy))
    fun y z k hk hz hyz => h.hasParent_iff.mpr ⟨hyz, (h.ne_of_framing hq hgives hk).1 hz⟩⟩, h.payload?_of_ne hne⟩
  by_cases heq : y = target
  · subst heq
    rw [kind?_eq, hq] at hy
    rw [kind?_eq, h.payload?_target]
    cases hgives <;> first | rfl | cases hy
  · rw [h.kind?_of_ne heq, hy]

/-- Only a call that becomes a string makes new directives. -/
lemma Bared.directive_before (hcall : q.kind ≠ .callExpression) (hx : b.IsDirectiveString x) : a.IsDirectiveString x := by
  obtain ⟨statement, owner, before, after, hd⟩ := isDirectiveString_iff.mp hx
  refine isDirectiveString_iff.mpr ⟨statement, owner, before, after, hd.transfer (fun y hy => ?_)
    (fun y k hk hy => (h.payload?_of_ne ((h.ne_of_framing hq hgives hk).2 hy)).symm)
    fun y z k hk hz hyz => (h.hasParent_iff.mp hyz).1⟩
  by_cases heq : y = target
  · subst heq
    rw [kind?_eq, h.payload?_target] at hy
    rw [kind?_eq, hq]
    cases hgives with
    | spelling => rfl
    | placeholder => exact absurd rfl hcall
    | _ => cases hy
  · rw [← h.kind?_of_ne heq, hy]

end Bared

/-! ### Steps of passes -/

namespace Rewrites

variable (h : Rewrites root a b)
include h

lemma attached_before (hlt : x < a.size) (hway : ReflTransGen b.HasParent x root) : ReflTransGen a.HasParent x root := by
  cases h with
  | branch h => exact Branches.attached_before h hlt hway
  | merge h =>
    obtain ⟨loop, dispatch, block, p, payload, place, new, -, hexchange, -⟩ := h
    exact hexchange.attached_before hway hlt
  | removal h =>
    obtain ⟨target, -, p, payload, place, new, hexchange, -⟩ := h
    exact hexchange.attached_before hway hlt
  | leaf h =>
    obtain ⟨k, target, q, leaf, -, -, -, -, hbared⟩ := h
    exact hbared.attached_before hway

/-- No step of a pass changes a directive, or makes a plain string of it. -/
theorem directive_after (hs : a.Standing root) (hx : a.IsDirectiveString x) (hway : ReflTransGen b.HasParent x root) :
    b.IsDirectiveString x ∧ b.payload? x = a.payload? x := by
  obtain ⟨statement, owner, before, after, hd⟩ := isDirectiveString_iff.mp hx
  -- Branches, loops and what is removed give way alike, each coming from elsewhere.
  have hexchanged {target p : NodeId} {payload : Payload NodeId} {place : Payload.Place} {moved new : List NodeId}
      (hexchange : a.Exchange root target p payload place moved new b) (hrole : place.role.takesStatement = true)
      (hmoved : a.AreInner moved) (htarget : a.isStringStatement target = false) :
      b.IsDirectiveString x ∧ b.payload? x = a.payload? x := by
    obtain ⟨⟨after', hafter⟩, hpayload⟩ := hexchange.directs_after hrole hmoved htarget hd hway
    exact ⟨isDirectiveString_iff.mpr ⟨statement, owner, before, after', hafter⟩, hpayload⟩
  cases h with
  | branch h =>
    obtain ⟨target, p, payload, place, moved, new, hexchange, ⟨hrole, -⟩, hcomes⟩ := h
    exact hexchanged hexchange hrole (hcomes.areInner hs.firm) (isStringStatement_of_kind hcomes.kind?_eq (by decide))
  | merge h =>
    obtain ⟨loop, dispatch, block, p, payload, place, new, hflat, hexchange, -⟩ := h
    obtain ⟨k, hk, hloop⟩ := hflat.loop_kind
    have hrole := (hs.takesStatement hk (Kind.isPlainStatement_of_isLoop hloop) hexchange.toAt).1
    refine hexchanged hexchange hrole (areInner_mergedCases hs.firm) (isStringStatement_of_kind hk ?_)
    rintro rfl
    cases hloop
  | removal h =>
    obtain ⟨target, htarget, p, payload, place, new, hexchange, ⟨hrole, -⟩, -⟩ := h
    exact hexchanged hexchange hrole (fun _ hr => absurd hr List.not_mem_nil) htarget
  | leaf h =>
    obtain ⟨k, target, q, leaf, -, hq, -, hgives, hbared⟩ := h
    exact hbared.directive_after hq hgives hx

end Rewrites

/-- No number of steps does. -/
theorem Rewrites.directive_after_steps {n : Nat} (h : InSteps (Rewrites root) n a b) (hs : a.Standing root)
    (hx : a.IsDirectiveString x) (hway : ReflTransGen b.HasParent x root) :
    b.IsDirectiveString x ∧ b.payload? x = a.payload? x := by
  have hlt := lt_size_of_kind? hx.1
  induction h with
  | zero => exact ⟨hx, rfl⟩
  | @succ _ a b c h hstep ih =>
    have hb := h.keeps (P := fun b => b.Standing root ∧ a.size ≤ b.size)
      (fun _ _ hb hstep => ⟨hstep.standing hb.1, hb.2.trans hstep.size_le⟩) ⟨hs, Nat.le_refl _⟩
    obtain ⟨hxb, hpayload⟩ := ih hs hx (hstep.attached_before (Nat.lt_of_lt_of_le hlt hb.2) hway) hlt
    obtain ⟨hxc, hpayload'⟩ := hstep.directive_after hb.1 hxb hway
    exact ⟨hxc, hpayload'.trans hpayload⟩

/-- Where no call becomes a string, the directives that are left were there before. -/
theorem WithersFrom.directive_before {k : Kind} (hk : k ≠ .callExpression) {n : Nat}
    (h : InSteps (WithersFrom k root) n a b) (hx : b.IsDirectiveString x) (hway : ReflTransGen b.HasParent x root) :
    a.IsDirectiveString x ∧ ReflTransGen a.HasParent x root := by
  induction h with
  | zero => exact ⟨hx, hway⟩
  | succ _ hstep ih =>
    obtain ⟨target, q, leaf, -, hq, rfl, hgives, hbared⟩ := hstep
    exact ih (hbared.directive_before hq hgives hk hx) (hbared.attached_before hway)

end Arena

/-! ### Runs -/

open Arena PlainScript.Action Pass

namespace Pass

variable {s : Run} {root : NodeId}

/-- Spelling strings anew and folding numbers leave the directives as they are. -/
theorem transform_keeps_directives {pass : Pass} (hpass : pass = escapes ∨ pass = arithmetic)
    (hs : s.arena.Standing root) : pass.transform.Yields s fun _ s' =>
      ∀ x, ReflTransGen s'.arena.HasParent x root → s'.arena.IsDirectiveString x →
        s.arena.IsDirectiveString x ∧ ReflTransGen s.arena.HasParent x root := by
  obtain rfl | rfl := hpass
  · exact (Escape.transform_counts hs).mono fun _ _ ⟨_, hsteps, _⟩ x hway hx =>
      WithersFrom.directive_before (by decide) hsteps hx hway
  · exact (Folding.transform_counts hs).mono fun _ _ ⟨_, hsteps, _⟩ x hway hx =>
      WithersFrom.directive_before (by decide) hsteps hx hway

/-- The statements of a branch come to the place of their `if`, so that a string at their start may become a directive. -/
theorem Branch.transform_makes_directive :
    Branch.Turns "if (true) \x7b 'use strict'; \x7d f();" "'use strict';\nf();" :=
  Branch.turns_of_run (exists_of_parse (by decide +kernel))

end Pass

namespace Pipeline

variable {source : Text} {options : PassOptions} {config : Config} {script : Script}

/-- A directive that is left after a run is a directive still, with the spelling that it had. If no pass but those for
strings and for arithmetic has changed anything, all directives that are left were there before. -/
theorem run_keeps_directives (hparse : parse source config.parsing = .ok script) {p : Pipeline} {run : Run}
    (hrun : (pipeline options).run (script.start config) = (p, run)) :
    (∀ x, (script.start config).arena.IsDirectiveString x → run.arena.Attached x →
      run.arena.IsDirectiveString x ∧ run.arena.payload? x = (script.start config).arena.payload? x) ∧
    ((∀ entry ∈ run.records, entry.pass = Escape.name ∨ entry.pass = Folding.name) →
      ∀ x, run.arena.Attached x → run.arena.IsDirectiveString x → (script.start config).arena.IsDirectiveString x) := by
  obtain ⟨root, hs⟩ := ofTree_standing (parse_is_program hparse)
  obtain ⟨looked, harena, hrecords, hturns⟩ := run_takesTurns options (r := script.start config) hs
  have hfaithful (e : Pass × Bool) (he : e ∈ crew options) : e.1.IsFaithful := isFaithful_of_mem_crew he
  rw [hrun] at hturns
  replace hs : looked.arena.Standing root := harena ▸ hs
  rw [← harena]
  obtain ⟨n, hsteps⟩ := hturns.steps hfaithful hs
  dsimp only at hsteps hturns
  have hlast := hsteps.keeps (P := (Standing · root)) (fun _ _ h hstep => hstep.standing h) hs
  constructor
  · intro x hx hattached
    exact Rewrites.directive_after_steps hsteps hs hx (hlast.toRooted.attached_iff.mp hattached)
  · intro hnames x hattached hx
    refine (hturns.keeps (P := fun a _ => ∀ x, ReflTransGen a.HasParent x root → a.IsDirectiveString x →
      looked.arena.IsDirectiveString x ∧ ReflTransGen looked.arena.HasParent x root) hfaithful hs ?_
      (fun x hway hx => ⟨hx, hway⟩) x (hlast.toRooted.attached_iff.mp hattached) hx).1
    rintro e he - ⟨entry, hentry, hname⟩ s hs' hbefore
    have hpass : e.1 = escapes ∨ e.1 = arithmetic := by
      have hown := hname ▸ hnames entry hentry
      simp only [crew, List.mem_cons, List.not_mem_nil, or_false] at he
      obtain rfl | rfl | rfl | rfl | rfl | rfl := he
      · exact absurd hown (by dsimp only; decide)
      · exact absurd hown (by dsimp only; decide)
      · exact .inl rfl
      · exact absurd hown (by dsimp only; decide)
      · exact absurd hown (by dsimp only; decide)
      · exact .inr rfl
    refine (transform_keeps_directives hpass hs').mono fun _ _ h x hway hx => ?_
    obtain ⟨hx, hway⟩ := h x hway hx
    exact hbefore x hway hx

end Pipeline

end PlainScript
