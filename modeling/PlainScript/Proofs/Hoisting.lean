import PlainScript.Proofs.DeadBranches
import PlainScript.Proofs.PlacedWays
import PlainScript.Proofs.Recovery

/-! Names that belong to a whole function. A `var` declares its names for the function around it, or for the script,
wherever it stands there. Where an `if` gives way to the branch that it takes, the names of all declarations that are
not in a branch that is never taken are still declared. -/
namespace PlainScript

open Relation

namespace Payload

variable {α : Type}

/-- Where a declaration or a pattern has its names. -/
def binders : Payload α → List (Option α)
  | variableDeclaration _ declarations => declarations
  | variableDeclarator id _ => [id]
  | arrayExpression elements => elements
  | objectExpression properties => properties
  | property _ value .. => [value]
  | assignmentExpression _ left _ => [left]
  | spreadElement argument => [argument]
  | _ => []

/-- Any statement may stand in the node. -/
def isHost (p : Payload α) : Bool := p.slots.any (·.1.takesStatement)

lemma isHost_of_binders {p : Payload α} {c : Option α} (h : c ∈ p.binders) : p.isHost = false := by
  cases p <;> first | rfl | cases h

lemma splice_ifStatement [DecidableEq α] {test consequent alternate : Option α} {x : α} {place : Place}
    (h : (ifStatement test consequent alternate).place? x = some place) (hrole : place.role.takesStatement = true) :
    place.index = none ∧ ∀ new : List α,
      consequent = some x ∧ splice (ifStatement test consequent alternate) place new =
        ifStatement test new.head? alternate ∨
      consequent ≠ some x ∧ alternate = some x ∧ splice (ifStatement test consequent alternate) place new =
        ifStatement test consequent new.head? := by
  simp only [place?, slots_ifStatement, placeIn] at h
  split_ifs at h with htest hconsequent halternate <;> cases h
  · cases hrole
  · exact ⟨rfl, fun _ => .inl ⟨hconsequent, rfl⟩⟩
  · exact ⟨rfl, fun _ => .inr ⟨hconsequent, halternate, rfl⟩⟩

end Payload

namespace Arena

variable {a b : Arena} {root target p x y scope : NodeId} {payload : Payload NodeId} {place : Payload.Place}
  {moved new : List NodeId} {kept kept' : Option NodeId} {name : Text}

/-- The way up to the parent leads out of no function, and out of no branch that is never taken. -/
def Climbs (a : Arena) (x y : NodeId) : Prop :=
  a.parentOf x = some y ∧ a.isFunction x = false ∧ ∀ kept, a.Takes y kept → kept = some x

/-- The name is one of those that a declaration or a pattern declares. -/
inductive Binds (a : Arena) (name : Text) : NodeId → Prop
  | name {x : NodeId} (h : a.payload? x = some (.identifier name)) : Binds a name x
  | within {x c : NodeId} {q : Payload NodeId} (h : a.payload? x = some q) (hc : some c ∈ q.binders)
      (hbinds : Binds a name c) : Binds a name x

/-- A function, or the script. -/
def IsScope (a : Arena) (x : NodeId) : Prop := a.kind? x = some .program ∨ a.isFunction x = true

/-- The name is declared for a scope by a `var` that is not in a branch that is never taken. -/
def Declares (a : Arena) (scope : NodeId) (name : Text) : Prop :=
  ∃ x declarations, a.payload? x = some (.variableDeclaration "var" declarations) ∧ a.Binds name x ∧
    ReflTransGen a.Climbs x scope

lemma Takes.unique (h : a.Takes target kept) (h' : a.Takes target kept') : kept = kept' := by
  obtain ⟨test, consequent, alternate, v, hpayload, hv, rfl⟩ := h
  obtain ⟨test', consequent', alternate', v', hpayload', hv', rfl⟩ := h'
  obtain ⟨rfl, rfl, rfl⟩ : test = test' ∧ consequent = consequent' ∧ alternate = alternate' := by
    simpa [hpayload] using hpayload'
  obtain rfl := Option.some.inj (hv.symm.trans hv')
  rfl

/-- The `if` goes, and so does the block around the statements that come for it. -/
def Goes (a : Arena) (target : NodeId) (moved : List NodeId) (x : NodeId) : Prop :=
  x = target ∨ a.Takes target (some x) ∧ x ∉ moved

section Step

variable (h : a.Exchange root target p payload place moved new b) (hcomes : Comes a target place b moved new)

namespace Comes

include hcomes

/-- What goes is an `if` or a block. -/
lemma kind_of_goes (hx : a.Goes target moved x) :
    a.kind? x = some .ifStatement ∨ a.kind? x = some .blockStatement := by
  obtain rfl | ⟨htakes, hmoved⟩ := hx
  · exact .inl hcomes.kind?_eq
  · cases hcomes with
    | nothing h => cases h.unique htakes
    | branch h => exact absurd (List.mem_singleton.mpr (Option.some.inj (h.unique htakes)).symm) hmoved
    | statements h hbody =>
      obtain rfl := Option.some.inj (h.unique htakes)
      exact .inr (by rw [Arena.kind?_eq, hbody]; rfl)

lemma goes_of_moved (hfirm : Firm a.parentOf a.childIds) (hx : x ∈ moved) (hy : a.parentOf x = some y) :
    a.Goes target moved y := by
  cases hcomes with
  | nothing => cases hx
  | branch h =>
    obtain rfl := List.mem_singleton.mp hx
    exact .inl (Option.some.inj (hy.symm.trans (h.parentOf_eq hfirm rfl)))
  | @statements k body h hbody =>
    have hkids (r : NodeId) : r ∈ body.filterMap id ↔ a.parentOf r = some k := by
      rw [← hfirm.mem_iff, childIds_eq hbody]
      simp [Payload.children, Slot.children]
    obtain rfl := Option.some.inj (hy.symm.trans ((hkids x).mp hx))
    exact .inr ⟨h, fun hy => hfirm.acyclic y (.single ((hkids y).mp hy))⟩

/-- Of what goes only what comes is not left behind. -/
lemma moved_of_climbs (hfirm : Firm a.parentOf a.childIds) (hxy : a.Climbs x y) (hy : a.Goes target moved y)
    (hx : ¬ a.Goes target moved x) : x ∈ moved := by
  obtain rfl | ⟨htakes, hmoved⟩ := hy
  · obtain ⟨kept, hkept⟩ := hcomes.takes
    obtain rfl := hxy.2.2 _ hkept
    by_contra hmoved
    exact hx (.inr ⟨hkept, hmoved⟩)
  · cases hcomes with
    | nothing h => cases h.unique htakes
    | branch h => exact absurd (List.mem_singleton.mpr (Option.some.inj (h.unique htakes)).symm) hmoved
    | statements h hbody =>
      obtain rfl := Option.some.inj (h.unique htakes)
      have hchild := hfirm.mem_iff.mpr hxy.1
      rw [childIds_eq hbody] at hchild
      simpa [Payload.children, Slot.children] using hchild

lemma mem_new (hx : x ∈ moved) : x ∈ new := by
  cases hcomes with
  | nothing => cases hx
  | branch | statements => exact hx

/-- To a slot of its own only one node comes. -/
lemma head?_new (hindex : place.index = none) (hx : x ∈ moved) : new.head? = some x := by
  cases hcomes with
  | nothing => cases hx
  | branch => rw [List.mem_singleton.mp hx, List.head?_cons]
  | statements _ _ hi => simp [hindex] at hi

lemma not_goes_of_scope (hscope : a.IsScope scope) : ¬ a.Goes target moved scope := fun hgoes => by
  obtain hkind | hkind := hcomes.kind_of_goes hgoes <;> simp [IsScope, isFunction, hkind, Kind.isFunction] at hscope

end Comes

namespace Exchange

include h

lemma not_goes_place : ¬ a.Goes target moved p := by
  rintro (heq | ⟨htakes, -⟩)
  · exact h.rooted.firm.acyclic target (.single (heq ▸ h.parent_eq))
  · exact h.rooted.firm.acyclic target (.head' h.parent_eq (.single (htakes.parentOf_eq h.rooted.firm rfl)))

include hcomes

lemma payload?_of_not_goes (hlt : x < a.size) (hp : x ≠ p) (hx : ¬ a.Goes target moved x) :
    b.payload? x = a.payload? x :=
  h.replaced.payload?_eq x hlt hp fun _ hr hrx => hx (hcomes.goes_of_moved h.rooted.firm hr hrx)

lemma kind?_of_not_goes (hlt : x < a.size) (hx : ¬ a.Goes target moved x) : b.kind? x = a.kind? x := by
  rw [kind?_eq, kind?_eq]
  by_cases hp : x = p
  · rw [hp, h.replaced.payload?_place, h.payload_eq, Option.map_some, Payload.kind_splice, Option.map_some]
  · rw [h.payload?_of_not_goes hcomes hlt hp hx]

/-- A test whose value is known now was known before. -/
lemma literalBoolean?_before (hy : ¬ a.Goes target moved y) {test : Option NodeId} {v : Bool}
    (hbefore : ∀ t ∈ test, a.parentOf t = some y) (hafter : ∀ t ∈ test, b.parentOf t = some y)
    (hv : b.literalBoolean? test = some v) : a.literalBoolean? test = some v := by
  obtain ⟨t, rfl, ht⟩ := literalBoolean?_eq_some hv
  have hgoes : ¬ a.Goes target moved t := by
    rintro (rfl | ⟨htakes, -⟩)
    · have hparent := hafter t rfl
      rw [h.parentOf_of_lt h.target_lt h.target_not_moved, if_pos rfl] at hparent
      cases hparent
    · exact hy (.inl (Option.some.inj ((hbefore t rfl).symm.trans (htakes.parentOf_eq h.rooted.firm rfl))))
  have hp : t ≠ p := by
    rintro rfl
    have hkind : payload.kind = .booleanLiteral := by
      rw [← Payload.kind_splice payload place new, ← Option.some.inj (ht.symm.trans h.replaced.payload?_place)]
      rfl
    have hplace := h.place_eq
    cases payload <;> cases hkind
    cases hplace
  have hpayload := h.payload?_of_not_goes hcomes (lt_size_of_parentOf (hbefore t rfl)) hp hgoes
  simp [literalBoolean?, ← hpayload, ht]

/-- An `if` that stays takes the branch that it took, or what comes for that. -/
lemma takes_before (hrole : place.role.takesStatement = true) (hlt : y < a.size) (hy : ¬ a.Goes target moved y)
    (htakes : b.Takes y kept) : ∃ kept', a.Takes y kept' ∧
      (kept = kept' ∧ (y = p → kept' ≠ some target) ∨ kept' = some target ∧ place.index = none ∧ kept = new.head?) := by
  obtain ⟨test, consequent, alternate, v, hpayload, hv, rfl⟩ := htakes
  have hafter : ∀ t ∈ test, b.parentOf t = some y := fun t ht => by
    refine h.replaced.firm.mem_iff.mp (childIds_eq hpayload ▸ ?_)
    simp [Payload.children, Slot.children, Option.mem_def.mp ht]
  have hfirst {test' consequent' alternate' : Option NodeId}
      (hif : a.payload? y = some (.ifStatement test' consequent' alternate')) (t : NodeId) (ht : t ∈ test') :
      a.parentOf t = some y := by
    refine h.rooted.firm.mem_iff.mp (childIds_eq hif ▸ ?_)
    simp [Payload.children, Slot.children, Option.mem_def.mp ht]
  by_cases hp : y = p
  · subst hp
    have hsplice := Option.some.inj (h.replaced.payload?_place.symm.trans hpayload)
    have hif := h.payload_eq
    have hplace := h.place_eq
    cases payload <;> try cases (Payload.kind_splice ..).symm.trans (congrArg Payload.kind hsplice)
    next test' consequent' alternate' =>
      obtain ⟨hindex, hcase⟩ := Payload.splice_ifStatement hplace hrole
      obtain ⟨rfl, heq⟩ | ⟨hne, rfl, heq⟩ := hcase new <;> obtain ⟨⟩ := heq.symm.trans hsplice
      all_goals have hv' := h.literalBoolean?_before hcomes hy (hfirst hif) hafter hv
      · have hnodup : (a.childIds y).Nodup := h.rooted.firm.nodup y
        have hne : alternate ≠ some target := by
          rintro rfl
          rw [childIds_eq hif] at hnodup
          cases test <;> simp [Payload.children, Slot.children] at hnodup
        refine ⟨_, ⟨_, _, _, v, hif, hv', rfl⟩, ?_⟩
        cases v with
        | true => exact .inr ⟨rfl, hindex, rfl⟩
        | false => exact .inl ⟨rfl, fun _ => hne⟩
      · refine ⟨_, ⟨_, _, _, v, hif, hv', rfl⟩, ?_⟩
        cases v with
        | true => exact .inl ⟨rfl, fun _ => hne⟩
        | false => exact .inr ⟨rfl, hindex, rfl⟩
  · have hif := (h.payload?_of_not_goes hcomes hlt hp hy).symm.trans hpayload
    have hv' := h.literalBoolean?_before hcomes hy (hfirst hif) hafter hv
    exact ⟨_, ⟨test, consequent, alternate, v, hif, hv', rfl⟩, .inl ⟨rfl, fun heq => absurd heq hp⟩⟩

variable (hrole : place.role.takesStatement = true)
include hrole

/-- The way up from a node to one that stays. -/
lemma climbs_of_stays (hxy : a.Climbs x y) (hx : ¬ a.Goes target moved x) (hy : ¬ a.Goes target moved y) :
    b.Climbs x y := by
  obtain ⟨hparent, hfunction, htaken⟩ := hxy
  have hlt := lt_size_of_parentOf hparent
  have hmoved : x ∉ moved := fun hm => hy (hcomes.goes_of_moved h.rooted.firm hm hparent)
  refine ⟨?_, ?_, fun kept hkept => ?_⟩
  · rw [h.parentOf_of_lt hlt hmoved, if_neg fun heq => hx (.inl heq), hparent]
  · rw [isFunction, h.kind?_of_not_goes hcomes hlt hx]
    exact hfunction
  · obtain ⟨kept', htakes, ⟨rfl, -⟩ | ⟨rfl, -⟩⟩ :=
      h.takes_before hcomes hrole (h.rooted.firm.parent_lt hparent) hy hkept
    · exact htaken _ htakes
    · exact absurd (.inl (Option.some.inj (htaken _ htakes)).symm) hx

/-- The way up from a node that comes for the target. -/
lemma climbs_of_goes (hxy : a.Climbs x y) (hx : ¬ a.Goes target moved x) (hy : a.Goes target moved y)
    (htarget : ∀ kept, a.Takes p kept → kept = some target) : b.Climbs x p := by
  have hmoved := hcomes.moved_of_climbs h.rooted.firm hxy hy hx
  have hlt := lt_size_of_parentOf hxy.1
  refine ⟨?_, ?_, fun kept hkept => ?_⟩
  · rw [h.replaced.parentOf_eq, if_pos (hcomes.mem_new hmoved)]
  · rw [isFunction, h.kind?_of_not_goes hcomes hlt hx]
    exact hxy.2.1
  · obtain ⟨kept', htakes, ⟨rfl, hne⟩ | ⟨-, hindex, rfl⟩⟩ :=
      h.takes_before hcomes hrole (h.rooted.firm.parent_lt h.parent_eq) h.not_goes_place hkept
    · exact absurd (htarget _ htakes) (hne rfl)
    · exact hcomes.head?_new hindex hmoved

/-- The way up is as it was, without what goes. -/
lemma climbs (hscope : ¬ a.Goes target moved scope) (hway : ReflTransGen a.Climbs x scope)
    (hx : ¬ a.Goes target moved x) : ReflTransGen b.Climbs x scope := by
  suffices hall : (¬ a.Goes target moved x → ReflTransGen b.Climbs x scope) ∧ (a.Goes target moved x →
      (∀ kept, a.Takes p kept → kept = some target) ∧ ReflTransGen b.Climbs p scope) from hall.1 hx
  clear hx
  induction hway using ReflTransGen.head_induction_on with
  | refl => exact ⟨fun _ => .refl, fun hgoes => absurd hgoes hscope⟩
  | @head x y hxy _ ih =>
    refine ⟨fun hx => ?_, fun hx => ?_⟩
    · by_cases hy : a.Goes target moved y
      · exact .head (h.climbs_of_goes hcomes hrole hxy hx hy (ih.2 hy).1) (ih.2 hy).2
      · exact .head (h.climbs_of_stays hcomes hrole hxy hx hy) (ih.1 hy)
    · obtain rfl | ⟨htakes, -⟩ := hx
      · obtain rfl := Option.some.inj (hxy.1.symm.trans h.parent_eq)
        exact ⟨hxy.2.2, ih.1 h.not_goes_place⟩
      · obtain rfl := Option.some.inj (hxy.1.symm.trans (htakes.parentOf_eq h.rooted.firm rfl))
        exact ih.2 (.inl rfl)

/-- No statement comes to a declaration or to a pattern, and none goes from there. -/
lemma payload?_of_not_host {q : Payload NodeId} (hq : a.payload? x = some q) (hhost : q.isHost = false) :
    b.payload? x = some q := by
  have hp : x ≠ p := by
    rintro rfl
    obtain rfl := Option.some.inj (hq.symm.trans h.payload_eq)
    obtain ⟨pre, slot, post, hslots, -⟩ := Payload.slots_splice h.place_eq
    simp [Payload.isHost, hslots, hrole] at hhost
  rw [h.payload?_of_not_goes hcomes (lt_size_of_payload? hq) hp, hq]
  intro hx
  have hkind := hcomes.kind_of_goes hx
  rw [kind?_eq, hq] at hkind
  cases q <;> simp [Payload.kind] at hkind <;> cases hhost

lemma binds (hbinds : a.Binds name x) : b.Binds name x := by
  induction hbinds with
  | name hq => exact .name (h.payload?_of_not_host hcomes hrole hq rfl)
  | within hq hc _ ih => exact .within (h.payload?_of_not_host hcomes hrole hq (Payload.isHost_of_binders hc)) hc ih

end Exchange

end Step

/-- What was declared for a scope is declared for it when an `if` has given way to the branch that it takes. -/
lemma Branches.declares (h : Branches root a b) (hscope : a.IsScope scope) (hdeclares : a.Declares scope name) :
    b.IsScope scope ∧ b.Declares scope name := by
  obtain ⟨target, p, payload, place, moved, new, hexchange, ⟨hrole, -⟩, hcomes⟩ := h
  obtain ⟨x, declarations, hx, hbinds, hway⟩ := hdeclares
  have hstays := hcomes.not_goes_of_scope hscope
  have hlt : scope < a.size := by
    obtain hkind | hfunction := hscope
    · exact lt_size_of_kind? hkind
    · obtain ⟨k, hkind, -⟩ := (Option.any_eq_true _ _).mp hfunction
      exact lt_size_of_kind? hkind
  refine ⟨?_, x, declarations, hexchange.payload?_of_not_host hcomes hrole hx rfl, hexchange.binds hcomes hrole hbinds,
    hexchange.climbs hcomes hrole hstays hway fun hgoes => ?_⟩
  · rwa [IsScope, isFunction, hexchange.kind?_of_not_goes hcomes hlt hstays]
  · have hkind := hcomes.kind_of_goes hgoes
    simp [kind?_eq, hx, Payload.kind] at hkind

/-- What was declared for a scope is still declared for it after any number of steps. -/
lemma branches_declare {n : Nat} (h : InSteps (Branches root) n a b) (hscope : a.IsScope scope)
    (hdeclares : a.Declares scope name) : b.IsScope scope ∧ b.Declares scope name := by
  induction h with
  | zero => exact ⟨hscope, hdeclares⟩
  | succ _ hstep ih => exact hstep.declares (ih hscope hdeclares).1 (ih hscope hdeclares).2

end Arena

/-! ### The pass -/

namespace Pass.Branch

open Arena

/-- The pass drops no name that a `var` outside of branches that are never taken declares for a function or for the
script. -/
theorem transform_keeps_vars {source : Text} {options : ParseOptions} {script : Script}
    (hparse : parse source options = .ok script) {s : Run} (hs : s.arena = ofTree script.tree) :
    transform.Yields s fun _ s' => ∀ scope name, s.arena.IsScope scope → s.arena.Declares scope name →
      s'.arena.IsScope scope ∧ s'.arena.Declares scope name := by
  obtain ⟨root, hstanding⟩ := ofTree_standing (parse_is_program hparse)
  refine (transform_counts (hs ▸ hstanding)).mono fun _ s' h scope name hscope hdeclares => ?_
  obtain ⟨n, hsteps, -⟩ := h
  exact branches_declare hsteps hscope hdeclares

/-- A source and its code after the pass, which has found something to do. -/
def Turns (source code : Text) : Prop := ∃ script s', parse source {} = .ok script ∧
  transform { arena := ofTree script.tree } = .ok .success s' ∧
    (s'.arena.root.map fun root => s'.arena.print root {}) = some (.ok code)

/-- What the pass makes of a source can be computed. -/
lemma turns_of_run {source code : Text} (h : ∃ script, parse source {} = .ok script ∧
    (match transform { arena := ofTree script.tree } with
      | .ok .success s' => decide ((s'.arena.root.map fun root => s'.arena.print root {}) = some (.ok code))
      | _ => false) = true) : Turns source code := by
  obtain ⟨script, hparse, hrun⟩ := h
  split at hrun
  next s' htransform => exact ⟨script, s', hparse, htransform, of_decide_eq_true hrun⟩
  next => cases hrun

/-- In a branch that is never taken a declaration goes with it, also if the name is used elsewhere. -/
theorem transform_drops_var : Turns "if (false) { var x; } x = 1;" "x = 1;" :=
  turns_of_run (exists_of_parse (by decide +kernel))

end Pass.Branch

end PlainScript
