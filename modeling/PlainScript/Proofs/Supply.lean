import PlainScript.Proofs.Formed
import PlainScript.Proofs.Printability

/-! What is well formed can be printed. A printer needs something in certain slots of a node, printed in certain ways;
a well-formed node supplies it, since each of its slots holds nodes of the kinds that are printed there. Only for an
operator without an operand a script may leave the printer without what it needs. -/
namespace PlainScript

open Print

namespace Way

/-- The kinds of nodes that are printed in a way. -/
def takes : Way → Kind → Bool
  | script => (· == .program)
  | statement | nested | labeled => Kind.isStatement
  | expression | chain _ => Kind.isExpression
  | block => (· == .blockStatement)
  | declaration => (· == .variableDeclaration)
  | declarator => (· == .variableDeclarator)
  | head => Kind.isLoopHead
  | clause => (· == .switchCase)
  | member => (· == .property)
  | method => (· == .functionExpression)
  | arrowBody => Kind.isArrowBody
  | name => (· == .identifier)

end Way

variable {α : Type} (kindOf : α → Option Kind)

/-- A slot holds what is needed of it. -/
def Need.admits : Need → Slot α → Bool
  | required w, .one c => Payload.holds kindOf w.takes c
  | required w, .many cs => Payload.listHolds kindOf w.takes cs
  | optional w, .one c => Payload.mayHold kindOf w.takes c
  | optional w, .many cs => cs.all (Payload.mayHold kindOf w.takes)
  | unused, _ => true

/-- The slots hold what is needed of them, one after the other. -/
def Admit : List Need → List (Role × Slot α) → Prop
  | need :: needs, entry :: slots => need.admits kindOf entry.2 = true ∧ Admit needs slots
  | _, _ => True

/-- Everything is there that is needed to print the node in a way. -/
def Payload.Supplies (w : Way) (p : Payload α) : Prop :=
  ∃ needs, w.needs p = some needs ∧ Admit kindOf needs p.slots

namespace Payload

variable {kindOf} {p : Payload α}

/-- Every operator but `yield` has its operand. -/
def hasOperand : Payload α → Bool
  | unaryExpression op argument => argument.isSome || op == "yield"
  | _ => true

lemma supplies_statement (h : p.isFormed kindOf = true) (hkind : p.kind.isStatement = true) :
    p.Supplies kindOf .statement := by
  cases p <;> try cases hkind
  case variableDeclaration keyword declarations =>
    obtain ⟨hne, hdeclarators⟩ := Bool.and_eq_true_iff.mp h
    exact ⟨_, if_neg (by simpa using hne), hdeclarators, trivial⟩
  case tryStatement tried param handler finalizer =>
    simp only [isFormed, Bool.and_eq_true] at h
    obtain ⟨⟨⟨⟨htried, hparam⟩, hhandler⟩, hfinalizer⟩, hsome⟩ := h
    have hneed : ¬ (handler.isNone && finalizer.isNone) = true := by
      cases handler <;> cases finalizer <;> simp_all
    refine ⟨_, if_neg hneed, htried, ?_, hhandler, hfinalizer, trivial⟩
    split
    · exact hparam
    · rfl
  all_goals try simp only [isFormed, Bool.and_eq_true] at h
  all_goals first
    | exact ⟨_, rfl, trivial⟩
    | exact ⟨_, rfl, h, trivial⟩
    | exact ⟨_, rfl, h.1, h.2, trivial⟩
    | exact ⟨_, rfl, h.2, h.1, trivial⟩
    | exact ⟨_, rfl, h.1.1, h.1.2, h.2, trivial⟩
    | exact ⟨_, rfl, h.1.1.1, h.1.1.2, h.1.2, h.2, trivial⟩

lemma holds_imp {want want' : Kind → Bool} {slot : Option α} (h : holds kindOf want slot = true)
    (hwant : ∀ k, want k = true → want' k = true) : holds kindOf want' slot = true := by
  obtain ⟨k, hk, hkind⟩ := (Option.any_eq_true _ _).mp h
  exact (Option.any_eq_true _ _).mpr ⟨k, hk, hwant k hkind⟩

lemma supplies_expression (h : p.isFormed kindOf = true) (hoperand : p.hasOperand = true)
    (hkind : p.kind.isExpression = true) : p.Supplies kindOf .expression := by
  cases p <;> try cases hkind
  case unaryExpression op argument =>
    cases argument with
    | none =>
      obtain rfl : op = "yield" := by simpa [hasOperand] using hoperand
      exact ⟨[.unused], rfl, rfl, trivial⟩
    | some x =>
      have hx : holds kindOf Kind.isExpression (some x) = true := by simpa [isFormed] using h
      exact ⟨_, if_neg (by simp), hx, trivial⟩
  case binaryExpression op left right =>
    simp only [isFormed, Bool.and_eq_true, bne_iff_ne] at h
    obtain ⟨⟨hlevel, hleft⟩, hright⟩ := h
    refine ⟨_, if_neg hlevel, ?_, hright, trivial⟩
    split <;> exact hleft
  case memberExpression object key computed optional =>
    simp only [isFormed, Bool.and_eq_true, Bool.or_eq_true] at h
    obtain ⟨⟨hobject, hkey⟩, hname⟩ := h
    refine ⟨_, rfl, hobject, ?_, trivial⟩
    split
    · exact hkey
    next hplain => exact hname.resolve_left hplain
  case taggedTemplateExpression tag quasi =>
    obtain ⟨htag, hquasi⟩ := Bool.and_eq_true_iff.mp h
    exact ⟨_, rfl, htag, holds_imp hquasi fun k hk => by rw [eq_of_beq hk]; rfl, trivial⟩
  case sequenceExpression expressions =>
    obtain ⟨hne, hexpressions⟩ := Bool.and_eq_true_iff.mp h
    exact ⟨_, if_neg (by simpa using hne), hexpressions, trivial⟩
  all_goals try simp only [isFormed, Bool.and_eq_true] at h
  all_goals first
    | exact ⟨_, rfl, trivial⟩
    | exact ⟨_, rfl, h, trivial⟩
    | exact ⟨_, rfl, h.1, h.2, trivial⟩
    | exact ⟨_, rfl, h.1.1, h.1.2, h.2, trivial⟩

/-- What is well formed has everything that it needs to be printed in a way that takes it. -/
theorem supplies_of_takes {node : Node α} (h : node.payload.isFormed kindOf = true)
    (hoperand : node.payload.hasOperand = true) {w : Way} (hw : w.takes node.payload.kind = true)
    (hway : w.resolve node = none) : node.payload.Supplies kindOf w := by
  obtain ⟨p, position, leading, trailing⟩ := node
  dsimp only at *
  cases w with
  | statement => exact supplies_statement h hw
  | expression => exact supplies_expression h hoperand hw
  | nested | labeled | head | arrowBody => cases hway
  | chain opLevel =>
    cases p <;> try cases hway
    case binaryExpression op left right =>
      simp only [isFormed, Bool.and_eq_true] at h
      by_cases hlink : (op != "**" && operatorLevel op == opLevel) = true
      · exact ⟨_, if_pos hlink, h.1.2, h.2, trivial⟩
      · simp [Way.resolve, Way.needs, hlink] at hway
  | declaration =>
    cases p <;> try cases hw
    next keyword declarations =>
      obtain ⟨hne, hdeclarators⟩ := Bool.and_eq_true_iff.mp h
      exact ⟨_, if_neg (by simpa using hne), hdeclarators, trivial⟩
  | member =>
    cases p <;> try cases hw
    next key value kind computed shorthand isStatic =>
      cases kind with
      | spread => exact ⟨_, rfl, rfl, (Bool.and_eq_true_iff.mp h).2, trivial⟩
      | init =>
        obtain ⟨hkey, hvalue⟩ := Bool.and_eq_true_iff.mp h
        refine ⟨_, rfl, ?_, hvalue, trivial⟩
        split
        · rfl
        · exact hkey
      | field | get | set | method =>
        obtain ⟨hkey, hvalue⟩ := Bool.and_eq_true_iff.mp h
        exact ⟨_, rfl, hkey, hvalue, trivial⟩
  | script | block | name =>
    cases p <;> try cases hw
    first
      | exact ⟨_, rfl, h, trivial⟩
      | exact ⟨_, rfl, trivial⟩
  | declarator | clause | method =>
    cases p <;> try cases hw
    obtain ⟨hfirst, hsecond⟩ := Bool.and_eq_true_iff.mp h
    exact ⟨_, rfl, hfirst, hsecond, trivial⟩

end Payload

/-- What is in a slot is related to what is in a slot of the same form. -/
lemma Slot.Rel.exists_entry {β : Type} {R : α → β → Prop} {s : Slot α} {t : Slot β} (h : s.Rel R t)
    {d : Option β} (hd : d ∈ t.entries) : ∃ c ∈ s.entries, Option.Rel R c d := by
  cases h with
  | one h => exact ⟨_, List.mem_singleton_self _, List.mem_singleton.mp hd ▸ h⟩
  | many h => exact exists_of_forall₂ h hd

namespace Way

variable {kindOf} {p : Payload α}

lemma holds_of_admits {need : Need} {slot : Slot α} (h : need.admits kindOf slot = true) {v : Way} {c : Option α}
    (hc : (v, c) ∈ need.parts slot) : Payload.holds kindOf v.takes c = true := by
  obtain ⟨hentry, rfl | ⟨rfl, hne⟩⟩ := Need.mem_parts.mp hc
  · cases slot with
    | one d => exact (List.mem_singleton.mp hentry) ▸ h
    | many cs => exact List.all_eq_true.mp h c hentry
  · have hmay : Payload.mayHold kindOf v.takes c = true := by
      cases slot with
      | one d => exact (List.mem_singleton.mp hentry) ▸ h
      | many cs => exact List.all_eq_true.mp h c hentry
    obtain ⟨x, rfl⟩ := Option.ne_none_iff_exists'.mp hne
    exact hmay

lemma admits_of_getElem {needs : List Need} {slots : List (Role × Slot α)} (h : Admit kindOf needs slots) {i : Nat}
    {need : Need} {entry : Role × Slot α} (hneed : needs[i]? = some need) (hentry : slots[i]? = some entry) :
    need.admits kindOf entry.2 = true := by
  induction needs generalizing slots i with
  | nil => simp at hneed
  | cons first needs ih =>
    cases slots with
    | nil => simp at hentry
    | cons slot slots =>
      cases i with
      | zero =>
        obtain rfl : first = need := by simpa using hneed
        obtain rfl : slot = entry := by simpa using hentry
        exact h.1
      | succ i => exact ih h.2 (by simpa using hneed) (by simpa using hentry)

lemma needs_outline (w : Way) (p : Payload α) : w.needs p.outline = w.needs p := by
  cases p <;> cases w <;> first
    | rfl
    | simp [needs, statementNeeds, expressionNeeds, declarationNeeds, Payload.outline, Payload.traverse, Slot.mark]

variable {β : Type} {R : α → β → Prop} {w : Way} {q : Payload β}

/-- A node with the same outline is printed of related children. -/
lemma parts_sameSlots (houtline : q.outline = p.outline) (hslots : SameSlots R p.slots q.slots)
    {ps : List (Way × Option α)} (hps : w.parts p = some ps) :
    ∃ qs, w.parts q = some qs ∧ ∀ v d, (v, d) ∈ qs → ∃ c, (v, c) ∈ ps ∧ Option.Rel R c d := by
  obtain ⟨ns, hneeds⟩ := exists_needs hps
  have hneeds' : w.needs q = some ns := by rw [← needs_outline, houtline, needs_outline, hneeds]
  obtain ⟨qs, hqs⟩ : ∃ qs, w.parts q = some qs := ⟨_, by rw [parts, hneeds', Option.map_some]⟩
  refine ⟨qs, hqs, fun v d hd => ?_⟩
  obtain ⟨i, need, role, slot, hneed, hslot, hpart⟩ := (mem_parts hneeds' hqs).mp hd
  obtain ⟨⟨role', slot'⟩, hslot', hrel⟩ := hslots.exists_getElem hslot
  obtain ⟨hentry, hway⟩ := Need.mem_parts.mp hpart
  obtain ⟨c, hc, hcd⟩ := hrel.2.exists_entry hentry
  refine ⟨c, (mem_parts hneeds hps).mpr ⟨i, need, role', slot', hneed, hslot', Need.mem_parts.mpr ⟨hc, ?_⟩⟩, hcd⟩
  refine hway.imp_right fun hoptional => ⟨hoptional.1, fun hnone => hoptional.2 ?_⟩
  subst hnone
  cases hcd
  rfl

/-- What is printed of a node with everything that it needs. -/
lemma exists_parts (h : p.Supplies kindOf w) :
    ∃ ps, w.parts p = some ps ∧ ∀ v c, (v, c) ∈ ps → Payload.holds kindOf v.takes c = true := by
  obtain ⟨ns, hneeds, hadmit⟩ := h
  obtain ⟨ps, hps⟩ : ∃ ps, w.parts p = some ps := ⟨_, by rw [parts, hneeds, Option.map_some]⟩
  refine ⟨ps, hps, fun v c hc => ?_⟩
  obtain ⟨i, need, role, slot, hneed, hslot, hpart⟩ := (mem_parts hneeds hps).mp hc
  exact holds_of_admits (admits_of_getElem hadmit hneed hslot) hpart

end Way

namespace Tree

/-- Every operator in the tree but `yield` has its operand. -/
def hasOperands (t : Tree) : Bool := t.fold fun node => node.payload.hasOperand && node.payload.children.all id

lemma hasOperands_mk (node : Node Tree) :
    (mk node).hasOperands = (node.payload.hasOperand && node.payload.children.all hasOperands) := by
  have hfold (f : Node Bool → Bool) (p : Payload Tree) : (foldPayload f p).hasOperand = p.hasOperand := by
    cases p <;> simp [foldPayload, Payload.hasOperand]
  rw [hasOperands, fold_mk]
  dsimp only
  rw [hfold, children_foldPayload, List.all_map]
  rfl

end Tree

namespace Arena

/-- The node is printed in every way that takes it, also when more nodes have come. -/
def Prints (a : Arena) (t : Tree) (id : NodeId) : Prop :=
  t.Formed → t.hasOperands = true → ∀ b, Extends a b → ∀ w, w.takes t.kind = true → Printable b.source t.height w id

/-- Every tree is printed once it is in an arena. -/
theorem plant_prints (t : Tree) : Sows Prints t := by
  refine plant_node_induction
    (fun a b t id hab h hformed hoperands c hbc => h hformed hoperands c (hab.extends.trans hbc)) ?_ t
  intro a node cell id hcell hrel _ hformed hoperands b hab w hw
  have hp : a.payload? id = some cell.payload := by rw [payload?, hcell, Option.map_some]
  obtain ⟨bnode, hnode, hpayload, -⟩ := exists_node (hab id cell.payload hp)
  have hkind : bnode.payload.kind = node.payload.kind := by
    rw [hpayload, hrel.kind_eq]
  rw [Tree.hasOperands_mk, Bool.and_eq_true] at hoperands
  obtain ⟨hoperand, hchildren⟩ := hoperands
  have hbase (w : Way) (hw : w.takes node.payload.kind = true) (hway : w.resolve node = none) :
      Printable b.source (Tree.mk node).height w id := by
    have hnodeFormed : node.payload.isFormed (fun t => some t.kind) = true := by
      obtain ⟨_, h, -⟩ := hformed
      exact h
    obtain ⟨ps, hps, hheld⟩ := Way.exists_parts (Payload.supplies_of_takes hnodeFormed hoperand hw hway)
    obtain ⟨qs, hqs, hrelated⟩ := Way.parts_sameSlots hrel.outline_eq hrel.slots hps
    have hfull : Fulfills (Printable b.source ((Tree.mk node).height - 1)) qs := by
      intro v d hd
      obtain ⟨c, hc, hrel⟩ := hrelated v d hd
      have hheld := hheld v c hc
      cases hrel with
      | none => cases hheld
      | @some c y hy =>
        have hchild : c ∈ node.payload.children := Way.mem_children_of_parts hps hc
        have hprints := hy (hformed.child hchild) (List.all_eq_true.mp hchildren c hchild) b hab v hheld
        have hheight : c.height < (Tree.mk node).height := Tree.height_lt hchild
        exact fills_some.mpr (hprints.mono (by omega))
    have hcost : w.cost ≤ 1 := by cases w <;> simp [Way.cost]
    have hpos := (Tree.mk node).height_pos
    exact (Printable.of_fulfills hnode (hpayload.symm ▸ hqs) hfull).mono (by omega)
  have hresolve {w v : Way} (hway : w.resolve bnode = some v)
      (hv : Printable b.source (Tree.mk node).height v id) : Printable b.source (Tree.mk node).height w id :=
    .resolve hnode hway hv
  have hnested (hstatement : node.payload.kind.isStatement = true) :
      Printable b.source (Tree.mk node).height .nested id := by
    by_cases hblock : node.payload.kind = .blockStatement
    · exact hresolve (by rw [Way.resolve, hkind, if_pos hblock]) (hbase .block (beq_iff_eq.mpr hblock) rfl)
    · exact hresolve (by rw [Way.resolve, hkind, if_neg hblock]) (hbase .statement hstatement rfl)
  cases w with
  | nested => exact hnested hw
  | labeled =>
    by_cases hleading : bnode.leading.isEmpty = true
    · exact hresolve (by rw [Way.resolve, if_pos hleading]) (hbase .statement hw rfl)
    · exact hresolve (by rw [Way.resolve, if_neg hleading]) (hnested hw)
  | head =>
    by_cases hdeclaration : node.payload.kind = .variableDeclaration
    · exact hresolve (by rw [Way.resolve, hkind, if_pos hdeclaration])
        (hbase .declaration (beq_iff_eq.mpr hdeclaration) rfl)
    · have hexpression : node.payload.kind.isExpression = true :=
        ((Bool.or_eq_true _ _).mp hw).resolve_right fun h => hdeclaration (eq_of_beq h)
      exact hresolve (by rw [Way.resolve, hkind, if_neg hdeclaration]) (hbase .expression hexpression rfl)
  | arrowBody =>
    by_cases hblock : node.payload.kind = .blockStatement
    · exact hresolve (by rw [Way.resolve, hkind, if_pos hblock]) (hbase .block (beq_iff_eq.mpr hblock) rfl)
    · have hexpression : node.payload.kind.isExpression = true :=
        ((Bool.or_eq_true _ _).mp hw).resolve_right fun h => hblock (eq_of_beq h)
      exact hresolve (by rw [Way.resolve, hkind, if_neg hblock]) (hbase .expression hexpression rfl)
  | chain opLevel => exact (hbase .expression hw rfl).chain opLevel
  | _ => exact hbase _ hw rfl

end Arena

/-! ### Scripts -/

/-- A script that was read has a text, in the room of as many levels as there are nodes on a way down its tree, if every
operator in it but `yield` has its operand. -/
theorem parse_prints {source : Text} {options : ParseOptions} {script : Script}
    (hparse : parse source options = .ok script) (hoperands : script.tree.hasOperands = true)
    {printing : PrintOptions} (hdepth : script.tree.height ≤ printing.maxDepth) :
    ∃ code, (Arena.ofTree script.tree).print (Arena.ofTree script.tree).root printing = .ok code := by
  have hprogram := parse_is_program hparse
  obtain ⟨root, hstanding⟩ := Arena.ofTree_standing hprogram
  have hroot : ((Arena.plant script.tree).run {}).1 = root := Option.some.inj hstanding.root_eq
  have hprints :=
    (Arena.plant_prints script.tree {}).2.1 hprogram.1 hoperands _ (Arena.Extends.refl _) .script hprogram.2
  rw [hroot] at hprints
  exact isOk_iff.mp (hstanding.isOk_print.mpr (hprints.mono (by omega)))

/-- A generator that hands over to another one. -/
def delegation : Text := "function* g() { yield* f(); yield; }"

theorem parse_prints_delegation : ∃ script code, parse delegation {} = .ok script ∧
    script.tree.hasOperands = true ∧ (script.tree.height : Int) ≤ 1024 ∧
    (Arena.ofTree script.tree).print (Arena.ofTree script.tree).root {} = .ok code := by
  have hread : ∃ script, parse delegation {} = .ok script ∧
      script.tree.hasOperands = true ∧ (script.tree.height : Int) ≤ 1024 := exists_of_parse (by decide +kernel)
  obtain ⟨script, hparse, hoperands, hheight⟩ := hread
  obtain ⟨code, hcode⟩ := parse_prints hparse hoperands hheight
  exact ⟨script, code, hparse, hoperands, hheight, hcode⟩

/-- The operand of `yield*` is on the next line. -/
def brokenDelegation : Text := "function* g() \x7b yield*\n  a; \x7d"

/-- Behind a line feed the operand of `yield*` is not read, and then there is nothing to print. -/
theorem parse_prints_not_yield : ∃ script, parse brokenDelegation {} = .ok script ∧
    (Arena.ofTree script.tree).print (Arena.ofTree script.tree).root {} = .error (.noOperand "yield*") :=
  exists_of_parse (by decide +kernel)

end PlainScript
