import PlainScript.Proofs.PrintKeeping
import PlainScript.Proofs.PrintSuccess
import PlainScript.Proofs.Reports

/-! A script that has a text keeps one. Each step of a pass leaves behind what is printed in the room that there
was before, and so a run succeeds if the script that it begins with can be printed. -/
namespace PlainScript

open Relation Arena

variable {α : Type}

/-! ### Literals and names -/

namespace Way

/-- What may give way to a literal or a name has parts only as an expression. -/
lemma needs_of_withering {p : Payload α} (hp : p.kind ∈ withering) {w : Way} (hw : w ≠ .expression)
    (hchain : ∀ opLevel, w ≠ .chain opLevel) : w.needs p = none := by
  cases p <;> try simp [withering, Payload.kind] at hp
  all_goals cases w <;> first | rfl | exact absurd rfl hw | exact absurd rfl (hchain _)

/-- A literal and a name have no parts. -/
lemma parts_of_withered {p : Payload α} (hp : p.kind ∈ withered) : expression.parts p = some [] := by
  cases p <;> try simp [withered, Payload.kind] at hp
  all_goals rfl

lemma needs_chain_of_withered {p : Payload α} (hp : p.kind ∈ withered) (opLevel : Nat) :
    (chain opLevel).needs p = none := by
  cases p <;> try simp [withered, Payload.kind] at hp
  all_goals rfl

/-- A run of operators goes on to the left. -/
lemma exists_left {p : Payload α} {opLevel : Nat} {ps : List (Way × Option α)} (h : (chain opLevel).parts p = some ps) :
    ∃ left, (chain opLevel, left) ∈ ps := by
  cases p with
  | binaryExpression op left right =>
    rw [parts, needs] at h
    split at h
    · obtain rfl := Option.some.inj h
      exact ⟨left, List.mem_cons_self⟩
    · cases h
  | _ => cases h

end Way

namespace Printable

variable {source source' : NodeSource α} {n : Nat} {w : Way} {x : α} {node node' : Node α}

/-- A run of operators begins with an expression, which takes room. -/
lemma room_pos (h : Printable source n w x) (hw : w = .expression ∨ ∃ opLevel, w = .chain opLevel) : 0 < n := by
  induction h with
  | @parts k room w x node ps hnode hroom hparts hfull h ih =>
    obtain rfl | ⟨opLevel, rfl⟩ := hw
    · exact hroom ▸ Nat.succ_pos k
    · obtain ⟨left, hleft⟩ := Way.exists_left hparts
      cases left with
      | none => exact absurd hleft (hfull _)
      | some y => exact hroom ▸ ih _ y hleft (.inr ⟨opLevel, rfl⟩)
  | @resolve k w w' x node hnode hway h ih =>
    obtain rfl | ⟨opLevel, rfl⟩ := hw
    · cases hway
    · rw [Way.resolve] at hway
      split_ifs at hway
      exact ih (.inl (Option.some.inj hway).symm)

/-- A literal or a name is printed wherever the expression was whose place it has taken. -/
lemma of_withered (hnode : source.node? x = some node) (hkind : node.payload.kind ∈ withering)
    (hnode' : source'.node? x = some node') (hkind' : node'.payload.kind ∈ withered) (h : Printable source n w x) :
    Printable source' n w x := by
  have hnot {v : Way} (hv : v.resolve node = none) (hexpression : v ≠ .expression)
      (hchain : ∀ opLevel, v ≠ .chain opLevel) : ¬ Printable source n v x :=
    not_of_none hnode hv (by rw [Way.parts, Way.needs_of_withering hkind hexpression hchain, Option.map_none])
  have hleaf (hpos : 0 < n) : Printable source' n .expression x := by
    obtain ⟨m, rfl⟩ := Nat.exists_eq_add_of_le' hpos
    exact (iff_expression hnode' [] (Way.parts_of_withered hkind')).mpr fulfills_nil
  have hblock : ∀ k ∈ withering ++ withered, k ≠ .blockStatement ∧ k ≠ .variableDeclaration := by decide
  obtain ⟨hne, hne'⟩ := hblock _ (List.mem_append_left _ hkind)
  obtain ⟨hnewBlock, hnewDeclaration⟩ := hblock _ (List.mem_append_right _ hkind')
  have hstatement : ¬ Printable source n .nested x := fun h =>
    hnot (v := .statement) rfl (by simp) (by simp) ((nested_iff_statement hnode hne).mp h)
  cases w with
  | expression => exact hleaf (h.room_pos (.inl rfl))
  | chain opLevel =>
    refine .resolve hnode' ?_ (hleaf (h.room_pos (.inr ⟨opLevel, rfl⟩)))
    rw [Way.resolve, Way.needs_chain_of_withered hkind']
    rfl
  | head =>
    have h := (iff_resolve hnode .expression (by rw [Way.resolve, if_neg hne'])).mp h
    exact .resolve hnode' (by rw [Way.resolve, if_neg hnewDeclaration]) (hleaf (h.room_pos (.inl rfl)))
  | arrowBody =>
    have h := (iff_resolve hnode .expression (by rw [Way.resolve, if_neg hne])).mp h
    exact .resolve hnode' (by rw [Way.resolve, if_neg hnewBlock]) (hleaf (h.room_pos (.inl rfl)))
  | nested => exact absurd h hstatement
  | labeled =>
    by_cases hleading : node.leading.isEmpty = true
    · exact absurd ((iff_resolve hnode .statement (by rw [Way.resolve, if_pos hleading])).mp h)
        (hnot rfl (by simp) (by simp))
    · exact absurd ((iff_resolve hnode .nested (by rw [Way.resolve, if_neg hleading])).mp h) hstatement
  | _ => exact absurd h (hnot rfl (by simp) (by simp))

end Printable

/-! ### Steps -/

namespace Arena

variable {a b : Arena} {root target x : NodeId} {n : Nat} {w : Way}

/-- A literal or a name for an expression leaves everything as it was printed. -/
lemma Withers.printable (h : Withers root a b) (hprints : Printable a.source n w x) : Printable b.source n w x := by
  obtain ⟨k, target, q, leaf, -, hq, -, hgives, h⟩ := h
  obtain ⟨hkind, hleaf⟩ := hgives.kind_mem
  have htarget (w : Way) (m : Nat) (hprints : Printable a.source m w target) : Printable b.source m w target := by
    obtain ⟨node, hnode, rfl, -⟩ := exists_node hq
    obtain ⟨node', hnode', rfl, -⟩ := exists_node h.payload?_target
    exact hprints.of_withered hnode hkind hnode' hleaf
  by_cases hx : x = target
  · exact hx ▸ htarget w n (hx ▸ hprints)
  refine hprints.continues target [target] (· ≠ target) ?_ (fun _ _ _ _ _ _ hne => hne)
    (fun m _ w hprints y hy => List.mem_singleton.mp hy ▸ htarget w m hprints) (Nat.le_refl n) hx
  rintro x node hx hnode -
  obtain ⟨hpayload, hleading⟩ := payload?_of_node hnode
  obtain ⟨node', hnode', hpayload', hleading'⟩ := exists_node ((h.payload?_of_ne hx).trans hpayload)
  refine ⟨node', hnode', ?_, by rw [hpayload'], fun w => by rw [hpayload'], fun w ps hps => ?_⟩
  · rw [hleading, hleading']
    exact h.kept.leading_suffix x (Nat.ne_of_lt (lt_size_of_payload? hpayload))
  · refine ⟨ps, hpayload'.symm ▸ hps, fun v c hc => ?_⟩
    by_cases hne : c = some target
    · exact .inr ⟨target, List.mem_singleton_self target, hne, hne ▸ hc⟩
    · exact .inl ⟨hc, hne⟩

/-- An empty statement is printed in any room for a statement. -/
lemma printable_empty (h : a.payload? x = some .emptyStatement) : Printable a.source (n + 1) .statement x := by
  obtain ⟨node, hnode, hp, -⟩ := exists_node h
  exact (Printable.iff_statement hnode [] (by rw [hp]; rfl)).mpr fulfills_nil

section Branches

variable {place : Payload.Place} {moved new : List NodeId}

/-- The branch of an `if` is printed as a body. -/
lemma Takes.printable {k : NodeId} (h : a.Takes target (some k))
    (hprints : Printable a.source (n + 1) .statement target) : Printable a.source n .nested k := by
  obtain ⟨test, consequent, alternate, v, hpayload, -, hk⟩ := h
  obtain ⟨node, hnode, hp, -⟩ := exists_node hpayload
  rw [Printable.iff_statement hnode [[(.expression, test)], [(.nested, consequent)],
    alternate.toList.map fun c => (Way.nested, some c)].flatten (by rw [hp]; rfl)] at hprints
  cases v with
  | true =>
    obtain rfl : consequent = some k := hk.symm
    simpa using (fulfills_cons.mp (fulfills_cons.mp hprints).2).1
  | false =>
    obtain rfl : alternate = some k := hk.symm
    simpa using (fulfills_cons.mp (fulfills_cons.mp hprints).2).2

lemma Comes.printable (h : Comes a target place b moved new)
    (hmoved : ∀ w, ∀ r ∈ moved, Printable a.source n w r → Printable b.source n w r)
    (hprints : Printable a.source (n + 1) .statement target) : ∀ y ∈ new, Printable b.source (n + 1) .statement y := by
  cases h with
  | nothing h hnew =>
    obtain ⟨-, rfl⟩ | ⟨rfl, hempty⟩ := hnew
    · exact nofun
    · exact fun y hy => List.mem_singleton.mp hy ▸ printable_empty hempty
  | @branch k h =>
    exact fun y hy => List.mem_singleton.mp hy ▸ (hmoved _ k (List.mem_singleton_self k) (h.printable hprints)).of_nested
  | @statements k body h hbody hi =>
    intro y hy
    obtain ⟨node, hnode, hp, -⟩ := exists_node hbody
    have hbody := (Printable.iff_nested_block hnode hp).mp (h.printable hprints)
    have hstatement := fills_some.mp (hbody (some y) (by simpa using hy))
    exact (hmoved _ y hy hstatement).mono (Nat.le_succ n)

/-- Something comes to where a statement has to be. -/
lemma Comes.filled (h : Comes a target place b moved new) (hindex : place.index = none) (hnew : new = []) :
    place.role ≠ .statement := by
  cases h with
  | nothing h h' =>
    obtain ⟨hrole, -⟩ | ⟨rfl, -⟩ := h'
    · exact hrole
    · cases hnew
  | branch => cases hnew
  | statements h hbody hi => simp [hindex] at hi

lemma Branches.printable (h : Branches root a b) (hroot : root < a.size)
    (hprints : Printable a.source n w root) : Printable b.source n w root := by
  obtain ⟨target, p, payload, place, moved, new, hexchange, hplace, hcomes⟩ := h
  refine hexchange.prints_after hcomes.kind?_eq rfl hplace.1 hcomes.filled (fun n hmoved => hcomes.printable hmoved)
    hroot hexchange.root_not_stays hprints

end Branches

/-- The statements in a flattened loop are printed with less room than it. -/
lemma Flattened.printable {loop dispatch block : NodeId} (h : a.Flattened loop dispatch block)
    (hprints : Printable a.source (n + 1) .statement loop) (hx : x ∈ a.mergedCases dispatch) :
    Printable a.source n .statement x := by
  obtain ⟨c, hc, hx⟩ := List.mem_flatMap.mp hx
  obtain ⟨test, consequent, hcase, hx⟩ := mem_caseStatements hx
  have hblock : Printable a.source n .nested block := by
    obtain ⟨test, hp⟩ | ⟨init, test, update, hp⟩ := h.loop_eq
    · obtain ⟨node, hnode, hp, -⟩ := exists_node hp
      rw [Printable.iff_statement hnode [[(.expression, test)], [(.nested, some block)]].flatten (by rw [hp]; rfl)]
        at hprints
      simp_all
    · obtain ⟨node, hnode, hp, -⟩ := exists_node hp
      rw [Printable.iff_statement hnode [init.toList.map fun c => (Way.head, some c),
        test.toList.map fun c => (Way.expression, some c), update.toList.map fun c => (Way.expression, some c),
        [(.nested, some block)]].flatten (by rw [hp]; rfl)] at hprints
      simp_all
  obtain ⟨rest, hp⟩ := h.block_eq
  obtain ⟨node, hnode, hp, -⟩ := exists_node hp
  have hdispatch := fills_some.mp ((Printable.iff_nested_block hnode hp).mp hblock (some dispatch) List.mem_cons_self)
  obtain ⟨m, rfl⟩ := hdispatch.exists_room_statement
  obtain ⟨discriminant, cases, hp⟩ := h.dispatch_eq
  have hclauses : Fills (Printable a.source m) .expression discriminant ∧
      ∀ c ∈ cases, Fills (Printable a.source m) .clause c := by
    obtain ⟨node, hnode, hp, -⟩ := exists_node hp
    rw [Printable.iff_statement hnode [[(.expression, discriminant)], cases.map fun c => (Way.clause, c)].flatten
      (by rw [hp]; rfl)] at hdispatch
    simpa using hdispatch
  have hclause : Printable a.source m .clause c :=
    fills_some.mp (hclauses.2 (some c) (by simpa [Arena.cases, hp] using hc))
  obtain ⟨node, hnode, hp, -⟩ := exists_node hcase
  rw [Printable.iff_parts hnode rfl [test.toList.map fun c => (Way.expression, some c),
    consequent.map fun c => (Way.statement, c)].flatten (by rw [hp]; rfl)] at hclause
  have hstatements : ∀ c ∈ consequent, Fills (Printable a.source m) .statement c := by simp_all
  exact (fills_some.mp (hstatements (some x) hx)).mono (Nat.le_succ m)

lemma Merges.printable (h : Merges root a b) (hstanding : a.Standing root)
    (hprints : Printable a.source n w root) : Printable b.source n w root := by
  obtain ⟨loop, dispatch, block, p, payload, place, new, hflat, hexchange, -, hnew, -⟩ := h
  obtain ⟨k, hk, hloop⟩ := hflat.loop_kind
  have hplain := Kind.isPlainStatement_of_isLoop hloop
  refine hexchange.prints_after hk hplain (hstanding.takesStatement hk hplain hexchange.toAt).1 ?_ ?_
    hstanding.root_lt hexchange.root_not_stays hprints
  · rintro hindex rfl
    obtain ⟨-, hi⟩ | ⟨hnil, -⟩ := hnew
    · simp [hindex] at hi
    · cases hnil
  · intro n hmoved hloop
    have hstatement (y : NodeId) (hy : y ∈ a.mergedCases dispatch) : Printable b.source n .statement y :=
      hmoved _ y hy (hflat.printable hloop hy)
    obtain ⟨rfl, -⟩ | ⟨rfl, hblock⟩ := hnew
    · exact fun y hy => (hstatement y hy).mono (Nat.le_succ n)
    · obtain ⟨node, hnode, hp, -⟩ := exists_node hblock
      refine fun y hy => List.mem_singleton.mp hy ▸ (Printable.iff_statement_block hnode hp).mpr ?_
      simpa using hstatement

lemma Removes.printable (h : Removes root a b) (hroot : root < a.size)
    (hprints : Printable a.source n w root) : Printable b.source n w root := by
  obtain ⟨target, -, p, payload, place, new, hexchange, hplace, ⟨k, hk, hplain⟩, hnew⟩ := h
  refine hexchange.prints_after hk hplain hplace.1 ?_ ?_ hroot hexchange.root_not_stays hprints
  · rintro - rfl
    obtain ⟨hrole, -⟩ | ⟨-, hnil, -⟩ := hnew
    · exact hrole
    · cases hnil
  · intro n _ _ y hy
    obtain ⟨-, rfl⟩ | ⟨-, rfl, hempty⟩ := hnew
    · cases hy
    · exact List.mem_singleton.mp hy ▸ printable_empty hempty

/-- A step of a pass leaves a script behind that is printed where the script before it was. -/
theorem Rewrites.printable (h : Rewrites root a b) (hstanding : a.Standing root)
    (hprints : Printable a.source n w root) : Printable b.source n w root := by
  cases h with
  | branch h => exact h.printable hstanding.root_lt hprints
  | merge h => exact h.printable hstanding hprints
  | removal h => exact h.printable hstanding.root_lt hprints
  | leaf h => exact h.printable hprints

/-- However many steps the passes take, the script is printed in the room in which it was printed. -/
theorem Rewrites.printable_steps {k : Nat} (h : InSteps (Rewrites root) k a b) (hstanding : a.Standing root)
    (hprints : Printable a.source n w root) : b.Standing root ∧ Printable b.source n w root := by
  induction h with
  | zero => exact ⟨hstanding, hprints⟩
  | succ _ hstep ih =>
    obtain ⟨hstanding, hprints⟩ := ih hstanding hprints
    exact ⟨hstep.standing hstanding, hstep.printable hstanding hprints⟩

/-- A way down a tree has no more nodes than there are. -/
lemma Firm.isBounded (h : Firm a.parentOf a.childIds) : a.source.IsBounded := by
  intro way hway hnodes
  have hparent : way.IsChain (TransGen a.HasParent) := hway.imp fun x y ⟨node, hnode, hchild⟩ =>
    .single (h.mem_iff.mp (childIds_eq (payload?_of_node hnode).1 ▸ hchild))
  refine h.length_le (fun _ _ => .inl) (List.isChain_iff_pairwise.mp hparent) fun x hx => ?_
  obtain ⟨node, hnode⟩ := hnodes x hx
  exact lt_size_of_payload? (payload?_of_node hnode).1

/-- A script has a text if it can be printed in the room that the options leave. -/
lemma Scripted.isOk_print (h : a.Scripted root) {options : PrintOptions} :
    (a.print a.root options).isOk = true ↔ Printable a.source options.maxDepth.toNat .script root := by
  obtain ⟨p, hp, hkind⟩ := exists_payload h.isProgram
  obtain ⟨node, hnode, rfl, -⟩ := exists_node hp
  cases hbody : node.payload with
  | program body =>
    rw [h.root_eq]
    exact isOk_print_program h.firm.isBounded hnode hbody
  | _ => cases hbody ▸ hkind

end Arena

/-! ### Runs -/

namespace Deobfuscation

lemma reportRecovered_eq (d : Deobfuscation) (diagnostics : List ParseError) :
    (d.reportRecovered diagnostics).code = d.code ∧ (d.reportRecovered diagnostics).success = d.success ∧
      (d.reportRecovered diagnostics).confidence = d.confidence :=
  List.foldlRecOn (motive := fun d' : Deobfuscation => d'.code = d.code ∧ d'.success = d.success ∧
    d'.confidence = d.confidence) diagnostics _ ⟨rfl, rfl, rfl⟩ fun _ h _ _ => h

end Deobfuscation

/-- A script that can be printed before the passes change it is printed after them. -/
lemma deobfuscate_succeeds {source : Text} {config : Config} {script : Script} (options : PassOptions)
    (hparse : parse source config.parsing = .ok script)
    (hprinted : ((script.start config).arena.print (script.start config).arena.root config.printing).isOk = true) :
    (deobfuscate source options config).success = true := by
  obtain ⟨root, hstanding⟩ := ofTree_standing (parse_is_program hparse)
  have horder : (pipeline options).order.Nodup := by rw [Pipeline.order_eq]; decide
  have hrun := Pipeline.run_eq (p := pipeline options) (by rw [Pipeline.order_eq]; exact List.cons_ne_nil _ _)
    (script.start config)
  have hran := (Pipeline.isFresh_pipeline options).afterTurns_ran (script.start config) hstanding rfl horder
  generalize (pipeline options).afterTurns (script.start config) (pipeline options).order = last at hrun hran
  obtain ⟨q, run⟩ := last
  obtain ⟨n, hsteps⟩ := hran.steps
  obtain ⟨hlast, hprints⟩ := Rewrites.printable_steps hsteps hstanding (hstanding.isOk_print.mp hprinted)
  obtain ⟨code, hcode⟩ := isOk_iff.mp (hlast.isOk_print.mpr hprints)
  rw [deobfuscate_eq hparse hrun, hcode]
  rfl

/-- A script that can be printed before the passes change it is printed after them, whichever are switched on. Where a
run has no success, its text is the one that it was given, and there is no confidence in it. -/
theorem deobfuscate_keeps_printing (source : Text) (options : PassOptions) (config : Config) :
    (∀ script, parse source config.parsing = .ok script →
      ((script.start config).arena.print (script.start config).arena.root config.printing).isOk = true →
        (deobfuscate source options config).success = true) ∧
      ((deobfuscate source options config).success = false →
        (deobfuscate source options config).code = source ∧ (deobfuscate source options config).confidence = 0.0) := by
  refine ⟨fun script => deobfuscate_succeeds options, ?_⟩
  unfold deobfuscate
  cases parse source config.parsing with
  | error e => exact fun _ => ⟨rfl, rfl⟩
  | ok script =>
    dsimp only
    generalize (pipeline options).run _ = last
    cases last.2.arena.print last.2.arena.root config.printing with
    | error e =>
      obtain ⟨hcode, -, hconfidence⟩ := Deobfuscation.reportRecovered_eq { code := source } script.diagnostics
      exact fun _ => ⟨hcode, hconfidence⟩
    | ok code => exact nofun

/-- A branch that is taken, with a sum in it. -/
def takenSum : Text := "if (true) { f(1 + 2); }"

theorem deobfuscate_keeps_printing_takenSum :
    (∃ script, parse takenSum {} = .ok script ∧
      ((script.start {}).arena.print (script.start {}).arena.root {}).isOk = true ∧
        (deobfuscate takenSum {} {}).success = true) ∧
      (deobfuscate takenSum {} { printing := ⟨2⟩ }).success = false ∧
        (deobfuscate takenSum {} { printing := ⟨2⟩ }).code = takenSum ∧
          (deobfuscate takenSum {} { printing := ⟨2⟩ }).confidence = 0.0 := by
  have hread : (parse takenSum {}).toOption.any (fun script =>
      ((script.start {}).arena.print (script.start {}).arena.root {}).isOk) = true := by
    decide +kernel
  have hfailed : (deobfuscate takenSum {} { printing := ⟨2⟩ }).success = false := by decide +kernel
  refine ⟨?_, hfailed, (deobfuscate_keeps_printing takenSum {} { printing := ⟨2⟩ }).2 hfailed⟩
  cases hparse : parse takenSum {} with
  | error e => simp [hparse, Except.toOption] at hread
  | ok script =>
    simp only [hparse, Except.toOption, Option.any_some] at hread
    exact ⟨script, rfl, hread, (deobfuscate_keeps_printing takenSum {} {}).1 script hparse hread⟩

end PlainScript
