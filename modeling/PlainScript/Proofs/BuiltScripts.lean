import PlainScript.Proofs.BuiltStatements
import PlainScript.Proofs.EditRuns

/-! Scripts that are read into an arena. Reading into an arena succeeds exactly where reading a tree does, with the same
diagnostics; the arena bears the tree at its root, and its links are sound, whatever was left behind of faulty
statements. Runs of edits go on from there. -/
namespace PlainScript

open Arena Relation

lemma Arena.stock_empty : Stock {} ([] ++ []) where
  firm := empty_firm
  nodup := List.nodup_nil
  free _ hx := absurd hx List.not_mem_nil
  bears _ hx := absurd hx List.not_mem_nil
  spelled _ hx := absurd hx List.not_mem_nil

lemma Arena.Bears.setRoot {a : Arena} {t : Tree} {id : NodeId} (h : a.Bears t id) (root : Option NodeId) :
    ({ a with root } : Arena).Bears t id :=
  h.keep fun _ c hc => ⟨c, hc, rfl⟩

namespace Building

lemma run_script (rules : NodeRules) (c : Grammar.Context) (s : Grammar.State) (a : Arena) :
    script rules c (s, a) = match program rules c (s, a) with
      | .ok root (s', b) => .ok () (s', { b with root := some root })
      | .error e x' => .error e x' := by
  rw [script, run_bind_builder]
  cases program rules c (s, a) <;> rfl

end Building

/-- A script that is read into an arena is read as a tree, which the arena bears at its root. -/
structure Built.Holds (built : Built) (script : Script) : Prop where
  diagnostics_eq : built.diagnostics = script.diagnostics
  root_bears : ∃ root, built.arena.root = some root ∧ built.arena.Bears script.tree root
  linked : built.arena.Linked

open Building in
/-- Reading into an arena and reading as a tree end in the same way. The strings that are read are spelled as what they
denote. -/
theorem build_holds (source : Text) (options : ParseOptions) :
    (∀ script, parse source options = .ok script →
      script.tree.Spelled ∧ ∃ built, build source options = .ok built ∧ built.Holds script) ∧
      ∀ e, parse source options = .error e → build source options = .error (.parse e) := by
  unfold parse build
  cases htokens : tokenize source with
  | error e => exact ⟨nofun, fun _ h => by cases h; rfl⟩
  | ok tokens =>
    dsimp only [Except.mapError, bind, Except.bind]
    cases Grammar.bracketFault? [] tokens with
    | some e => exact ⟨nofun, fun _ h => by cases h; rfl⟩
    | none =>
      have hroot := follows_program (rulesFollow_rulesUpTo options.maxDepth.toNat)
        { source, recover := options.recover, maxRecoveredErrors := options.maxRecoveredErrors }
        { current := tokens.headD {}, later := tokens.tail, pending := (tokens.headD {}).comments } {} []
        (Grammar.spelled_of_tokenize htokens) stock_empty
      dsimp only [ReaderT.run]
      rw [run_script]
      revert hroot
      cases Grammar.script _ _ _ with
      | error e s =>
        rintro ⟨a, hbuild, -⟩
        rw [hbuild]
        exact ⟨nofun, fun _ h => by cases h; rfl⟩
      | ok tree s =>
        rintro ⟨root, a, _, hbuild, rfl, -, hstock⟩
        rw [hbuild]
        refine ⟨fun _ h => ?_, nofun⟩
        cases h
        have hbears := hstock.bears (tree, root) (by simp)
        exact ⟨hstock.spelled (tree, root) (by simp), _, rfl, rfl, ⟨root, rfl, hbears.setRoot _⟩,
          linked_iff_firm.mpr hstock.firm⟩

namespace Edit

/-- The empty arena and those that scripts are read into are linked, and no sequence of edits breaks the links. Every
script that is read as a tree is read into an arena, which bears the tree at its root. -/
theorem arenas_linked :
    ({} : Arena).Linked ∧
    (∀ source options script, parse source options = .ok script →
      ∃ built, build source options = .ok built ∧ built.Holds script) ∧
    (∀ source options built, build source options = .ok built → built.arena.Linked) ∧
    ∀ a b : Arena, a.Linked → ReflTransGen Call.Leads a b → b.Linked := by
  refine ⟨linked_iff_firm.mpr empty_firm,
    fun source options script hparse => ((build_holds source options).1 script hparse).2,
    fun source options built hbuild => ?_, fun a b ha hrun => ?_⟩
  · obtain ⟨hok, herror⟩ := build_holds source options
    cases hparse : parse source options with
    | error e => cases hbuild.symm.trans (herror e hparse)
    | ok script =>
      obtain ⟨-, _, hbuild', hholds⟩ := hok script hparse
      cases hbuild.symm.trans hbuild'
      exact hholds.linked
  · induction hrun with
    | refl => exact ha
    | tail _ hstep ih => exact hstep.linked ih

/-- The first statement is faulty: its nodes 0 and 1 stay behind, and raw text stands in its place. The second one is
removed, and removing it once more fails. -/
theorem arenas_linked_removed :
    ∃ script built b, parse ("f(a b);g(x);" : Text) {} = .ok script ∧ build ("f(a b);g(x);" : Text) {} = .ok built ∧
      built.Holds script ∧ (built.arena.parentOf 0, built.arena.parentOf 1) = (none, none) ∧
      built.arena.childIds 7 = [2, 6] ∧ built.arena.Linked ∧
      ReflTransGen Call.Leads built.arena b ∧ b.childIds 7 = [2] ∧ b.Linked := by
  obtain ⟨script, hparse, -⟩ : ∃ script, parse ("f(a b);g(x);" : Text) {} = .ok script ∧ True :=
    exists_of_parse (by decide +kernel)
  have hrun : (build ("f(a b);g(x);" : Text) {}).toOption.all (fun built =>
      let a := built.arena
      let b := (Call.remove 6).run.after a
      a.parentOf 0 = none && a.parentOf 1 = none && a.childIds 7 = [2, 6] && 6 < a.size && 6 < b.size &&
        ((Call.remove 6).run.after b).childIds 7 = [2]) := by decide +kernel
  obtain ⟨built, hbuild, hholds⟩ := arenas_linked.2.1 _ _ script hparse
  simp only [hbuild, Except.toOption, Option.all_some, Bool.and_eq_true, decide_eq_true_eq] at hrun
  obtain ⟨⟨⟨⟨⟨h0, h1⟩, hbefore⟩, hfirst⟩, hagain⟩, hafter⟩ := hrun
  have hleads : ReflTransGen Call.Leads built.arena _ :=
    .tail (.single ⟨.remove 6, hfirst, rfl⟩) ⟨.remove 6, hagain, rfl⟩
  have hlinked := arenas_linked.2.2.1 _ _ built hbuild
  exact ⟨script, built, _, hparse, hbuild, hholds, Prod.ext h0 h1, hbefore, hlinked, hleads, hafter,
    arenas_linked.2.2.2 _ _ hlinked hleads⟩

end Edit

end PlainScript
