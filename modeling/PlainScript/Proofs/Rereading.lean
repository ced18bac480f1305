import PlainScript.Proofs.BuiltScripts
import PlainScript.Proofs.Printability
import PlainScript.Proofs.Twins

/-! Runs over the code of a run. What a run leaves nothing of is not in the tree that its code is read as either, if that
is the tree that was printed, so that the passes for it have nothing to do in another run. -/
namespace PlainScript

open Relation

namespace Arena

variable {a : Arena} {t : Tree} {root : NodeId}

end Arena

/-! ### Runs -/

open Arena Pipeline

/-- The tree of the script after the passes. -/
def Script.afterPasses (script : Script) (options : PassOptions) (config : Config) : Arena :=
  ((pipeline options).run (script.start config)).2.arena

section Runs

variable {source : Text} {options : PassOptions} {config : Config} {script reread : Script}

end Runs

/-- Whether the code of a run is read as the tree that it was printed from. -/
def readsBack (source : Text) (options : PassOptions) (config : Config) : Bool :=
  (parse source config.parsing).toOption.any fun script =>
    (parse (deobfuscate source options config).code config.parsing).toOption.any fun reread =>
      let last := script.afterPasses options config
      last.root.any fun root => last.mirrors reread.tree root

-- A negative number is read as one with a sign in front.
example : (deobfuscate "f(1 - 4);" {} {}).code = ("f(-3);" : Text) ∧ readsBack "f(1 - 4);" {} {} = true := by
  decide +kernel

end PlainScript
