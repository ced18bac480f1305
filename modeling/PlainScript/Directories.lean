import PlainScript.Text

/-! Directories, and the paths under which files can be written there. -/
namespace PlainScript

/-- The directories that are known, each as the names that lead to it from the root, and the one
that a path starts from unless it begins at the root. -/
structure Directories where
  current : List Text
  known : List (List Text)
  deriving DecidableEq, Repr

namespace Directories

def maxName : Nat := 255

def maxPath : Nat := 4095

/-- The directory that one name of a path leads to. -/
def enter (d : Directories) (place : List Text) (name : Text) : Option (List Text) :=
  if name = "" ∨ name = "." then some place
  else if name = ".." then some place.dropLast
  else if place ++ [name] ∈ d.known then some (place ++ [name])
  else none

/-- Follows the names of a path. -/
def follow (d : Directories) : List Text → List Text → Option (List Text) := List.foldlM d.enter

@[simp] theorem follow_nil (d : Directories) (place : List Text) :
    d.follow place [] = some place := rfl

@[simp] theorem follow_append (d : Directories) (place xs ys : List Text) :
    d.follow place (xs ++ ys) = (d.follow place xs).bind (d.follow · ys) := by
  simp [follow, List.foldlM_append]

/-- Whether a file can be written under a path: its last name stands in a known directory and is not
one itself. A path ends at its first zero byte. -/
def canWrite (d : Directories) (path : Text) : Bool :=
  let path := path.upToZero
  let names := path.splitOnByte '/'
  let start := if path.startsWith "/" then [] else d.current
  let last := names.getLastD []
  path.length ≤ maxPath && last.length ≤ maxName
    && (d.follow start names.dropLast).any fun place => (d.enter place last).isNone

theorem canWrite_nil (d : Directories) : d.canWrite [] = false := rfl

example : ["x.log", "./x.log", "x.log/", ".", "..", "no/x.log"].map
    (fun path : String => ({ current := ["work"], known := [] } : Directories).canWrite path) =
    [true, true, false, false, false, false] := by decide +kernel

end Directories

end PlainScript
