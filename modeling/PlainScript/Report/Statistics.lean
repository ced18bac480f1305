import PlainScript.Json.Value
import PlainScript.Number.General

/-! Counters, timings and notes of a run. The name of each is that of a pass and that of the counter
with a dot between them, and a report groups the counters by pass. -/
namespace PlainScript

structure Statistics where
  ints : Table Int := {}
  doubles : Table Float := {}
  strings : Table Text := {}

namespace Statistics

def setInt (s : Statistics) (name : Text) (value : Int) : Statistics :=
  { s with ints := s.ints.insert name value }

def setDouble (s : Statistics) (name : Text) (value : Float) : Statistics :=
  { s with doubles := s.doubles.insert name value }

def setString (s : Statistics) (name value : Text) : Statistics :=
  { s with strings := s.strings.insert name value }

def increment (s : Statistics) (name : Text) (amount : Int) : Statistics :=
  { s with ints := s.ints.update name 0 (· + amount) }

def add (s : Statistics) (name : Text) (amount : Float) : Statistics :=
  { s with doubles := s.doubles.update name 0.0 (· + amount) }

/-- Names a timing. Time itself is not measured here: the caller adds it. -/
def startTimer (s : Statistics) (name : Text) : Statistics := s.add name 0.0

def has (s : Statistics) (name : Text) : Bool :=
  s.ints.contains name || s.doubles.contains name || s.strings.contains name

def isEmpty (s : Statistics) : Bool := s.ints.isEmpty && s.doubles.isEmpty && s.strings.isEmpty

/-- Adds the numbers of `other` and takes over its notes, under names that begin with `group`. -/
def merge (s other : Statistics) (group : Text) : Statistics :=
  let named (name : Text) : Text := if group.isEmpty then name else group ++ "." ++ name
  let s := other.ints.entries.foldl (fun s (name, n) => s.increment (named name) n) s
  let s := other.doubles.entries.foldl (fun s (name, x) => s.add (named name) x) s
  other.strings.entries.foldl (fun s (name, t) => s.setString (named name) t) s

/-- The sum of the counters of changes. -/
def totalApplied (s : Statistics) : Int :=
  s.ints.entries.foldr (fun (name, n) sum => if name.endsWith ".applied" then n + sum else sum) 0

def groupOf (name : Text) : Text :=
  if name.contains "." then name.takeWhile (· != '.'.toUInt8) else "general"

def nameInGroup (name : Text) : Text :=
  if name.contains "." then (name.dropWhile (· != '.'.toUInt8)).tail else name

/-- A name in a column of its own, with a value. -/
def line (name value : Text) : Text :=
  "  " ++ name ++ Text.replicate (28 - name.length) ' ' ++ ": " ++ value ++ "\n"

def groups (s : Statistics) : List Text :=
  (TextSet.ofList ((s.ints.keys ++ s.strings.keys).map groupOf)).keys

def groupLines (s : Statistics) (group : Text) : Text :=
  let inGroup (entries : List (Text × Text)) : Text :=
    (entries.filter fun (name, _) => groupOf name = group).flatMap fun (name, value) =>
      line (nameInGroup name) value
  "\n[" ++ group ++ "]\n" ++ inGroup (s.ints.map fun _ n => Text.ofInt n).entries
    ++ inGroup s.strings.entries

def timingLines (s : Statistics) : Text :=
  if s.doubles.isEmpty then []
  else "\n[timing]\n" ++ s.doubles.entries.flatMap fun (name, x) =>
    line name (Rounded.fixed 3 x ++ " ms")

/-- The report on all counters. -/
def format (s : Statistics) : Text :=
  "=== Unravel Statistics ===\n" ++ s.groups.flatMap s.groupLines ++ s.timingLines
    ++ "\nTotal applied: " ++ Text.ofInt s.totalApplied ++ "\n"

def toJson (s : Statistics) : Json.Value :=
  .object ((({} : Table Json.Value).insertAll (s.ints.map fun _ n => .ofInt n).entries
    |>.insertAll (s.doubles.map fun _ x => .number x).entries)
    |>.insertAll (s.strings.map fun _ t => .string t).entries)

end Statistics

end PlainScript
