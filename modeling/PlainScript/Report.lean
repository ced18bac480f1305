import PlainScript.Text

/-! What a run reports. Each pass that changed something leaves a record, and the records decide how
far the result can be trusted: five changes are enough for full confidence, and a guess counts
once however often it was made. -/
namespace PlainScript

/-- How sure it is that a change keeps what the script does. -/
inductive Certainty
  | heuristic
  | structural
  | verified
  deriving DecidableEq, Repr

namespace Certainty

def name : Certainty → Text
  | heuristic => "heuristic"
  | structural => "structural"
  | verified => "verified"

def ofName? (name : Text) : Option Certainty :=
  [heuristic, structural, verified].find? (·.name = name)

end Certainty

structure Record where
  pass : Text
  description : Text
  count : Int
  certainty : Certainty
  deriving DecidableEq, Repr

namespace Record

def format (r : Record) : Text :=
  r.pass ++ ": " ++ r.description ++ " (" ++ Text.ofInt r.count ++ ")"

/-- What a record adds to the confidence. -/
def weight (r : Record) : Nat :=
  if r.count ≤ 0 then 0 else if r.certainty = .heuristic then 1 else r.count.toNat

theorem weight_eq_zero_iff (r : Record) : r.weight = 0 ↔ r.count ≤ 0 := by
  unfold weight
  split
  · simp_all
  · split
    · simp_all
    · omega

end Record

def totalWeight (records : List Record) : Nat := records.foldr (fun r n => r.weight + n) 0

/-- The weight at which confidence is complete. -/
def fullWeight : Nat := 5

/-- A number from 0 to 1. -/
def confidence (records : List Record) : Float :=
  Float.ofNat (min (totalWeight records) fullWeight) / Float.ofNat fullWeight

example : confidence [⟨"p", "d", 4, .heuristic⟩, ⟨"p", "d", -2, .verified⟩] = 0.2 := by
  decide +kernel

example : confidence [⟨"p", "d", 9, .structural⟩] = 1.0 := by decide +kernel

end PlainScript
