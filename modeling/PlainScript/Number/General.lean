import PlainScript.Number.Rounded

/-! Two general layouts of doubles. `general` writes a given number of significant digits, drops
the zeros at the end, and takes an exponent for very large and very small numbers; `fixed` writes
a given number of places. Both spell out infinities and the undefined number. -/
namespace PlainScript.Rounded

def dropTrailingZeros (digits : Text) : Text :=
  (digits.reverse.dropWhile (· == '0'.toUInt8)).reverse

/-- A minus sign for the numbers that carry one. -/
def sign (x : Float) : Text := if isNegative x then "-" else ""

/-- The text of a double that is not finite. -/
def nonFinite? (x : Float) : Option Text :=
  if x.isNaN then some "nan" else if x.isInf then some (sign x ++ "inf") else none

def withPoint (whole fraction : Text) : Text :=
  if fraction.isEmpty then whole else whole ++ "." ++ fraction

/-- The layout of at most `places` significant digits. -/
def general (places : Nat) (x : Float) : Text :=
  match nonFinite? x with
  | some t => t
  | none =>
    if x == 0.0 then sign x ++ "0"
    else
      let s := significant places x
      let digits := Text.ofNat s.digits
      if -4 ≤ s.exponent && s.exponent < places then
        if 0 ≤ s.exponent then
          let whole := s.exponent.toNat + 1
          sign x ++ withPoint (digits.take whole) (dropTrailingZeros (digits.drop whole))
        else
          sign x ++ "0." ++ Text.replicate ((-s.exponent).toNat - 1) '0' ++ dropTrailingZeros digits
      else
        let power := Text.ofNat s.exponent.natAbs
        sign x ++ withPoint (digits.take 1) (dropTrailingZeros (digits.drop 1)) ++ "e"
          ++ (if s.exponent < 0 then "-" else "+") ++ Text.replicate (2 - power.length) '0' ++ power

/-- The layout with `places` digits after the point. -/
def fixed (places : Nat) (x : Float) : Text :=
  match nonFinite? x with
  | some t => t
  | none =>
    let m := Magnitude.ofFloat x
    let digits := Text.ofNat (nearest (m.numerator * Nat.pow 10 places) m.denominator)
    let digits := Text.replicate (places + 1 - digits.length) '0' ++ digits
    let whole := digits.length - places
    sign x ++ withPoint (digits.take whole) (digits.drop whole)

example : general 6 1234567.0 = ("1.23457e+06" : Text) := by decide +kernel
example : general 6 0.0001 = ("0.0001" : Text) := by decide +kernel
example : general 17 0.1 = ("0.10000000000000001" : Text) := by decide +kernel
example : fixed 3 (-0.0005) = ("-0.001" : Text) := by decide +kernel

end PlainScript.Rounded
