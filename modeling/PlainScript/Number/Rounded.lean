import PlainScript.Number.Decimal

/-! Finite doubles as exact fractions, and their decimal roundings. All rounding is to the nearest,
an exact tie going to the even digit. -/
namespace PlainScript

/-- The magnitude of a finite double is `significand * 2 ^ exponent`. -/
structure Magnitude where
  significand : Nat
  exponent : Int
  deriving DecidableEq, Repr

namespace Magnitude

def ofFloat (x : Float) : Magnitude :=
  let bits := x.toBits.toNat
  let biased : Nat := bits / Nat.pow 2 52 % Nat.pow 2 11
  let field : Nat := bits % Nat.pow 2 52
  if biased = 0 then ⟨field, -1074⟩ else ⟨Nat.pow 2 52 + field, (biased : Int) - 1075⟩

def numerator (m : Magnitude) : Nat := m.significand * Nat.pow 2 m.exponent.toNat
def denominator (m : Magnitude) : Nat := Nat.pow 2 (-m.exponent).toNat

example : ofFloat 1.0 = ⟨Nat.pow 2 52, -52⟩ := by decide +kernel

end Magnitude

namespace Rounded

def isNegative (x : Float) : Bool := x.toBits.toNat / Nat.pow 2 63 = 1

/-- The nearest integer to `n / d`. -/
def nearest (n d : Nat) : Nat :=
  let q := n / d
  let r := n % d
  if 2 * r < d then q
  else if d < 2 * r then q + 1
  else if q % 2 = 0 then q else q + 1

/-- The exponent of the leading decimal digit of `n / d`. -/
def leadingExponent (n d : Nat) : Int :=
  let guess : Int := (Decimal.digitCount n : Int) - Decimal.digitCount d
  if d * Nat.pow 10 guess.toNat ≤ n * Nat.pow 10 (-guess).toNat then guess else guess - 1

/-- A number rounded to a fixed count of significant digits: `digits` has just that many, and the
first of them stands for a multiple of `10 ^ exponent`. -/
structure Significant where
  digits : Nat
  exponent : Int
  deriving DecidableEq, Repr

/-- The magnitude of a double other than zero, rounded to `places` significant digits. -/
def significant (places : Nat) (x : Float) : Significant :=
  let m := Magnitude.ofFloat x
  let n := m.numerator
  let d := m.denominator
  let e := leadingExponent n d
  let shift : Int := (places : Int) - 1 - e
  let digits := nearest (n * Nat.pow 10 shift.toNat) (d * Nat.pow 10 (-shift).toNat)
  if digits = Nat.pow 10 places then ⟨digits / 10, e + 1⟩ else ⟨digits, e⟩

/-- The rounded number itself. -/
def Significant.toDecimal (s : Significant) (places : Nat) : Decimal :=
  ⟨s.digits, s.exponent - ((places : Int) - 1)⟩

example : significant 1 0.1 = ⟨1, -1⟩ := by decide +kernel
example : significant 2 9.97 = ⟨10, 1⟩ := by decide +kernel

end Rounded

end PlainScript
