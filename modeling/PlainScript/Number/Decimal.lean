import PlainScript.Text

/-! Decimal numerals as exact values. A numeral is a coefficient and a power of ten; its double
is the nearest one. Far outside the range of doubles the answer is known without computing the
power, so a numeral with a huge exponent is read as fast as any other. -/
namespace PlainScript

/-- The number `coefficient * 10 ^ exponent`. -/
structure Decimal where
  coefficient : Nat
  exponent : Int
  deriving DecidableEq, Repr

namespace Decimal

def digitsToNat (digits : Text) : Nat := digits.foldl (fun n c => n * 10 + (c.toNat - 48)) 0

/-- How many decimal digits a number has. -/
def digitCount (n : Nat) : Nat := (Nat.toDigits 10 n).length

def infinity : Float := 1.0 / 0.0

/-- The nearest double, infinite when there is none. -/
def toFloat (d : Decimal) : Float :=
  if d.coefficient = 0 then 0.0
  else if d.exponent + digitCount d.coefficient > 310 then infinity
  else if d.exponent + digitCount d.coefficient < -330 then 0.0
  else Float.ofScientific d.coefficient (d.exponent < 0) d.exponent.natAbs

/-- The exponent part of a numeral, `e` with an optional sign and digits; none counts as zero. -/
def readExponent (s : Text) : Int :=
  match s with
  | [] => 0
  | c :: rest =>
    if c == 'e'.toUInt8 || c == 'E'.toUInt8 then
      match rest with
      | [] => 0
      | sign :: digits =>
        if sign == '-'.toUInt8 then -(digitsToNat (digits.takeWhile Byte.isDigit) : Int)
        else if sign == '+'.toUInt8 then digitsToNat (digits.takeWhile Byte.isDigit)
        else digitsToNat (rest.takeWhile Byte.isDigit)
    else 0

/-- Reads an unsigned numeral: digits, an optional point with digits, an optional exponent. -/
def ofText (s : Text) : Decimal :=
  let whole := s.takeWhile Byte.isDigit
  let rest := s.drop whole.length
  let fraction := if rest.head? = some '.'.toUInt8 then rest.tail.takeWhile Byte.isDigit else []
  let rest := if rest.head? = some '.'.toUInt8 then rest.tail.drop fraction.length else rest
  ⟨digitsToNat (whole ++ fraction), readExponent rest - fraction.length⟩

/-- The double of a numeral that may begin with a minus sign. -/
def readFloat (s : Text) : Float :=
  match s with
  | [] => 0.0
  | c :: rest => if c == '-'.toUInt8 then -(ofText rest).toFloat else (ofText s).toFloat

example : ofText "12.50e-3" = ⟨1250, -5⟩ := by decide
example : readFloat "5e-324" = Float.ofBits 1 := by decide +kernel
example : readFloat "-0.1" = -0.1 := by decide +kernel

end Decimal

end PlainScript
