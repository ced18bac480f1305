import PlainScript.Token.Word
import PlainScript.Number.Decimal

/-! Numeric literals: hexadecimal, octal and binary ones with a letter after the zero, octal ones
that begin with a bare zero, and decimals. Underscores may stand between digits. -/
namespace PlainScript.Scan

/-- The value of a digit in bases up to sixteen. -/
def digitBelow (base : Nat) (c : UInt8) : Bool := (Byte.hexValue? c).any (· < base)

/-- A whole number written in some base, rounded to a double after every digit. -/
def wholeNumber (base : Nat) (digits : Text) : Float :=
  digits.foldl (fun v c => v * Float.ofNat base + Float.ofNat (Byte.hexValue c)) 0.0

def underscore : UInt8 := '_'.toUInt8

/-- Digits of one base with underscores, after `lead` bytes that are not part of them. -/
def basedDigits (base lead : Nat) (s : Text) : Scan Float :=
  let run := (s.drop lead).takeWhile fun c => c == underscore || digitBelow base c
  let digits := run.filter (· != underscore)
  if digits.isEmpty then .error (.missingDigits, lead + run.length)
  else .ok (wholeNumber base digits, lead + run.length)

/-- A run of digits and underscores. -/
def digitRun (s : Text) : Text := s.takeWhile fun c => Byte.isDigit c || c == underscore

/-- The length of the exponent part, zero when there is none. -/
def exponentLength (s : Text) : Except LexFault Nat :=
  if beginsWith s fun c => c == 'e'.toUInt8 || c == 'E'.toUInt8 then
    let signed := beginsWith s.tail fun c => c == '+'.toUInt8 || c == '-'.toUInt8
    let lead := if signed then 2 else 1
    let digits := (s.drop lead).takeWhile Byte.isDigit
    if digits.isEmpty then .error .malformedExponent else .ok (lead + digits.length)
  else .ok 0

def decimal (s : Text) : Scan Float :=
  let whole := (digitRun s).length
  let fraction :=
    if beginsWith (s.drop whole) (· == '.'.toUInt8) then 1 + (digitRun (s.drop (whole + 1))).length
    else 0
  let size := whole + fraction
  match exponentLength (s.drop size) with
  | .error f => .error (f, size)
  | .ok n =>
    let spelling := (s.take (size + n)).filter (· != underscore)
    .ok ((Decimal.ofText spelling).toFloat, size + n)

/-- A zero and then nothing but octal digits. -/
def isBareOctal (s : Text) : Bool :=
  let digits := s.tail.takeWhile Byte.isDigit
  beginsWith s (· == '0'.toUInt8) && !digits.isEmpty && digits.all Byte.isOctal

def numberValue (s : Text) : Scan Float :=
  let zeroAnd (lower upper : Char) : Bool :=
    beginsWith s (· == '0'.toUInt8) &&
      beginsWith s.tail fun c => c == lower.toUInt8 || c == upper.toUInt8
  if zeroAnd 'x' 'X' then basedDigits 16 2 s
  else if zeroAnd 'o' 'O' then basedDigits 8 2 s
  else if zeroAnd 'b' 'B' then basedDigits 2 2 s
  else if isBareOctal s then basedDigits 8 1 s
  else decimal s

def number (s : Text) : Scan TokenKind :=
  match numberValue s with
  | .error f => .error f
  | .ok (value, size) =>
    let isBigInt := beginsWith (s.drop size) (· == 'n'.toUInt8)
    let size := if isBigInt then size + 1 else size
    if beginsWith (s.drop size) isNameStart then .error (.identifierAfterNumber, size)
    else .ok (.number value isBigInt, size)

end PlainScript.Scan
