import PlainScript.Number.General

/-! The spelling of literals that have no source text: numbers with the fewest digits that read
back as the same number, and double-quoted strings. -/
namespace PlainScript.Print

/-- The decimal digits of a number, the first of them standing for a multiple of `10 ^ exponent`. -/
structure ShortDigits where
  digits : Text
  exponent : Int
  deriving DecidableEq, Repr

/-- Whether a positive number rounded to some count of digits is read as the number itself. -/
def readsBack (x : Float) (places : Nat) : Bool :=
  ((Rounded.significant places x).toDecimal places).toFloat == x

/-- The fewest digits of a positive number that read back, at most seventeen, without zeros at the end. -/
def shortDigits (x : Float) : ShortDigits :=
  let places := ((List.range' 1 17).find? (readsBack x)).getD 17
  let s := Rounded.significant places x
  ⟨Rounded.dropTrailingZeros (Text.ofNat s.digits), s.exponent⟩

/-- Places the point: an integer up to twenty-one digits, a fraction with at most six zeros in
front, and an exponent in every other case. -/
def ShortDigits.layout (s : ShortDigits) : Text :=
  let count : Int := s.digits.length
  let whole := s.exponent + 1
  if count ≤ whole && whole ≤ 21 then s.digits ++ Text.replicate (whole - count).toNat '0'
  else if 0 < whole && whole ≤ 21 then
    s.digits.take whole.toNat ++ "." ++ s.digits.drop whole.toNat
  else if -6 < whole && whole ≤ 0 then "0." ++ Text.replicate (-whole).toNat '0' ++ s.digits
  else
    Rounded.withPoint (s.digits.take 1) (s.digits.drop 1) ++ "e"
      ++ (if s.exponent < 0 then "-" else "+") ++ Text.ofNat s.exponent.natAbs

/-- The spelling of a number. -/
def number (x : Float) : Text :=
  if x.isNaN then "NaN"
  else if x.isInf then Rounded.sign x ++ "Infinity"
  else if x == 0.0 then Rounded.sign x ++ "0"
  else Rounded.sign x ++ (shortDigits x.abs).layout

example : number 0.1 = ("0.1" : Text) := by decide +kernel
example : number 1e21 = ("1e+21" : Text) := by decide +kernel
example : number (-1.5e-7) = ("-1.5e-7" : Text) := by decide +kernel

/-- The one-letter escapes. -/
def shortEscape? (c : UInt8) : Option Text :=
  if c == '"'.toUInt8 then some "\\\""
  else if c == '\\'.toUInt8 then some "\\\\"
  else if c == 0x0A then some "\\n"
  else if c == 0x0D then some "\\r"
  else if c == 0x09 then some "\\t"
  else if c == 0x08 then some "\\b"
  else if c == 0x0C then some "\\f"
  else if c == 0x0B then some "\\v"
  else none

def escapeByte (c : UInt8) : Text :=
  match shortEscape? c with
  | some t => t
  | none => if c < 0x20 || c == 0x7F then "\\x" ++ Text.hexDigits 2 c.toNat else [c]

/-- The inside of a quoted string. The two separators that end a line in some readers are
escaped, and all other bytes outside ASCII stand for themselves. -/
def quotedInside : Text → Text
  | [] => []
  | 0xE2 :: 0x80 :: 0xA8 :: rest => "\\u2028" ++ quotedInside rest
  | 0xE2 :: 0x80 :: 0xA9 :: rest => "\\u2029" ++ quotedInside rest
  | c :: rest => escapeByte c ++ quotedInside rest

/-- A string literal with some value. -/
def quoted (value : Text) : Text := "\"" ++ quotedInside value ++ "\""

end PlainScript.Print
