import PlainScript.Text

/-! Code points as bytes. Escapes may denote lone surrogates and, in a wider sense, any
number; such a number is packed into the same bit pattern, and bits that do not fit are dropped. -/
namespace PlainScript.Text

/-- The UTF-8 bit pattern of a code point, for any number. -/
def utf8 (cp : Nat) : Text :=
  if cp < 0x80 then [cp.toUInt8]
  else if cp < 0x800 then [(0xC0 ||| cp >>> 6).toUInt8, (0x80 ||| cp &&& 0x3F).toUInt8]
  else if cp < 0x10000 then
    [(0xE0 ||| cp >>> 12).toUInt8, (0x80 ||| cp >>> 6 &&& 0x3F).toUInt8,
      (0x80 ||| cp &&& 0x3F).toUInt8]
  else
    [(0xF0 ||| cp >>> 18).toUInt8, (0x80 ||| cp >>> 12 &&& 0x3F).toUInt8,
      (0x80 ||| cp >>> 6 &&& 0x3F).toUInt8, (0x80 ||| cp &&& 0x3F).toUInt8]

def isHighSurrogate (cp : Nat) : Bool := 0xD800 ≤ cp && cp ≤ 0xDBFF
def isLowSurrogate (cp : Nat) : Bool := 0xDC00 ≤ cp && cp ≤ 0xDFFF

/-- The code point that a high and a low surrogate stand for. -/
def joinSurrogates (high low : Nat) : Nat := 0x10000 + (high - 0xD800) * 0x400 + (low - 0xDC00)

example : utf8 0x41 = [0x41] := by decide
example : utf8 0x2028 = [0xE2, 0x80, 0xA8] := by decide
example : utf8 (joinSurrogates 0xD83D 0xDE00) = [0xF0, 0x9F, 0x98, 0x80] := by decide

end PlainScript.Text
