import PlainScript.Token
import PlainScript.Text.Unicode

/-! String literals. The value of a literal is the bytes between its quotes with every escape
replaced by what it denotes. -/
namespace PlainScript.Scan

/-- Escapes of one letter. -/
def letterEscape? (c : UInt8) : Option UInt8 :=
  if c == 'n'.toUInt8 then some 0x0A
  else if c == 't'.toUInt8 then some 0x09
  else if c == 'r'.toUInt8 then some 0x0D
  else if c == 'b'.toUInt8 then some 0x08
  else if c == 'f'.toUInt8 then some 0x0C
  else if c == 'v'.toUInt8 then some 0x0B
  else none

/-- The low surrogate that an escape in front denotes. -/
def lowSurrogate? (s : Text) : Option Nat :=
  if Text.startsWith s "\\u" then
    match Text.readHex 4 (s.drop 2) with
    | .ok low => if Text.isLowSurrogate low then some low else none
    | .error _ => none
  else none

/-- What follows `\u`: one to six digits in braces, or just four digits, where two escapes that
are a surrogate pair denote one code point. -/
def unicodeEscape (s : Text) : Scan Text :=
  if s.head? = some '\x7b'.toUInt8 then
    let digits := s.tail.takeWhile Byte.isHex
    if 6 < digits.length then .error (.unicodeEscape, 7)
    else if (s.tail.drop digits.length).head? ≠ some '\x7d'.toUInt8 then
      .error (.unicodeEscape, 1 + digits.length)
    else if digits.isEmpty || 0x10FFFF < Text.hexNumber digits then
      .error (.unicodeEscape, digits.length + 2)
    else .ok (Text.utf8 (Text.hexNumber digits), digits.length + 2)
  else
    match Text.readHex 4 s with
    | .error k => .error (.hexEscape, k)
    | .ok cp =>
      match if Text.isHighSurrogate cp then lowSurrogate? (s.drop 4) else none with
      | some low => .ok (Text.utf8 (Text.joinSurrogates cp low), 10)
      | none => .ok (Text.utf8 cp, 4)

/-- Further octal digits of an escape, as long as it denotes at most 255. -/
def octalEscape (value : Nat) : Nat → Text → Nat × Nat
  | 0, _ => (value, 0)
  | _, [] => (value, 0)
  | more + 1, c :: rest =>
    let next := value * 8 + (c.toNat - 48)
    if Byte.isOctal c && next ≤ 0xFF then
      let (v, n) := octalEscape next more rest
      (v, n + 1)
    else (value, 0)

/-- What follows a backslash, `e` first: the bytes it denotes and its length. -/
def escape (e : UInt8) (rest : Text) : Scan Text :=
  match letterEscape? e with
  | some c => .ok ([c], 1)
  | none =>
    if e == '\n'.toUInt8 then .ok ([], 1)
    else if e == '\r'.toUInt8 then .ok ([], if rest.head? = some '\n'.toUInt8 then 2 else 1)
    else if e == 'x'.toUInt8 then
      match Text.readHex 2 rest with
      | .error k => .error (.hexEscape, 1 + k)
      | .ok cp => .ok (Text.utf8 cp, 3)
    else if e == 'u'.toUInt8 then Scan.shift 1 (unicodeEscape rest)
    else if Byte.isOctal e then
      let (value, n) := octalEscape (e.toNat - 48) 2 rest
      .ok (Text.utf8 value, 1 + n)
    else .ok ([e], 1)

/-- The rest of a literal after its opening quote. -/
def quotedBody (quote : UInt8) (s : Text) : Scan Text :=
  match s with
  | [] => .error (.unterminatedString, 0)
  | c :: rest =>
    if c == '\n'.toUInt8 then .error (.unterminatedString, 0)
    else if c == quote then .ok ([], 1)
    else if c == '\\'.toUInt8 then
      match rest with
      | [] => .error (.unterminatedString, 1)
      | e :: rest =>
        match escape e rest with
        | .error (f, n) => .error (f, n + 1)
        | .ok (value, n) =>
          match Scan.shift (n + 1) (quotedBody quote (rest.drop (n - 1))) with
          | .error f => .error f
          | .ok (tail, size) => .ok (value ++ tail, size)
    else
      match Scan.shift 1 (quotedBody quote rest) with
      | .error f => .error f
      | .ok (tail, size) => .ok (c :: tail, size)
termination_by s.length

def string (s : Text) : Scan TokenKind :=
  (Scan.shift 1 (quotedBody (s.headD 0) s.tail)).map fun (value, size) => (.string value, size)

end PlainScript.Scan
