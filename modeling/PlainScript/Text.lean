/-! Texts are plain byte sequences. Source code, tokens, comments and output are
all of this one type, so nothing here asks for valid UTF-8. The classes of bytes
are the ASCII ones; a byte from 128 up belongs to no class but `isHigh`. -/
namespace PlainScript

abbrev Text := List UInt8

namespace Text

/-- The UTF-8 bytes of a literal of this library. -/
def ofString (s : String) : Text := s.toUTF8.data.toList

instance : Coe String Text := ⟨ofString⟩

def ofNat (n : Nat) : Text := (Nat.toDigits 10 n).map Char.toUInt8

def ofInt : Int → Text
  | .ofNat n => ofNat n
  | .negSucc n => "-" ++ ofNat (n + 1)

def replicate (n : Nat) (c : Char) : Text := List.replicate n c.toUInt8

/-- The texts joined with `separator` between neighbours. -/
def join (separator : Text) : List Text → Text
  | [] => []
  | [t] => t
  | t :: rest => t ++ (separator ++ join separator rest)

@[simp] theorem join_nil (s : Text) : join s [] = [] := rfl
@[simp] theorem join_singleton (s t : Text) : join s [t] = t := rfl

def startsWith (s lead : Text) : Bool := lead.isPrefixOf s

def endsWith (s last : Text) : Bool := last.isSuffixOf s

/-- Whether `word` stands anywhere in a text. -/
def contains : (s word : Text) → Bool
  | [], word => word.isEmpty
  | c :: rest, word => startsWith (c :: rest) word || contains rest word

/-- The bytes before the first zero byte. A message ends there, whatever it quotes. -/
def upToZero (s : Text) : Text := s.takeWhile (· != 0)

/-- The parts between the separators, one more than there are separators. -/
def splitOnByte (separator : Char) : Text → List Text
  | [] => [[]]
  | c :: rest =>
    if c = separator.toUInt8 then [] :: splitOnByte separator rest
    else match splitOnByte separator rest with
      | [] => [[c]]
      | part :: parts => (c :: part) :: parts

/-- Texts are ordered byte by byte, a beginning before what continues it. -/
def le (a b : Text) : Bool := !(List.lex b a)

end Text

namespace Byte

def isDigit (c : UInt8) : Bool := '0'.toUInt8 ≤ c && c ≤ '9'.toUInt8
def isOctal (c : UInt8) : Bool := '0'.toUInt8 ≤ c && c ≤ '7'.toUInt8
def isLower (c : UInt8) : Bool := 'a'.toUInt8 ≤ c && c ≤ 'z'.toUInt8
def isUpper (c : UInt8) : Bool := 'A'.toUInt8 ≤ c && c ≤ 'Z'.toUInt8
def isAlpha (c : UInt8) : Bool := isLower c || isUpper c
def toLower (c : UInt8) : UInt8 := if isUpper c then c + 32 else c
def isAlphanum (c : UInt8) : Bool := isAlpha c || isDigit c

/-- A byte outside ASCII. -/
def isHigh (c : UInt8) : Bool := 0x80 ≤ c

/-- The blanks of ASCII: space and the five controls from tab to return. -/
def isBlank (c : UInt8) : Bool := c == 0x20 || (0x09 ≤ c && c ≤ 0x0D)

def isPrintable (c : UInt8) : Bool := 0x20 ≤ c && c ≤ 0x7E

/-- The value of a hexadecimal digit. -/
def hexValue? (c : UInt8) : Option Nat :=
  if isDigit c then some (c.toNat - 48)
  else if 'a'.toUInt8 ≤ c && c ≤ 'f'.toUInt8 then some (c.toNat - 87)
  else if 'A'.toUInt8 ≤ c && c ≤ 'F'.toUInt8 then some (c.toNat - 55)
  else none

def isHex (c : UInt8) : Bool := (hexValue? c).isSome

def hexValue (c : UInt8) : Nat := (hexValue? c).getD 0

def lowerHexDigit (n : Nat) : UInt8 := (Nat.digitChar n).toUInt8

end Byte

namespace Text

def toLower (s : Text) : Text := s.map Byte.toLower

/-- The number that a run of hexadecimal digits denotes. -/
def hexNumber (digits : Text) : Nat := digits.foldl (fun n c => n * 16 + Byte.hexValue c) 0

/-- The first `n` bytes as a hexadecimal number, or how many digits come before the first other
byte. -/
def readHex (n : Nat) (s : Text) : Except Nat Nat :=
  let digits := (s.take n).takeWhile Byte.isHex
  if digits.length = n then .ok (hexNumber digits) else .error digits.length

/-- At least `width` hexadecimal digits of `n`. -/
def hexDigits (width n : Nat) : Text :=
  let digits := (Nat.toDigits 16 n).map Char.toUInt8
  replicate (width - digits.length) '0' ++ digits

end Text

end PlainScript
