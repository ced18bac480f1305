import PlainScript.Token

/-! Escapes in string literals. An escape that denotes a printable character can be written as the
character itself, unless that would end the literal or start another escape. -/
namespace PlainScript

/-- Whether the spelling of a string has an escape by code. The character after a backslash is
skipped, so that an escaped backslash starts nothing. -/
def hasCodeEscape : Text → Bool
  | [] => false
  | [_] => false
  | c :: d :: rest =>
    if c != '\\'.toUInt8 then hasCodeEscape (d :: rest)
    else d == 'x'.toUInt8 || d == 'u'.toUInt8 || hasCodeEscape rest

/-- An escape by code, seen from behind its backslash. -/
structure CodeEscape where
  code : Nat
  length : Nat
  deriving DecidableEq, Repr

namespace CodeEscape

/-- An escape of just `digits` digits after a mark. -/
def fixed? (digits : Nat) (s : Text) : Option CodeEscape :=
  (Text.readHex digits s).toOption.map fun code => ⟨code, digits + 1⟩

/-- An escape of one to six digits in braces after a mark; `s` begins after the opening one. -/
def braced? (s : Text) : Option CodeEscape :=
  let digits := s.takeWhile (· != '\x7d'.toUInt8)
  if digits.length = s.length || digits.isEmpty || 6 < digits.length then none
  else if digits.all Byte.isHex then some ⟨Text.hexNumber digits, digits.length + 3⟩
  else none

def read? : Text → Option CodeEscape
  | [] => none
  | mark :: rest =>
    if mark = 'x'.toUInt8 then fixed? 2 rest
    else if mark = 'u'.toUInt8 then
      match rest with
      | [] => none
      | c :: inner => if c = '\x7b'.toUInt8 then braced? inner else fixed? 4 rest
    else none

/-- Whether the character itself can stand between two quotes. -/
def isPlain (e : CodeEscape) (quote : UInt8) : Bool :=
  0x20 ≤ e.code && e.code ≤ 0x7E && e.code != quote.toNat && e.code != 0x5C

end CodeEscape

/-- What stands between two quotes, with the escapes of plain characters resolved. The first
`skipped` bytes belong to an escape that is resolved already. -/
def unescapeBody (quote : UInt8) : (skipped : Nat) → Text → Text
  | _, [] => []
  | skipped + 1, _ :: rest => unescapeBody quote skipped rest
  | 0, [c] => [c]
  | 0, c :: d :: rest =>
    if c != '\\'.toUInt8 then c :: unescapeBody quote 0 (d :: rest)
    else
      match (CodeEscape.read? (d :: rest)).filter (·.isPlain quote) with
      | some e => e.code.toUInt8 :: unescapeBody quote e.length (d :: rest)
      | none => c :: d :: unescapeBody quote 0 rest

/-- The spelling of a string with its escapes of plain characters resolved. -/
def unescape : Text → Text
  | [] => []
  | [c] => [c]
  | quote :: rest => quote :: unescapeBody quote 0 rest.dropLast ++ rest.getLast?.toList

example : unescape "'\\x68i \\u\x7b21\x7d \\x27'" = ("'hi ! \\x27'" : Text) := by decide +kernel

end PlainScript
