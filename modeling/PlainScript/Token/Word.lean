import PlainScript.Token

/-! Words, punctuators and regular expressions: the tokens that are known by their spelling alone.
Every byte outside ASCII may stand in a name. -/
namespace PlainScript

def isNameStart (c : UInt8) : Bool :=
  Byte.isAlpha c || c == '_'.toUInt8 || c == '$'.toUInt8 || Byte.isHigh c

def isNamePart (c : UInt8) : Bool := isNameStart c || Byte.isDigit c

def beginsWith (s : Text) (p : UInt8 → Bool) : Bool := s.head?.any p

namespace Scan

/-- A name or keyword; a name may have a hash in front. -/
def word (s : Text) : Scan TokenKind :=
  let hash := if beginsWith s (· == '#'.toUInt8) then 1 else 0
  let body := s.drop hash
  if hash = 1 && !beginsWith body isNameStart then .error (.strayHash, 1)
  else
    let size := hash + (body.takeWhile isNamePart).length
    if beginsWith (s.drop size) (· == '\\'.toUInt8) then .error (.identifierEscape, size)
    else .ok (if isReservedWord (s.take size) then .keyword else .identifier, size)

/-- The longest punctuator in front, where `?.` before a digit is a question mark and a fraction. -/
def punctuator (s : Text) : Scan TokenKind :=
  let fits (p : Text) : Bool :=
    p.isPrefixOf s && !(p == "?." && beginsWith (s.drop 2) Byte.isDigit)
  match punctuators.find? fits with
  | some p => .ok (.punctuator, p.length)
  | none => .error (.unexpectedByte (s.headD 0), 0)

/-- The length of the rest of a regular expression up to its closing slash, which does not count
inside a character class. -/
def regExpBody (inClass : Bool) (n : Nat) : Text → Except (LexFault × Nat) Nat
  | [] => .error (.unterminatedRegExp, n)
  | c :: rest =>
    if c == '\n'.toUInt8 then .error (.unterminatedRegExp, n)
    else if c == '\\'.toUInt8 then
      match rest with
      | [] => .error (.unterminatedRegExp, n + 1)
      | e :: rest =>
        if e == '\n'.toUInt8 then .error (.unterminatedRegExp, n + 1)
        else regExpBody inClass (n + 2) rest
    else if c == '['.toUInt8 then regExpBody true (n + 1) rest
    else if c == ']'.toUInt8 then regExpBody false (n + 1) rest
    else if c == '/'.toUInt8 && !inClass then .ok (n + 1)
    else regExpBody inClass (n + 1) rest

/-- A regular expression with its flags. -/
def regExp (s : Text) : Scan TokenKind :=
  (regExpBody false 1 s.tail).map fun size =>
    (.regExp, size + ((s.drop size).takeWhile isNamePart).length)

end Scan

/-- Whether a slash after this token begins a regular expression. -/
def slashBeginsRegExp (previous : Option Token) : Bool :=
  match previous with
  | none => true
  | some t =>
    match t.kind with
    | .keyword => !(["this", "super", "null", "true", "false"] : List Text).contains t.text
    | .punctuator => !([")", "]", closeBrace, "++", "--"] : List Text).contains t.text
    | .endOfFile => true
    | _ => false

end PlainScript
