import PlainScript.Json.Value
import PlainScript.Text.Position
import PlainScript.Text.Unicode

/-! Reading JSON documents. A reader takes bytes off the front of the rest of the document; where it
fails, that rest tells the place of the fault. Blanks are those of ASCII, numerals may begin
with zeros, and of two fields with one name the later one counts. -/
namespace PlainScript.Json

inductive Fault
  | tooDeep
  | unexpectedEnd
  | unexpected (c : UInt8)
  | expected (c : Char)
  | controlCharacter
  | invalidEscape (c : Option UInt8)
  | invalidCodePoint
  | unterminated
  | invalidNumber
  | invalidExponent
  | fieldName
  | trailing
  deriving DecidableEq, Repr

def Fault.message : Fault → Text
  | tooDeep => "nesting too deep"
  | unexpectedEnd => "unexpected end of input"
  | unexpected c => "unexpected character '" ++ [c] ++ "'"
  | expected c => "expected '" ++ [c.toUInt8] ++ "'"
  | controlCharacter => "control character in string"
  | invalidEscape c => "invalid escape '\\" ++ [c.getD 0] ++ "'"
  | invalidCodePoint => "invalid \\u escape"
  | unterminated => "unterminated string"
  | invalidNumber => "invalid number"
  | invalidExponent => "invalid exponent"
  | fieldName => "object key must be a string"
  | trailing => "unexpected trailing characters"

structure ReadError where
  fault : Fault
  position : Position
  deriving DecidableEq, Repr

def ReadError.message (e : ReadError) : Text :=
  Text.upToZero ("JSON error at line " ++ Text.ofNat e.position.line ++ ", column "
    ++ Text.ofNat e.position.column ++ ": " ++ e.fault.message)

/-- A reader answers a value or a fault, and in both cases the rest of the document. -/
abbrev Reader := EStateM Fault Text

namespace Reader

def peek : Reader (Option UInt8) := return (← get).head?

/-- Takes a byte. -/
def next : Reader (Option UInt8) := modifyGet fun s => (s.head?, s.tail)

def skip (n : Nat) : Reader Unit := modify (·.drop n)

def skipBlanks : Reader Unit := modify (·.dropWhile Byte.isBlank)

def atChar (c : Char) : Reader Bool := return (← peek) = some c.toUInt8

/-- Takes a character that has to come next, after blanks. -/
def expect (c : Char) : Reader Unit := do
  skipBlanks
  if ← atChar c then skip 1 else throw (.expected c)

/-- Takes a word if it comes next. -/
def word (w : Text) : Reader Bool := do
  if (← get).startsWith w then
    skip w.length
    return true
  return false

/-- Takes hexadecimal digits; a byte that is none is taken too. -/
def hexDigits : Nat → Nat → Reader Nat
  | 0, n => return n
  | count + 1, n => do
    match (← next).bind Byte.hexValue? with
    | some d => hexDigits count (n * 16 + d)
    | none => throw .invalidCodePoint

def codeUnit : Reader Nat := hexDigits 4 0

/-- The text of a code unit in four hexadecimal digits, joined with a low surrogate that follows
a high one. -/
def codePoint : Reader Text := do
  let high ← codeUnit
  if Text.isHighSurrogate high && (← get).startsWith "\\u" then
    skip 2
    let low ← codeUnit
    if Text.isLowSurrogate low then return Text.utf8 (Text.joinSurrogates high low)
    return Text.utf8 high ++ Text.utf8 low
  return Text.utf8 high

/-- The characters that an escape of one letter stands for. -/
def shortEscapes : List (Char × UInt8) :=
  [('"', 0x22), ('\\', 0x5C), ('/', 0x2F), ('b', 0x08), ('f', 0x0C), ('n', 0x0A), ('r', 0x0D),
    ('t', 0x09)]

/-- The text of an escape, after its backslash. -/
def escape : Reader Text := do
  let c ← next
  if c = some 'u'.toUInt8 then codePoint
  else
    match shortEscapes.find? fun (letter, _) => c = some letter.toUInt8 with
    | some (_, value) => return [value]
    | none => throw (.invalidEscape c)

/-- The text up to the closing quote, in at most `steps` characters. -/
def stringRest : Nat → Reader Text
  | 0 => throw .unterminated
  | steps + 1 => do
    match ← next with
    | none => throw .unterminated
    | some c =>
      if c = '"'.toUInt8 then return []
      if c < 0x20 then throw .controlCharacter
      let part ← if c = '\\'.toUInt8 then escape else pure [c]
      return part ++ (← stringRest steps)

def string : Reader Text := do
  expect '"'
  stringRest ((← get).length + 1)

def digits : Reader Text := modifyGet fun s => (s.takeWhile Byte.isDigit, s.dropWhile Byte.isDigit)

/-- One or more digits. -/
def someDigits (fault : Fault) : Reader Text := do
  let ds ← digits
  if ds.isEmpty then throw fault
  return ds

/-- A character that may come next. -/
def optionally (c : Char) : Reader Text := do
  if ← atChar c then
    skip 1
    return [c.toUInt8]
  return []

def fraction : Reader Text := do
  let point ← optionally '.'
  if point.isEmpty then return []
  return point ++ (← someDigits .invalidNumber)

def exponentMark : Reader Text := do
  let mark ← optionally 'e'
  if mark.isEmpty then optionally 'E' else return mark

def exponentSign : Reader Text := do
  let sign ← optionally '+'
  if sign.isEmpty then optionally '-' else return sign

def exponent : Reader Text := do
  let mark ← exponentMark
  if mark.isEmpty then return []
  let sign ← exponentSign
  return mark ++ sign ++ (← someDigits .invalidExponent)

def number : Reader Float := do
  let sign ← optionally '-'
  let whole ← someDigits .invalidNumber
  let fraction ← fraction
  return Decimal.readFloat (sign ++ whole ++ fraction ++ (← exponent))

/-- What is separated by commas up to a closing bracket, in at most `steps` items. -/
def separated {α : Type} (close : Char) (item : Reader α) : Nat → Reader (List α)
  | 0 => throw .unexpectedEnd
  | steps + 1 => do
    let a ← item
    skipBlanks
    if ← atChar close then
      skip 1
      return [a]
    expect ','
    return a :: (← separated close item steps)

/-- A list in brackets. -/
def bracketed {α : Type} (opening close : Char) (item : Reader α) : Reader (List α) := do
  expect opening
  skipBlanks
  if ← atChar close then
    skip 1
    return []
  separated close item ((← get).length + 1)

def field (value : Reader Value) : Reader (Text × Value) := do
  skipBlanks
  if !(← atChar '"') then throw .fieldName
  let name ← string
  expect ':'
  return (name, ← value)

/-- A value that is neither a string nor has parts, with `c` its first byte. -/
def scalar (c : Option UInt8) : Reader Value := do
  if ← word "true" then return .bool true
  if ← word "false" then return .bool false
  if ← word "null" then return .null
  match c with
  | none => throw .unexpectedEnd
  | some c =>
    if c = '-'.toUInt8 || Byte.isDigit c then return .number (← number)
    if c = 0 then throw .unexpectedEnd
    throw (.unexpected c)

/-- A value that nests at most `room` levels. -/
def value : Nat → Reader Value
  | 0 => throw .tooDeep
  | room + 1 => do
    skipBlanks
    let c ← peek
    if c = some '"'.toUInt8 then return .string (← string)
    if c = some '\x7b'.toUInt8 then
      return .object (({} : Table Value).insertAll (← bracketed '\x7b' '\x7d' (field (value room))))
    if c = some '['.toUInt8 then return .array (← bracketed '[' ']' (value room))
    scalar c

/-- How deep the values of a document may nest. -/
def maxDepth : Nat := 256

def document : Reader Value := do
  let v ← value maxDepth
  skipBlanks
  if !(← get).isEmpty then throw .trailing
  return v

end Reader

/-- Reads a document. -/
def read (source : Text) : Except ReadError Value :=
  match Reader.document source with
  | .ok v _ => .ok v
  | .error fault rest =>
    .error ⟨fault, Position.start.after (source.take (source.length - rest.length))⟩

end PlainScript.Json
