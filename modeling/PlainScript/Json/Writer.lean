import PlainScript.Json.Value
import PlainScript.Number.General

/-! Writing JSON documents, on one line or with one item per line, two blanks further in for each
level. Numbers have up to seventeen digits, which is enough to read back the same double. -/
namespace PlainScript.Json

/-- One byte of a string, escaped if it has to be. -/
def escapeByte (c : UInt8) : Text :=
  if c = '"'.toUInt8 then "\\\""
  else if c = '\\'.toUInt8 then "\\\\"
  else if c = 0x08 then "\\b"
  else if c = 0x0C then "\\f"
  else if c = 0x0A then "\\n"
  else if c = 0x0D then "\\r"
  else if c = 0x09 then "\\t"
  else if c < 0x20 then "\\u" ++ Text.hexDigits 4 c.toNat
  else [c]

def escape (t : Text) : Text := t.flatMap escapeByte

def quote (t : Text) : Text := "\"" ++ escape t ++ "\""

/-- The indentation of a document in lines, or none for one on a single line. -/
abbrev Layout := Option Nat

namespace Layout

def compact : Layout := none
def pretty : Layout := some 0

def deeper (l : Layout) : Layout := l.map (· + 2)

/-- The beginning of a new line. -/
def lineBreak : Layout → Text
  | none => []
  | some n => "\n" ++ Text.replicate n ' '

def afterColon : Layout → Text
  | none => []
  | some _ => " "

/-- Items between brackets. -/
def bracketed (l : Layout) (opening close : Text) (items : List Text) : Text :=
  let body := Text.join "," (items.map (l.deeper.lineBreak ++ ·))
  opening ++ body ++ (if items.isEmpty then [] else l.lineBreak) ++ close

end Layout

namespace Value

mutual

def write (l : Layout) : Value → Text
  | null => "null"
  | bool b => if b then "true" else "false"
  | number x => Rounded.general 17 x
  | string t => quote t
  | array items => l.bracketed "[" "]" (writeItems l.deeper items)
  | object ⟨fields⟩ => l.bracketed "\x7b" "\x7d" (writeFields l.deeper fields)

def writeItems (l : Layout) : List Value → List Text
  | [] => []
  | v :: rest => write l v :: writeItems l rest

def writeFields (l : Layout) : List (Text × Value) → List Text
  | [] => []
  | (name, v) :: rest =>
    (quote name ++ ":" ++ l.afterColon ++ write l v) :: writeFields l rest

end

end Value

example : (Value.array [.null, .object ⟨[("a", .string "\n")]⟩]).write .compact =
    ("[null,\x7b\"a\":\"\\n\"\x7d]" : Text) := by decide +kernel

end PlainScript.Json
