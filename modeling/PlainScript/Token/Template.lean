import PlainScript.Token

/-! Template literals. A template is one token from backquote to backquote. Its substitutions hold
code with braces, strings, comments and further templates, so its end is found with a stack of what
is open. -/
namespace PlainScript.Scan

/-- What a byte inside a template may belong to. -/
inductive TemplateFrame
  | body
  | code (depth : Nat)
  | quoted (quote : UInt8)
  | lineComment
  | blockComment
  deriving DecidableEq, Repr

/-- What is wrong when the text ends inside a frame. -/
def TemplateFrame.fault : TemplateFrame → LexFault
  | .body => .unterminatedTemplate
  | .code _ => .unterminatedSubstitution
  | .quoted _ => .unterminatedString
  | .lineComment => .unterminatedSubstitution
  | .blockComment => .unterminatedComment

/-- How many bytes are read and which frames are open then, for a byte and the one after it. -/
def TemplateFrame.step (frame : TemplateFrame) (outer : List TemplateFrame) (c : UInt8)
    (next : Option UInt8) : Except LexFault (Nat × List TemplateFrame) :=
  let pair (a b : Char) : Bool := c == a.toUInt8 && next == some b.toUInt8
  match frame with
  | .body =>
    if c == '\\'.toUInt8 then
      if next.isNone then .error .unterminatedTemplate else .ok (2, frame :: outer)
    else if c == '\x60'.toUInt8 then .ok (1, outer)
    else if pair '$' '\x7b' then .ok (2, .code 1 :: frame :: outer)
    else .ok (1, frame :: outer)
  | .code depth =>
    if c == '\x7b'.toUInt8 then .ok (1, .code (depth + 1) :: outer)
    else if c == '\x7d'.toUInt8 then
      .ok (1, if depth ≤ 1 then outer else .code (depth - 1) :: outer)
    else if c == '"'.toUInt8 || c == '\''.toUInt8 then .ok (1, .quoted c :: frame :: outer)
    else if c == '\x60'.toUInt8 then .ok (1, .body :: frame :: outer)
    else if pair '/' '/' then .ok (2, .lineComment :: frame :: outer)
    else if pair '/' '*' then .ok (2, .blockComment :: frame :: outer)
    else .ok (1, frame :: outer)
  | .quoted quote =>
    if c == '\n'.toUInt8 then .error .unterminatedString
    else if c == '\\'.toUInt8 then
      if next.isNone then .error .unterminatedString else .ok (2, frame :: outer)
    else .ok (1, if c == quote then outer else frame :: outer)
  | .lineComment => .ok (1, if c == '\n'.toUInt8 then outer else frame :: outer)
  | .blockComment => .ok (if pair '*' '/' then (2, outer) else (1, frame :: outer))

/-- How far a fault lies beyond the byte at which it is found: past the backslash that nothing
follows, and else at the byte itself. -/
def faultOffset (c : UInt8) : Nat := if c == '\\'.toUInt8 then 1 else 0

/-- The length of the text up to where every frame is closed. -/
def templateEnd (frames : List TemplateFrame) (n : Nat) (s : Text) : Except (LexFault × Nat) Nat :=
  match frames with
  | [] => .ok n
  | frame :: outer =>
    match s with
    | [] => .error (frame.fault, n)
    | c :: rest =>
      match frame.step outer c rest.head? with
      | .error f => .error (f, n + faultOffset c)
      | .ok (size, frames) => templateEnd frames (n + size) (rest.drop (size - 1))
termination_by s.length

def template (s : Text) : Scan TokenKind :=
  (templateEnd [.body] 1 s.tail).map fun size => (.template, size)

end PlainScript.Scan
