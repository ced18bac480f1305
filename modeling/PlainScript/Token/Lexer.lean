import PlainScript.Token.Numeral
import PlainScript.Token.Quoted
import PlainScript.Token.Template

/-! The tokens of a whole text. The text is a sequence of gaps and tokens: a gap holds blanks and
comments, and its comments and line feeds are kept with the token after it. A line that begins the
text with a hash and an exclamation mark belongs to the first gap. -/
namespace PlainScript

/-- A place in the source: what is left to read, and how much was read. -/
structure Cursor where
  rest : Text
  offset : Nat := 0
  position : Position := .start

namespace Cursor

def advance (c : Cursor) (n : Nat) : Cursor :=
  ⟨c.rest.drop n, c.offset + n, c.position.after (c.rest.take n)⟩

@[simp] theorem advance_rest (c : Cursor) (n : Nat) : (c.advance n).rest = c.rest.drop n := rfl

theorem advance_append (text after : Text) (offset : Nat) (position : Position) :
    advance ⟨text ++ after, offset, position⟩ text.length = ⟨after, offset + text.length, position.after text⟩ := by
  simp [advance]

/-- Runs a scanner here. -/
def scan {α : Type} (c : Cursor) (scanner : Text → Scan α) : Except LexError (α × Nat) :=
  match scanner c.rest with
  | .ok r => .ok r
  | .error (f, n) => .error ⟨f, (c.advance n).position⟩

end Cursor

namespace Scan

/-- The length of the blank in front: one byte of ASCII, a no-break space or a byte order mark. -/
def blankLength : Text → Nat
  | 0xC2 :: 0xA0 :: _ => 2
  | 0xEF :: 0xBB :: 0xBF :: _ => 3
  | c :: _ => if Byte.isBlank c then 1 else 0
  | [] => 0

/-- The length of a block comment after its opening, up to the first `*/`. -/
def blockCommentBody (n : Nat) : Text → Except (LexFault × Nat) Nat
  | [] => .error (.unterminatedComment, n)
  | c :: rest =>
    if c == '*'.toUInt8 && rest.head? == some '/'.toUInt8 then .ok (n + 2)
    else blockCommentBody (n + 1) rest

/-- The length of the comment in front, zero when there is none. -/
def commentLength (s : Text) : Except (LexFault × Nat) Nat :=
  if Text.startsWith s "//" then .ok (s.takeWhile (· != '\n'.toUInt8)).length
  else if Text.startsWith s "/*" then blockCommentBody 2 (s.drop 2)
  else .ok 0

/-- The comments of the gap in front, with its length. -/
def gap (s : Text) : Scan (List Text) :=
  match s with
  | [] => .ok ([], 0)
  | c :: rest =>
    match blankLength (c :: rest) with
    | n + 1 => Scan.shift (n + 1) (gap (rest.drop n))
    | 0 =>
      match commentLength (c :: rest) with
      | .error f => .error f
      | .ok 0 => .ok ([], 0)
      | .ok (n + 1) =>
        match Scan.shift (n + 1) (gap (rest.drop n)) with
        | .error f => .error f
        | .ok (comments, size) => .ok ((c :: rest).take (n + 1) :: comments, size)
termination_by s.length

/-- The kind and the length of the token in front. -/
def token (previous : Option Token) (s : Text) : Scan TokenKind :=
  let c := s.headD 0
  if isNameStart c || c == '#'.toUInt8 then word s
  else if Byte.isDigit c || (c == '.'.toUInt8 && beginsWith s.tail Byte.isDigit) then number s
  else if c == '"'.toUInt8 || c == '\''.toUInt8 then string s
  else if c == '\x60'.toUInt8 then template s
  else if c == '/'.toUInt8 && slashBeginsRegExp previous then regExp s
  else punctuator s

end Scan

/-- The tokens from a place on, given the token before it. The last one is the end of the file. -/
def tokensFrom (previous : Option Token) (place : Cursor) : Except LexError (List Token) :=
  match place.scan Scan.gap with
  | .error e => .error e
  | .ok (comments, gapSize) =>
    let here := place.advance gapSize
    let token (kind : TokenKind) (size : Nat) : Token :=
      { kind, text := here.rest.take size, position := here.position, comments,
        newlineBefore := (place.rest.take gapSize).contains '\n'.toUInt8,
        start := here.offset, stop := here.offset + size }
    match _h : here.rest with
    | [] => .ok [token .endOfFile 0]
    | _ :: rest =>
      match here.scan (Scan.token previous) with
      | .error e => .error e
      | .ok (kind, size) =>
        let t := token kind size
        let next : Cursor := ⟨rest.drop (size - 1), t.stop, here.position.after t.text⟩
        match tokensFrom (some t) next with
        | .error e => .error e
        | .ok tokens => .ok (t :: tokens)
termination_by place.rest.length
decreasing_by
  have := congrArg List.length _h
  simp only [here, Cursor.advance_rest, List.length_drop, List.length_cons] at this ⊢
  omega

/-- The length of a first line that names an interpreter. -/
def interpreterLine (source : Text) : Nat :=
  if Text.startsWith source "#!" then (source.takeWhile (· != '\n'.toUInt8)).length else 0

def tokenize (source : Text) : Except LexError (List Token) :=
  tokensFrom none (Cursor.advance ⟨source, 0, .start⟩ (interpreterLine source))

end PlainScript
