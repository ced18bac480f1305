import PlainScript.Text.Position

/-! Tokens of the script language. A token knows its spelling, its place, the comments in the gap
before it and whether that gap has a line feed. Literals also carry the value they denote. -/
namespace PlainScript

inductive TokenKind
  | identifier
  | keyword
  | number (value : Float) (isBigInt : Bool)
  | string (value : Text)
  | template
  | regExp
  | punctuator
  | endOfFile
  deriving DecidableEq

def TokenKind.name : TokenKind → Text
  | identifier => "identifier"
  | keyword => "keyword"
  | number .. => "number"
  | string _ => "string"
  | template => "template"
  | regExp => "regexp"
  | punctuator => "punctuator"
  | endOfFile => "eof"

structure Token where
  kind : TokenKind := .endOfFile
  text : Text := []
  newlineBefore : Bool := false
  start : Nat := 0
  stop : Nat := 0
  position : Position := .start
  comments : List Text := []
  deriving DecidableEq

def openBrace : Text := "\x7b"
def closeBrace : Text := "\x7d"

namespace Token

instance : Inhabited Token := ⟨{}⟩

def isPunctuator (t : Token) (p : Text) : Bool := t.kind == .punctuator && t.text == p
def isKeyword (t : Token) (k : Text) : Bool := t.kind == .keyword && t.text == k
def isName (t : Token) (n : Text) : Bool := t.kind == .identifier && t.text == n
def isIdentifier (t : Token) : Bool := t.kind == .identifier
def isEnd (t : Token) : Bool := t.kind == .endOfFile

def isOpening (t : Token) : Bool := t.isPunctuator "(" || t.isPunctuator "[" || t.isPunctuator openBrace
def isClosing (t : Token) : Bool := t.isPunctuator ")" || t.isPunctuator "]" || t.isPunctuator closeBrace

/-- The bracket that closes an opening one. -/
def closer (opener : Text) : Text :=
  if opener == "(" then ")" else if opener == "[" then "]" else closeBrace

end Token

def reservedWords : List Text :=
  (["break", "case", "catch", "class", "const", "continue", "debugger", "default", "delete", "do",
    "else", "export", "extends", "false", "finally", "for", "function", "if", "import", "in",
    "instanceof", "new", "null", "return", "super", "switch", "this", "throw", "true", "try",
    "typeof", "var", "void", "while", "with"] : List String).map Text.ofString

def isReservedWord (word : Text) : Bool := reservedWords.contains word

/-- Every punctuator, none before a longer one that it begins. -/
def punctuators : List Text :=
  ([">>>=", "...", "===", "!==", "**=", "<<=", ">>=", ">>>", "&&=", "||=", "??=",
    "=>", "==", "!=", "<=", ">=", "&&", "||", "??", "?.", "++", "--",
    "+=", "-=", "*=", "/=", "%=", "&=", "|=", "^=", "<<", ">>", "**",
    "\x7b", "\x7d", "(", ")", "[", "]", ";", ",", "<", ">", "+", "-", "*", "/",
    "%", "&", "|", "^", "!", "~", "?", ":", "=", ".", "@"] : List String).map Text.ofString

/-- Why no token can be read at some place. -/
inductive LexFault
  | unterminatedComment
  | strayHash
  | identifierEscape
  | missingDigits
  | malformedExponent
  | identifierAfterNumber
  | hexEscape
  | unicodeEscape
  | unterminatedString
  | unterminatedTemplate
  | unterminatedSubstitution
  | unterminatedRegExp
  | unexpectedByte (c : UInt8)
  deriving DecidableEq, Repr

def LexFault.message : LexFault → Text
  | unterminatedComment => "unterminated block comment"
  | strayHash => "unexpected character '#'"
  | identifierEscape => "unicode escapes in identifiers are not supported"
  | missingDigits => "missing digits in numeric literal"
  | malformedExponent => "malformed exponent in numeric literal"
  | identifierAfterNumber => "identifier starts immediately after numeric literal"
  | hexEscape => "invalid hexadecimal escape sequence"
  | unicodeEscape => "invalid unicode escape sequence"
  | unterminatedString => "unterminated string literal"
  | unterminatedTemplate => "unterminated template literal"
  | unterminatedSubstitution => "unterminated template substitution"
  | unterminatedRegExp => "unterminated regular expression literal"
  | unexpectedByte c =>
    "unexpected character '"
      ++ (if Byte.isPrintable c then [c] else "\\x" ++ Text.ofNat c.toNat) ++ "'"

structure LexError where
  fault : LexFault
  position : Position
  deriving DecidableEq, Repr

/-- A scanner reads from the front of a text. It answers a value and the number of bytes it took,
or a fault and the number of bytes before it. -/
abbrev Scan (α : Type) := Except (LexFault × Nat) (α × Nat)

/-- The same answer given with `n` bytes more in front. -/
def Scan.shift {α : Type} (n : Nat) : Scan α → Scan α
  | .ok (a, k) => .ok (a, n + k)
  | .error (f, k) => .error (f, n + k)

end PlainScript
