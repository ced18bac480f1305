import PlainScript.Text

/-! Lines and columns, both counted from one. A line ends after a line feed, and a column is a
number of bytes. -/
namespace PlainScript

structure Position where
  line : Nat := 0
  column : Nat := 0
  deriving DecidableEq, Repr, Inhabited

namespace Position

def start : Position := ⟨1, 1⟩

/-- The position after the byte `c`. -/
def next (p : Position) (c : UInt8) : Position :=
  if c == '\n'.toUInt8 then ⟨p.line + 1, 1⟩ else ⟨p.line, p.column + 1⟩

/-- The position after a text. -/
def after (p : Position) (t : Text) : Position := t.foldl next p

@[simp] theorem after_nil (p : Position) : p.after [] = p := rfl
@[simp] theorem after_cons (p : Position) (c : UInt8) (t : Text) :
    p.after (c :: t) = (p.next c).after t := rfl
@[simp] theorem after_append (p : Position) (s t : Text) :
    p.after (s ++ t) = (p.after s).after t := List.foldl_append ..

end Position

end PlainScript
