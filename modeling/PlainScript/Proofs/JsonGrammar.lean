import PlainScript.Proofs.JsonReading
import Mathlib.Data.List.Chain

/-! The grammar of documents. A string is made of bytes, of escapes of one letter and of code units in four digits; a
value stands between blanks, and so do the parts of a value. -/
namespace PlainScript.Json

open Reader

/-! ### Strings -/

/-- A code unit in four hexadecimal digits. -/
structure CodeUnit where
  digits : Text
  length_eq : digits.length = 4
  isHex : ∀ c ∈ digits, Byte.isHex c = true

namespace CodeUnit

def value (u : CodeUnit) : Nat := Text.hexNumber u.digits

def isHigh (u : CodeUnit) : Bool := Text.isHighSurrogate u.value

def isLow (u : CodeUnit) : Bool := Text.isLowSurrogate u.value

def bytes (u : CodeUnit) : Text := Text.utf8 u.value

/-- The text of a high surrogate with the code unit behind it. -/
def joined (high low : CodeUnit) : Text :=
  if low.isLow then Text.utf8 (Text.joinSurrogates high.value low.value) else high.bytes ++ low.bytes

end CodeUnit

/-- What a string is made of. -/
inductive StringPart
  | byte (c : UInt8) (h : 0x20 ≤ c ∧ c ≠ '"'.toUInt8 ∧ c ≠ '\\'.toUInt8)
  | letter (escape : Char × UInt8) (h : escape ∈ shortEscapes)
  | unit (u : CodeUnit)

namespace StringPart

/-- The part in the text of the document. -/
def text : StringPart → Text
  | byte c _ => [c]
  | letter escape _ => ['\\'.toUInt8, escape.1.toUInt8]
  | unit u => '\\'.toUInt8 :: 'u'.toUInt8 :: u.digits

/-- What the part stands for on its own. -/
def bytes : StringPart → Text
  | byte c _ => [c]
  | letter escape _ => [escape.2]
  | unit u => u.bytes

def IsHigh : StringPart → Prop
  | unit u => u.isHigh = true
  | _ => False

/-- The text between the quotes. -/
def spelled (parts : List StringPart) : Text := parts.flatMap text

/-- What the parts stand for: a high surrogate takes the code unit behind it, whichever that is. -/
def joined : List StringPart → Text
  | [] => []
  | unit high :: unit low :: parts =>
    if high.isHigh then high.joined low ++ joined parts else high.bytes ++ joined (unit low :: parts)
  | part :: parts => part.bytes ++ joined parts

/-- What the parts stand for if a high surrogate takes just a low one that stands behind it. -/
def combined : List StringPart → Text
  | [] => []
  | unit high :: unit low :: parts =>
    if high.isHigh && low.isLow then Text.utf8 (Text.joinSurrogates high.value low.value) ++ combined parts
    else high.bytes ++ combined (unit low :: parts)
  | part :: parts => part.bytes ++ combined parts

/-- The literal with the quotes. -/
def literal (parts : List StringPart) : Text := '"'.toUInt8 :: (spelled parts ++ ['"'.toUInt8])

lemma joined_cons (part : StringPart) (parts : List StringPart)
    (h : part.IsHigh → ∀ u parts', parts ≠ unit u :: parts') : joined (part :: parts) = part.bytes ++ joined parts := by
  cases part with
  | unit high =>
    cases parts with
    | nil => rfl
    | cons next parts =>
      cases next with
      | unit low =>
        have hhigh : ¬ high.isHigh = true := fun hhigh => h hhigh low parts rfl
        rw [joined, if_neg hhigh]
        rfl
      | byte | letter => rfl
  | byte | letter => rfl

lemma joined_pair {high : CodeUnit} (h : high.isHigh = true) (low : CodeUnit) (parts : List StringPart) :
    joined (unit high :: unit low :: parts) = high.joined low ++ joined parts := by
  rw [joined, if_pos h]

lemma combined_cons (part : StringPart) (parts : List StringPart)
    (h : part.IsHigh → ∀ u parts', parts = unit u :: parts' → u.isLow = false) :
    combined (part :: parts) = part.bytes ++ combined parts := by
  cases part with
  | unit high =>
    cases parts with
    | nil => rfl
    | cons next parts =>
      cases next with
      | unit low =>
        have hpair : ¬ (high.isHigh && low.isLow) = true := by
          rw [Bool.and_eq_true]
          exact fun ⟨hhigh, hlow⟩ => Bool.false_ne_true ((h hhigh low parts rfl).symm.trans hlow)
        rw [combined, if_neg hpair]
        rfl
      | byte | letter => rfl
  | byte | letter => rfl

/-- Surrogates are joined as they should be where no high surrogate stands right behind another one. -/
theorem joined_eq_combined {parts : List StringPart} (h : parts.IsChain fun p q => ¬ (p.IsHigh ∧ q.IsHigh)) :
    joined parts = combined parts := by
  fun_induction joined parts with
  | case1 => rfl
  | case2 high low parts hhigh ih =>
    obtain ⟨hlow, hrest⟩ := List.isChain_cons_cons.mp h
    have hsingle : ¬ low.isHigh = true := fun hlow' => hlow ⟨hhigh, hlow'⟩
    have hnext := combined_cons (unit low) parts fun hlow' => absurd hlow' hsingle
    rw [combined, ih hrest.tail, CodeUnit.joined]
    by_cases hpair : low.isLow = true
    · simp [hpair, hhigh]
    · rw [if_neg hpair, if_neg (by simp [hpair]), hnext, List.append_assoc]
      rfl
  | case3 high low parts hhigh ih =>
    rw [combined, if_neg (by simp [hhigh]), ih (List.isChain_cons_cons.mp h).2]
  | case4 part parts hnot ih =>
    have hcombined := combined_cons part parts fun hhigh u parts' heq => by
      cases part with
      | unit high => exact absurd heq (hnot high u parts' rfl)
      | byte | letter => cases hhigh
    rw [hcombined, ih h.tail]

/-- Behind another high surrogate a pair is not joined. -/
example : joined [unit ⟨"d800", rfl, List.all_eq_true.mp rfl⟩, unit ⟨"d800", rfl, List.all_eq_true.mp rfl⟩,
    unit ⟨"dc00", rfl, List.all_eq_true.mp rfl⟩] = [0xED, 0xA0, 0x80, 0xED, 0xA0, 0x80, 0xED, 0xB0, 0x80] := by decide

end StringPart

/-! ### Values -/

section

variable {α : Type} (P : Text → α → Prop)

/-- Blanks, what is to be read, and blanks again. -/
inductive Padded : Text → α → Prop
  | mk {before inside after : Text} {a : α} (hbefore : Blanks before) (h : P inside a) (hafter : Blanks after) :
    Padded (before ++ (inside ++ after)) a

/-- One or more items with commas between them. -/
inductive Items : Text → List α → Prop
  | last {t : Text} {a : α} (h : Padded P t a) : Items t [a]
  | cons {t s : Text} {a : α} {items : List α} (h : Padded P t a) (hs : Items s items) :
    Items (t ++ ','.toUInt8 :: s) (a :: items)

/-- What stands between brackets: blanks, or items. -/
inductive Listed : Text → List α → Prop
  | blank {blanks : Text} (hb : Blanks blanks) : Listed blanks []
  | items {t : Text} {items : List α} (h : Items P t items) : Listed t items

end

/-- A name, a colon and a value. -/
inductive FieldText (P : Text → Value → Prop) : Text → Text × Value → Prop
  | mk {parts : List StringPart} {before after t : Text} {v : Value} (hbefore : Blanks before) (hafter : Blanks after)
    (h : P t v) : FieldText P (StringPart.literal parts ++ (before ++ ':'.toUInt8 :: (after ++ t)))
      (StringPart.joined parts, v)

/-- A value whose parts are as `P` says. -/
inductive ValueText (P : Text → Value → Prop) : Text → Value → Prop
  | null : ValueText P "null" .null
  | bool (b : Bool) : ValueText P (if b then "true" else "false") (.bool b)
  | number {t : Text} (h : NumberText t) : ValueText P t (.number (Decimal.readFloat t))
  | string (parts : List StringPart) : ValueText P (StringPart.literal parts) (.string (StringPart.joined parts))
  | array {inside : Text} {items : List Value} (h : Listed P inside items) :
    ValueText P ('['.toUInt8 :: (inside ++ [']'.toUInt8])) (.array items)
  | object {inside : Text} {fields : List (Text × Value)} (h : Listed (FieldText P) inside fields) :
    ValueText P ('\x7b'.toUInt8 :: (inside ++ ['\x7d'.toUInt8])) (.object (({} : Table Value).insertAll fields))

/-- The text of a value that nests at most so many levels. -/
def Denotes : Nat → Text → Value → Prop
  | 0 => fun _ _ => False
  | room + 1 => ValueText (Denotes room)

/-- The text of a document. -/
def Document : Text → Value → Prop := Padded (Denotes maxDepth)

end PlainScript.Json
