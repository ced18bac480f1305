import PlainScript.Print.Printer
import PlainScript.Proofs.Munch
import Mathlib.Data.List.Chain

/-! Texts cut into pieces, one for each token, with a blank, an indentation or nothing before it. If
neighbours do not run into each other, the lexer finds just the pieces. -/
namespace PlainScript

open Print

/-- What is written before a token. -/
inductive Margin
  | none
  | blank
  | line (indent : Nat)

namespace Margin

def text : Margin → Text
  | none => []
  | blank => [0x20]
  | line indent => 0x0A :: pad indent

def isLine : Margin → Bool
  | line _ => true
  | _ => false

/-- A blank where there is nothing yet. -/
def spaced : Margin → Margin
  | none => blank
  | m => m

@[simp] lemma text_none : none.text = [] := rfl

@[simp] lemma isLine_none : none.isLine = false := rfl

@[simp] lemma text_spaced_none : none.spaced.text = [0x20] := rfl

@[simp] lemma isLine_spaced (m : Margin) : m.spaced.isLine = m.isLine := by cases m <;> rfl

lemma contains_lineFeed (m : Margin) : List.contains m.text '\n'.toUInt8 = m.isLine := by
  cases m with
  | none | blank => rfl
  | line indent => exact List.elem_cons_self

lemma gap_append (m : Margin) {s : Text} (h : Scan.gap s = .ok ([], 0)) :
    Scan.gap (m.text ++ s) = .ok ([], m.text.length) := by
  cases m with
  | none => exact h
  | blank =>
    rw [text, List.singleton_append, Scan.gap_blank, h]
    rfl
  | line indent =>
    rw [text, pad, List.cons_append, Scan.gap_lineFeed, Scan.gap_indented h, Scan.shift, List.length_cons,
      Text.replicate, List.length_replicate, Nat.add_comm]

end Margin

/-- A token that is to be written, with what comes before it. -/
structure Piece where
  kind : TokenKind
  text : Text
  margin : Margin := .none

namespace Piece

def punctuator (text : Text) : Piece := { kind := .punctuator, text }
def keyword (text : Text) : Piece := { kind := .keyword, text }

def spelling (p : Piece) : Text := p.margin.text ++ p.text

/-- The first byte that is written. -/
def first (p : Piece) : UInt8 := p.spelling.headD 0

def token (p : Piece) : Token := { kind := p.kind, text := p.text }

/-- The spelling fits the kind. -/
def Valid (p : Piece) : Prop :=
  match p.kind with
  | .identifier =>
    Scan.IsWord p.text ∧ Scan.gap p.text = .ok ([], 0) ∧ isReservedWord p.text = false
  | .keyword => p.text ∈ reservedWords
  | .string value => p.text = quoted value
  | .punctuator => p.text ∈ punctuators ∧ p.text ≠ "?." ∧ p.text ≠ "=>"
  | _ => False

/-- The piece ends before a byte, whatever follows that. -/
def StopsAt (p : Piece) (c : UInt8) : Prop :=
  match p.kind with
  | .identifier | .keyword => isNamePart c = false ∧ c ≠ '\\'.toUInt8
  | .punctuator =>
    c ∉ Scan.extensions p.text ∧ (p.text = "." → Byte.isDigit c = false) ∧
      (p.text = "/" → c ≠ '/'.toUInt8 ∧ c ≠ '*'.toUInt8)
  | _ => True

/-- Two pieces that may follow one another. A slash may only follow the end of an operand. -/
def Precedes (p q : Piece) : Prop :=
  p.StopsAt q.first ∧ (q.text.head? = some '/'.toUInt8 → slashBeginsRegExp (some p.token) = false)

end Piece

/-- The text of some pieces. -/
def spellings (ps : List Piece) : Text := ps.flatMap Piece.spelling

@[simp] lemma spellings_nil : spellings [] = [] := rfl

@[simp] lemma spellings_cons (p : Piece) (ps : List Piece) :
    spellings (p :: ps) = p.spelling ++ spellings ps := rfl

@[simp] lemma spellings_append (ps qs : List Piece) :
    spellings (ps ++ qs) = spellings ps ++ spellings qs := List.flatMap_append

namespace Piece

lemma first_of_punctuator : ∀ t ∈ punctuators, t ≠ [] ∧
    (isNameStart (t.headD 0) || t.headD 0 == '#'.toUInt8) = false ∧
      Byte.isDigit (t.headD 0) = false ∧ Byte.isBlank (t.headD 0) = false ∧ t.headD 0 < 0x80 ∧
        (t.headD 0 == '"'.toUInt8 || t.headD 0 == '\''.toUInt8) = false ∧
          (t.headD 0 == '\x60'.toUInt8) = false := by
  decide

lemma dot_of_punctuator : ∀ t ∈ punctuators, t.headD 0 = '.'.toUInt8 →
    t = "." ∨ ∃ d rest, t.tail = d :: rest ∧ Byte.isDigit d = false := by
  intro t ht hdot
  have hcases : ∀ t ∈ punctuators, t.headD 0 = '.'.toUInt8 → t = "." ∨ t = "..." := by decide
  rcases hcases t ht hdot with rfl | rfl
  · exact .inl rfl
  · exact .inr ⟨'.'.toUInt8, ".", by decide, by decide⟩

lemma slash_of_punctuator : ∀ t ∈ punctuators, t.headD 0 = '/'.toUInt8 → t = "/" ∨ t = "/=" := by
  decide

variable {p : Piece} {after : Text} {previous : Option Token}

lemma gap_punctuator {t : Text} (ht : t ∈ punctuators)
    (hafter : ∀ c ∈ after.head?, (punctuator t).StopsAt c) :
    Scan.gap (t ++ after) = .ok ([], 0) := by
  obtain ⟨hne, -, -, hblank, hascii, -⟩ := first_of_punctuator t ht
  obtain ⟨c, rest, rfl⟩ := List.exists_cons_of_ne_nil hne
  apply Scan.gap_of_ascii hblank hascii
  intro hc d hd
  rcases slash_of_punctuator _ ht hc with h | h
  · obtain ⟨-, rfl⟩ : c = '/'.toUInt8 ∧ rest = [] := List.cons.inj (h.trans (by decide))
    exact (hafter d hd).2.2 h
  · obtain ⟨-, rfl⟩ : c = '/'.toUInt8 ∧ rest = ['='.toUInt8] := List.cons.inj (h.trans (by decide))
    obtain rfl : '='.toUInt8 = d := by simpa using hd
    decide

lemma token_punctuator {t : Text} (ht : t ∈ punctuators) (hquestion : t ≠ "?.")
    (hafter : ∀ c ∈ after.head?, (punctuator t).StopsAt c)
    (hslash : t.head? = some '/'.toUInt8 → slashBeginsRegExp previous = false) :
    Scan.token previous (t ++ after) = .ok (.punctuator, t.length) := by
  have hread : Scan.punctuator (t ++ after) = .ok (.punctuator, t.length) :=
    Scan.punctuator_append ht (fun c hc => (hafter c hc).1) fun h => absurd h hquestion
  have hdot := dot_of_punctuator t ht
  obtain ⟨hne, hname, hdigit, -, -, hquote, htick⟩ := first_of_punctuator t ht
  obtain ⟨c, rest, rfl⟩ := List.exists_cons_of_ne_nil hne
  simp only [List.headD_cons, List.tail_cons, List.head?_cons] at hdot hname hdigit hquote htick hslash
  have hfraction : (c == '.'.toUInt8 && beginsWith (rest ++ after) Byte.isDigit) = false := by
    by_cases hc : c = '.'.toUInt8
    · rcases hdot hc with h | ⟨d, more, rfl, hd⟩
      · obtain ⟨-, rfl⟩ : c = '.'.toUInt8 ∧ rest = [] := List.cons.inj (h.trans (by decide))
        cases after with
        | nil => simp [beginsWith]
        | cons d more => simp [beginsWith, (hafter d (by simp)).2.1 h]
      · simp [beginsWith, hd]
    · simp [hc]
  have hregExp : (c == '/'.toUInt8 && slashBeginsRegExp previous) = false := by
    by_cases hc : c = '/'.toUInt8
    · simp [hslash (congrArg some hc)]
    · simp [hc]
  rw [List.cons_append, Scan.token_cons]
  simp only [hname, hdigit, hfraction, hquote, htick, hregExp,
    Bool.or_self, Bool.false_eq_true, if_false]
  exact hread

lemma isWord_of_reserved : ∀ t ∈ reservedWords, Scan.IsWord t := by
  have hall : ∀ t ∈ reservedWords, t ≠ [] ∧ isNameStart (t.headD 0) ∧ t.tail.all isNamePart := by decide
  intro t ht
  obtain ⟨hne, hc, hrest⟩ := hall t ht
  obtain ⟨c, rest, rfl⟩ := List.exists_cons_of_ne_nil hne
  exact ⟨[], c, rest, rfl, .inl rfl, hc, List.all_eq_true.mp hrest⟩

lemma gap_reserved {t : Text} (ht : t ∈ reservedWords) : Scan.gap t = .ok ([], 0) := by
  have hall : ∀ t ∈ reservedWords, t ≠ [] ∧ Byte.isBlank (t.headD 0) = false ∧ t.headD 0 < 0x80 ∧
    t.headD 0 ≠ '/'.toUInt8 := by decide
  obtain ⟨hne, hblank, hascii, hslash⟩ := hall t ht
  obtain ⟨c, rest, rfl⟩ := List.exists_cons_of_ne_nil hne
  exact Scan.gap_of_ascii hblank hascii fun hc => absurd hc hslash

lemma token_word {t : Text} (ht : Scan.IsWord t) (hafter : Scan.EndsWord after) :
    Scan.token previous (t ++ after) =
      .ok (if isReservedWord t then .keyword else .identifier, t.length) := by
  have hread := Scan.word_append ht hafter
  obtain ⟨c, rest, rfl, hc⟩ := ht.first
  rw [List.cons_append] at hread ⊢
  rw [Scan.token_word hc, hread]

lemma scan_quoted (value : Text) : Scan.gap (quoted value ++ after) = .ok ([], 0) ∧
    Scan.token previous (quoted value ++ after) = .ok (.string value, (quoted value).length) := by
  have hread := Scan.string_quoted value after
  have hquoted : quoted value ++ after =
      '"'.toUInt8 :: (quotedInside value ++ '"'.toUInt8 :: after) := by
    have hquote : Text.ofString "\"" = ['"'.toUInt8] := by decide
    simp [quoted, hquote]
  rw [hquoted] at hread ⊢
  exact ⟨Scan.gap_of_ascii (by decide) (by decide) fun h => absurd h (by decide), hread⟩

/-- A valid piece is read as its token. -/
lemma Valid.scan (hp : p.Valid) (hafter : ∀ c ∈ after.head?, p.StopsAt c)
    (hslash : p.text.head? = some '/'.toUInt8 → slashBeginsRegExp previous = false) :
    Scan.gap (p.text ++ after) = .ok ([], 0) ∧
      Scan.token previous (p.text ++ after) = .ok (p.kind, p.text.length) := by
  obtain ⟨kind, text, margin⟩ := p
  cases kind with
  | identifier =>
    obtain ⟨hword, hgap, hreserved⟩ := hp
    refine ⟨Scan.gap_word hword hgap hafter, ?_⟩
    rw [token_word hword hafter, hreserved]
    rfl
  | keyword =>
    have hword := isWord_of_reserved text hp
    refine ⟨Scan.gap_word hword (gap_reserved hp) hafter, ?_⟩
    have hreserved : isReservedWord text = true := List.contains_iff_mem.mpr hp
    rw [token_word hword hafter, hreserved]
    rfl
  | string value =>
    obtain rfl : text = quoted value := hp
    exact scan_quoted value
  | punctuator =>
    exact ⟨gap_punctuator hp.1 hafter, token_punctuator hp.1 hp.2.1 hafter hslash⟩
  | _ => exact hp.elim

lemma Valid.isPlain (hp : p.Valid) (h : p.kind = .punctuator) : p.text ≠ "=>" := by
  obtain ⟨kind, text, margin⟩ := p
  obtain rfl : kind = .punctuator := h
  exact hp.2.2

lemma Valid.text_ne_nil (hp : p.Valid) : p.text ≠ [] := by
  obtain ⟨kind, text, margin⟩ := p
  cases kind with
  | identifier => obtain ⟨c, rest, h, -⟩ := hp.1.first; simp_all
  | keyword => obtain ⟨c, rest, h, -⟩ := (isWord_of_reserved text hp).first; simp_all
  | string value =>
    obtain rfl : text = quoted value := hp
    exact fun h => absurd (List.append_eq_nil_iff.mp h).2 (by decide)
  | punctuator => exact (first_of_punctuator text hp.1).1
  | _ => exact hp.elim

end Piece

/-- A token of a text without comments and arrows. -/
structure Lexeme where
  kind : TokenKind
  text : Text
  start : Nat
  stop : Nat
  position : Position
  isPlain : kind = .punctuator → text ≠ "=>"
  startsLine : Bool := false

namespace Lexeme

def token (t : Lexeme) : Token :=
  { kind := t.kind, text := t.text, newlineBefore := t.startsLine, start := t.start, stop := t.stop,
    position := t.position }

end Lexeme

/-- The tokens `ts` are some pieces and then `rest`. Behind the first one, which may stand anywhere, a token starts a
line where its piece does. -/
inductive Spells : List Piece → List Lexeme → List Lexeme → Prop
  | nil (rest : List Lexeme) : Spells [] rest rest
  | cons {p : Piece} {ps : List Piece} {t : Lexeme} {ts rest : List Lexeme} (hkind : t.kind = p.kind)
      (htext : t.text = p.text) (hlines : ∀ q ∈ ps.head?, ∀ u ∈ ts.head?, u.startsLine = q.margin.isLine)
      (h : Spells ps ts rest) : Spells (p :: ps) (t :: ts) rest

lemma slashBeginsRegExp_congr {t u : Token} (hkind : t.kind = u.kind) (htext : t.text = u.text) :
    slashBeginsRegExp (some t) = slashBeginsRegExp (some u) := by
  simp [slashBeginsRegExp, hkind, htext]

lemma tokensFrom_nil (previous : Option Token) (offset : Nat) (position : Position) :
    tokensFrom previous ⟨[], offset, position⟩ =
      .ok [(⟨.endOfFile, [], offset, offset, position, nofun, false⟩ : Lexeme).token] := by
  rw [tokensFrom]
  simp only [Cursor.scan, Scan.gap_nil]
  split
  · rfl
  · next h => simp [Cursor.advance] at h

/-- One token behind a margin. -/
lemma tokensFrom_append {previous : Option Token} (m : Margin) {text after : Text} {kind : TokenKind}
    (offset : Nat) (position : Position) (hgap : Scan.gap (text ++ after) = .ok ([], 0)) (htext : text ≠ [])
    (htoken : Scan.token previous (text ++ after) = .ok (kind, text.length))
    (hplain : kind = .punctuator → text ≠ "=>") {ts : List Token}
    (hrest : tokensFrom (some (⟨kind, text, offset + m.text.length, offset + m.text.length + text.length,
      position.after m.text, hplain, m.isLine⟩ : Lexeme).token)
        ⟨after, offset + m.text.length + text.length, (position.after m.text).after text⟩ = .ok ts) :
    tokensFrom previous ⟨m.text ++ (text ++ after), offset, position⟩ =
      .ok ((⟨kind, text, offset + m.text.length, offset + m.text.length + text.length, position.after m.text, hplain,
        m.isLine⟩ : Lexeme).token :: ts) := by
  obtain ⟨c, rest, rfl⟩ := List.exists_cons_of_ne_nil htext
  have hadvance : Cursor.advance ⟨m.text ++ (c :: rest ++ after), offset, position⟩ m.text.length =
      ⟨c :: (rest ++ after), offset + m.text.length, position.after m.text⟩ := Cursor.advance_append ..
  have htake : (m.text ++ (c :: rest ++ after)).take m.text.length = m.text := List.take_left
  rw [tokensFrom]
  simp only [Cursor.scan, m.gap_append hgap, hadvance, htake, m.contains_lineFeed]
  rw [List.cons_append] at htoken
  simp only [htoken]
  split
  · next h => simp at h
  · next d more h =>
    obtain ⟨-, rfl⟩ := List.cons.inj ((congrArg Cursor.rest hadvance).symm.trans h)
    have htext : (c :: (rest ++ after)).take (c :: rest).length = c :: rest := by simp
    have hafter : (rest ++ after).drop ((c :: rest).length - 1) = after := by simp
    simp only [htext, hafter]
    simp only [Lexeme.token] at hrest
    rw [hrest]
    rfl

/-- The lexer finds the pieces that were written. -/
theorem tokensFrom_spellings {ps : List Piece} (hvalid : ∀ p ∈ ps, p.Valid)
    (hchain : ps.IsChain Piece.Precedes) (previous : Option Token)
    (hslash : ∀ p ∈ ps.head?, p.text.head? = some '/'.toUInt8 → slashBeginsRegExp previous = false)
    (offset : Nat) (position : Position) :
    ∃ (ts : List Lexeme) (last : Lexeme), Spells ps ts [] ∧ last.kind = .endOfFile ∧
      (∀ p ∈ ps.head?, ∀ t ∈ ts.head?, t.startsLine = p.margin.isLine) ∧
      tokensFrom previous ⟨spellings ps, offset, position⟩ = .ok (ts.map Lexeme.token ++ [last.token]) := by
  induction ps generalizing previous offset position with
  | nil =>
    exact ⟨[], ⟨.endOfFile, [], offset, offset, position, nofun, false⟩, .nil [], rfl, by simp, tokensFrom_nil ..⟩
  | cons p ps ih =>
    have hp := hvalid p (by simp)
    obtain ⟨hnext, hchain⟩ := List.isChain_cons.mp hchain
    have hafter : ∀ c ∈ (spellings ps).head?, p.StopsAt c := by
      intro c hc
      cases ps with
      | nil => simp at hc
      | cons q qs =>
        have hq := (hnext q (by simp)).1
        have hne : q.spelling ≠ [] := List.append_ne_nil_of_right_ne_nil _ (hvalid q (by simp)).text_ne_nil
        obtain ⟨d, more, hd⟩ := List.exists_cons_of_ne_nil hne
        simp_all [Piece.first]
    obtain ⟨hgap, htoken⟩ := hp.scan hafter (hslash p (by simp))
    let t : Lexeme := ⟨p.kind, p.text, offset + p.margin.text.length,
      offset + p.margin.text.length + p.text.length, position.after p.margin.text, hp.isPlain, p.margin.isLine⟩
    have hslash (q : Piece) (hq : q ∈ ps.head?) (hs : q.text.head? = some '/'.toUInt8) :
        slashBeginsRegExp (some t.token) = false :=
      (slashBeginsRegExp_congr rfl rfl).trans ((hnext q hq).2 hs)
    obtain ⟨ts, last, hspells, hlast, hlines, hrest⟩ := ih (fun q hq => hvalid q (by simp [hq]))
      hchain (some t.token) hslash t.stop (t.position.after t.text)
    refine ⟨t :: ts, last, .cons rfl rfl hlines hspells, hlast, by simp [t], ?_⟩
    rw [spellings_cons, Piece.spelling, List.append_assoc]
    exact tokensFrom_append p.margin offset position hgap hp.text_ne_nil htoken hp.isPlain hrest

end PlainScript
