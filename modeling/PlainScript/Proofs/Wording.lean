import PlainScript.Proofs.Layout

/-! The pieces of an operator expression can be told apart. An operand begins and ends with pieces that
do not run into the operators, brackets and commas around it. -/
namespace PlainScript

open Print

namespace Piece

/-- The words that are operands or begin one. -/
def operandWords : List Text := ["this", "null", "true", "false"]

def prefixWords : List Text := ["typeof", "void", "delete", "new"]

/-- The piece can be the first one of an operand. -/
def BeginsOperand (p : Piece) : Prop :=
  p.margin = .none ∧
    match p.kind with
    | .identifier => p.text ∉ contextualNames
    | .string _ => True
    | .keyword => p.text ∈ operandWords ∨ p.text ∈ prefixWords
    | .punctuator => p.text ∈ (["(", "[", "!", "~", "+", "-", "++", "--"] : List Text)
    | _ => False

/-- The piece can be the last one of an operand. -/
def EndsOperand (p : Piece) : Prop :=
  match p.kind with
  | .identifier | .string _ => True
  | .keyword => p.text ∈ operandWords
  | .punctuator => p.text ∈ ([")", "]", "++", "--"] : List Text)
  | _ => False

/-- The bytes that may stand directly behind an operand. -/
def separators : Text := [0x20, 0x0A, ')'.toUInt8, ']'.toUInt8, ','.toUInt8, ';'.toUInt8, '('.toUInt8,
  '['.toUInt8, '.'.toUInt8, '+'.toUInt8, '-'.toUInt8]

variable {p q : Piece}

lemma EndsOperand.stopsAt (h : p.EndsOperand) {c : UInt8} (hc : c ∈ separators) : p.StopsAt c := by
  have hname : ∀ c ∈ separators, isNamePart c = false ∧ c ≠ '\\'.toUInt8 := by decide +kernel
  have hpunct : ∀ t ∈ ([")", "]", "++", "--"] : List Text), ∀ c ∈ separators,
      (punctuator t).StopsAt c := by
    simp only [StopsAt, punctuator]
    decide +kernel
  obtain ⟨kind, text, margin⟩ := p
  cases kind with
  | identifier => exact hname c hc
  | keyword => exact hname c hc
  | punctuator => exact hpunct text h c hc
  | string value => trivial
  | _ => exact h.elim

/-- The bytes that a margin begins with. -/
def blanks : Text := [0x20, 0x0A]

lemma Valid.stopsAt_blank (h : p.Valid) {c : UInt8} (hc : c ∈ blanks) : p.StopsAt c := by
  have hname : ∀ c ∈ blanks, isNamePart c = false ∧ c ≠ '\\'.toUInt8 := by decide +kernel
  have hpunct : ∀ t ∈ punctuators, ∀ c ∈ blanks, (punctuator t).StopsAt c := by
    simp only [StopsAt, punctuator]
    decide +kernel
  obtain ⟨kind, text, margin⟩ := p
  cases kind with
  | identifier => exact hname c hc
  | keyword => exact hname c hc
  | punctuator => exact hpunct text h.1 c hc
  | string value => trivial
  | _ => exact h.elim

lemma EndsOperand.slash (h : p.EndsOperand) : slashBeginsRegExp (some p.token) = false := by
  obtain ⟨kind, text, margin⟩ := p
  cases kind with
  | identifier => rfl
  | string value => rfl
  | keyword =>
    have hall : ∀ t ∈ operandWords, slashBeginsRegExp (some (keyword t).token) = false := by decide
    exact hall text h
  | punctuator =>
    have hall : ∀ t ∈ ([")", "]", "++", "--"] : List Text),
        slashBeginsRegExp (some (punctuator t).token) = false := by decide
    exact hall text h
  | _ => exact h.elim

/-- No operand begins with a slash or an equals sign. -/
lemma BeginsOperand.first_ne (h : p.BeginsOperand) (hp : p.Valid) :
    p.text.head? ≠ some '/'.toUInt8 ∧ p.first ≠ '='.toUInt8 := by
  obtain ⟨kind, text, margin⟩ := p
  obtain ⟨rfl, h⟩ := h
  cases kind with
  | identifier =>
    obtain ⟨c, rest, rfl, hc⟩ := Scan.IsWord.first hp.1
    refine ⟨?_, ?_⟩
    · rintro h
      obtain rfl : c = '/'.toUInt8 := by simpa using h
      revert hc
      decide
    · rintro (rfl : c = '='.toUInt8)
      revert hc
      decide
  | string value =>
    obtain rfl : text = quoted value := hp
    exact ⟨fun h => absurd (Option.some.inj h) (by decide), (by decide : '"'.toUInt8 ≠ '='.toUInt8)⟩
  | keyword =>
    have hall : ∀ t ∈ reservedWords, t.head? ≠ some '/'.toUInt8 ∧ (keyword t).first ≠ '='.toUInt8 := by
      decide
    exact hall text hp
  | punctuator =>
    have hall : ∀ t ∈ (["(", "[", "!", "~", "+", "-", "++", "--"] : List Text),
        t.head? ≠ some '/'.toUInt8 ∧ (punctuator t).first ≠ '='.toUInt8 := by decide
    exact hall text h
  | _ => exact hp.elim

/-- Behind an opening bracket or a comma there may be anything but a slash. -/
lemma precedes_of_opening {t : Text} (ht : t ∈ (["(", "[", ","] : List Text))
    (hq : q.text.head? ≠ some '/'.toUInt8) : (punctuator t).Precedes q := by
  have hstops : ∀ t ∈ (["(", "[", ","] : List Text), Scan.extensions t = [] ∧ t ≠ "." ∧ t ≠ "/" := by
    decide
  obtain ⟨hext, hdot, hslash⟩ := hstops t ht
  refine ⟨⟨?_, fun h => absurd h hdot, fun h => absurd h hslash⟩, fun h => absurd h hq⟩
  simp [punctuator, hext]

end Piece

/-- The first of two tokens, and the gap before it. -/
lemma tokensFrom_first {previous : Option Token} {place : Cursor} {t u : Token} {ts : List Token}
    (h : tokensFrom previous place = .ok (t :: u :: ts)) :
    ∃ comments g c rest size, Scan.gap place.rest = .ok (comments, g) ∧
      place.rest.drop g = c :: rest ∧ Scan.token previous (c :: rest) = .ok (t.kind, size) ∧
        t.text = (c :: rest).take size := by
  rw [tokensFrom] at h
  cases hgap : Scan.gap place.rest with
  | error e => simp [Cursor.scan, hgap] at h
  | ok r =>
    obtain ⟨comments, g⟩ := r
    simp only [Cursor.scan, hgap] at h
    split at h
    · simp at h
    · next c rest hrest =>
      replace hrest : place.rest.drop g = c :: rest := hrest
      simp only [Cursor.advance_rest, hrest] at h
      cases htoken : Scan.token previous (c :: rest) with
      | error e => simp [htoken] at h
      | ok r =>
        obtain ⟨kind, size⟩ := r
        simp only [htoken] at h
        split at h
        · simp at h
        · obtain ⟨rfl, -⟩ := List.cons.inj (Except.ok.inj h)
          exact ⟨comments, g, c, rest, size, rfl, hrest, htoken, rfl⟩

/-- A name is valid as an identifier. -/
lemma IsName.valid {name : Text} (h : IsName name) :
    Piece.Valid { kind := .identifier, text := name } := by
  obtain ⟨t, last, hread, hkind, htext⟩ := h
  obtain ⟨comments, g, c, rest, size, hgap, hrest, htoken, htake⟩ := tokensFrom_first hread
  rw [Cursor.advance_rest, List.drop_drop] at hrest
  have hlength := congrArg List.length hrest
  have hsize := congrArg List.length (htext.symm.trans htake)
  rw [List.length_drop, List.length_cons] at hlength
  rw [List.length_take, List.length_cons] at hsize
  obtain ⟨hline, rfl⟩ : interpreterLine name = 0 ∧ g = 0 := by
    simp only at hlength
    omega
  rw [hline] at hrest hgap
  obtain rfl : name = c :: rest := hrest
  obtain ⟨rfl, -⟩ := Scan.of_gap_zero hgap
  rw [hkind] at htoken
  obtain ⟨hstart, hword⟩ := Scan.word_of_identifier htoken
  have hisWord := Scan.isWord_of_word hstart hword (by
    simp only [List.length_cons] at hsize ⊢
    omega)
  refine ⟨hisWord, hgap, ?_⟩
  have hagain : Scan.word (c :: rest ++ []) = _ :=
    Scan.word_append hisWord (by simp [Scan.EndsWord])
  rw [List.append_nil, hword] at hagain
  cases hreserved : isReservedWord (c :: rest) <;> simp [hreserved] at hagain ⊢

/-- Pieces that the lexer tells apart. -/
structure Tidy (ps : List Piece) : Prop where
  valid : ∀ p ∈ ps, p.Valid
  chain : ps.IsChain Piece.Precedes

namespace Tidy

variable {p : Piece} {ps qs : List Piece}

lemma nil : Tidy [] := ⟨by simp, .nil⟩

lemma single (h : p.Valid) : Tidy [p] := ⟨by simpa using h, .singleton p⟩

lemma append (hp : Tidy ps) (hq : Tidy qs)
    (h : ∀ p ∈ ps.getLast?, ∀ q ∈ qs.head?, p.Precedes q) : Tidy (ps ++ qs) :=
  ⟨fun p hm => (List.mem_append.mp hm).elim (hp.valid p) (hq.valid p),
    List.isChain_append.mpr ⟨hp.chain, hq.chain, h⟩⟩

lemma cons (hp : p.Valid) (hq : Tidy qs) (h : ∀ q ∈ qs.head?, p.Precedes q) : Tidy (p :: qs) :=
  append (single hp) hq (by simpa using h)

lemma spaced (h : Tidy ps) : Tidy (spaced ps) := by
  cases ps with
  | nil => exact nil
  | cons p ps =>
    obtain ⟨hnext, hchain⟩ := List.isChain_cons.mp h.chain
    exact cons (h.valid p (by simp)) ⟨fun q hq => h.valid q (by simp [hq]), hchain⟩ hnext

end Tidy

namespace Piece

variable {p q : Piece}

lemma EndsOperand.precedes (h : p.EndsOperand) (hq : q.first ∈ separators) : p.Precedes q :=
  ⟨h.stopsAt hq, fun _ => h.slash⟩

lemma first_spaced (q : Piece) : ({ q with margin := q.margin.spaced } : Piece).first ∈ blanks := by
  obtain ⟨kind, text, margin⟩ := q
  cases margin with
  | none | blank => exact List.mem_cons_self
  | line indent => exact List.mem_cons_of_mem _ List.mem_cons_self

lemma Valid.precedes_spaced (hp : p.Valid) (hq : q.text.head? ≠ some '/'.toUInt8) :
    p.Precedes { q with margin := q.margin.spaced } :=
  ⟨hp.stopsAt_blank q.first_spaced, fun h => absurd h hq⟩

end Piece

/-- Pieces that can stand between brackets. -/
structure Enclosable (ps : List Piece) : Prop where
  tidy : Tidy ps
  begins : ∀ p ∈ ps.head?, p.text.head? ≠ some '/'.toUInt8
  ends : ∀ p ∈ ps.getLast?, p.EndsOperand ∨ p.kind = .punctuator ∧ p.text = ","

/-- Pieces that can stand as an operand. -/
structure Sound (ps : List Piece) : Prop where
  tidy : Tidy ps
  begins : ∃ p ∈ ps.head?, p.BeginsOperand
  ends : ∃ p ∈ ps.getLast?, p.EndsOperand

lemma ends_spaced {ps : List Piece} (h : ∃ p ∈ ps.getLast?, p.EndsOperand) :
    ∃ p ∈ (spaced ps).getLast?, p.EndsOperand := by
  obtain ⟨p, hp, hends⟩ := h
  obtain _ | ⟨q, _ | ⟨r, rest⟩⟩ := ps
  · simp at hp
  · obtain rfl : q = p := by simpa using hp
    exact ⟨_, rfl, hends⟩
  · exact ⟨p, by simpa [spaced] using hp, hends⟩

lemma ends_append (ps : List Piece) {qs : List Piece} (h : ∃ p ∈ qs.getLast?, p.EndsOperand) :
    ∃ p ∈ (ps ++ qs).getLast?, p.EndsOperand := by
  obtain ⟨p, hp, hends⟩ := h
  exact ⟨p, by simp [List.getLast?_append, Option.mem_def.mp hp], hends⟩

lemma valid_bracket : ∀ t ∈ (["(", "[", ")", "]", ",", "."] : List Text),
    (Piece.punctuator t).Valid := by
  simp only [Piece.Valid, Piece.punctuator]
  decide

lemma closing_bracket : ∀ t ∈ ([")", "]"] : List Text),
    (Piece.punctuator t).first ∈ Piece.separators ∧ t.head? ≠ some '/'.toUInt8 ∧
      (Piece.punctuator t).EndsOperand := by
  simp only [Piece.EndsOperand, Piece.punctuator]
  decide

lemma Enclosable.inBrackets {ps : List Piece} (h : Enclosable ps) {opening closing : Text}
    (ho : opening ∈ (["(", "["] : List Text)) (hc : closing ∈ ([")", "]"] : List Text)) :
    Tidy (inBrackets opening ps closing) := by
  obtain ⟨hfirst, hslash, -⟩ := closing_bracket closing hc
  have hopen : opening ∈ (["(", "[", ","] : List Text) := by simp at ho ⊢; tauto
  refine .cons (valid_bracket opening (by simp at ho ⊢; tauto)) (.append h.tidy
    (.single (valid_bracket closing (by simp at hc ⊢; tauto))) fun p hp q hq => ?_) fun q hq => ?_
  · obtain rfl : Piece.punctuator closing = q := by simpa using hq
    rcases h.ends p hp with hends | ⟨hkind, htext⟩
    · exact hends.precedes hfirst
    · obtain ⟨kind, text, margin⟩ := p
      obtain rfl : kind = .punctuator := hkind
      obtain rfl : text = "," := htext
      exact Piece.precedes_of_opening (t := ",") (by simp) (q := .punctuator closing) hslash
  · apply Piece.precedes_of_opening hopen
    rw [List.head?_append] at hq
    cases hps : ps.head? with
    | none =>
      obtain rfl : Piece.punctuator closing = q := by simpa [hps] using hq
      exact hslash
    | some p =>
      obtain rfl : p = q := by simpa [hps] using hq
      exact h.begins p hps

lemma ends_inBrackets {opening closing : Text} (ps : List Piece)
    (hc : closing ∈ ([")", "]"] : List Text)) :
    ∃ p ∈ (inBrackets opening ps closing).getLast?, p.EndsOperand :=
  ⟨.punctuator closing, by simp [inBrackets, List.getLast?_cons], (closing_bracket closing hc).2.2⟩

namespace Sound

variable {ps qs : List Piece} {p : Piece}

lemma enclosable (h : Sound ps) : Enclosable ps := by
  refine ⟨h.tidy, fun p hp => ?_, fun p hp => .inl ?_⟩
  · obtain ⟨q, hq, hbegins⟩ := h.begins
    obtain rfl := Option.mem_unique hp hq
    exact (hbegins.first_ne (h.tidy.valid p (List.mem_of_mem_head? hp))).1
  · obtain ⟨q, hq, hends⟩ := h.ends
    exact Option.mem_unique hp hq ▸ hends

/-- Behind an operand there may be pieces that do not run into it. -/
lemma append (h : Sound ps) (hq : Tidy qs) (hends : ∃ p ∈ qs.getLast?, p.EndsOperand)
    (hfirst : ∀ q ∈ qs.head?, q.first ∈ Piece.separators) : Sound (ps ++ qs) where
  tidy := h.tidy.append hq fun p hp q hm => by
    obtain ⟨r, hr, hends⟩ := h.ends
    exact (Option.mem_unique hp hr ▸ hends).precedes (hfirst q hm)
  begins := by
    obtain ⟨p, hp, hbegins⟩ := h.begins
    exact ⟨p, by simp [List.head?_append, Option.mem_def.mp hp], hbegins⟩
  ends := ends_append _ hends

lemma parenthesized (h : Sound ps) : Sound (inBrackets "(" ps ")") where
  tidy := h.enclosable.inBrackets (by simp) (by simp)
  begins := ⟨.punctuator "(", rfl, rfl, by simp [Piece.punctuator]⟩
  ends := ends_inBrackets ps (by simp)

lemma within {x : Layout} (h : Sound x.pieces) (least : Nat) : Sound (x.within least) := by
  unfold Layout.within
  split
  · exact h.parenthesized
  · exact h

lemma spaced_head (h : Sound ps) (hp : p.Valid) : ∀ q ∈ (spaced ps).head?, p.Precedes q := by
  obtain ⟨r, hr, hbegins⟩ := h.begins
  obtain ⟨rest, rfl⟩ := List.head?_eq_some_iff.mp hr
  rintro q hq
  obtain rfl : _ = q := Option.some.inj hq
  exact hp.precedes_spaced (hbegins.first_ne (h.tidy.valid r (by simp))).1

/-- An operand, a piece with blanks around it and another operand. -/
lemma joined (hl : Sound ps) (hr : Sound qs) (hp : p.Valid) :
    Sound (ps ++ spaced [p] ++ spaced qs) := by
  rw [List.append_assoc]
  refine hl.append (.cons (p := { p with margin := p.margin.spaced }) hp hr.tidy.spaced (hr.spaced_head hp))
    (ends_append _ (ends_spaced hr.ends)) fun q hq => ?_
  obtain rfl : _ = q := Option.some.inj hq
  exact (by decide : Piece.blanks ⊆ Piece.separators) p.first_spaced

/-- A piece in front of an operand. -/
lemma cons (h : Sound ps) (hp : p.Valid) (hbegins : p.BeginsOperand)
    (hnext : ∀ q ∈ ps.head?, p.Precedes q) : Sound (p :: ps) :=
  ⟨.cons hp h.tidy hnext, ⟨p, rfl, hbegins⟩, ends_append [p] h.ends⟩

/-- A piece with a blank behind it in front of an operand. -/
lemma cons_spaced (h : Sound ps) (hp : p.Valid) (hbegins : p.BeginsOperand) :
    Sound (p :: spaced ps) :=
  ⟨.cons hp h.tidy.spaced (h.spaced_head hp), ⟨p, rfl, hbegins⟩,
    ends_append [p] (ends_spaced h.ends)⟩

lemma bracketed (h : Sound ps) {opening closing : Text} (hq : Enclosable qs)
    (ho : opening ∈ (["(", "["] : List Text)) (hc : closing ∈ ([")", "]"] : List Text)) :
    Sound (ps ++ inBrackets opening qs closing) := by
  apply h.append (hq.inBrackets ho hc) (ends_inBrackets qs hc)
  intro q hm
  obtain rfl : Piece.punctuator opening = q := Option.some.inj hm
  have hfirst : ∀ t ∈ (["(", "["] : List Text), (Piece.punctuator t).first ∈ Piece.separators := by
    decide
  exact hfirst opening ho

end Sound

/-! ### Lists -/

lemma Enclosable.nil : Enclosable [] := ⟨.nil, by simp, by simp⟩

lemma Enclosable.comma {ps qs : List Piece} (hp : Enclosable ps)
    (hends : ∀ p ∈ ps.getLast?, p.EndsOperand) (hq : Enclosable qs) :
    Enclosable (ps ++ .punctuator "," :: spaced qs) := by
  have hcomma : (Piece.punctuator ",").Valid := valid_bracket _ (by simp)
  have hseparator : (Piece.punctuator ",").first ∈ Piece.separators := by decide
  have hnext : ∀ q ∈ (spaced qs).head?, (Piece.punctuator ",").Precedes q := by
    intro q hm
    obtain _ | ⟨r, rest⟩ := qs
    · simp [spaced] at hm
    · obtain rfl : _ = q := Option.some.inj hm
      exact hcomma.precedes_spaced (hq.begins r rfl)
  refine ⟨hp.tidy.append (.cons hcomma hq.tidy.spaced hnext) fun p hm q hq => ?_, fun p hm => ?_,
    fun p hm => ?_⟩
  · obtain rfl : _ = q := Option.some.inj hq
    exact (hends p hm).precedes hseparator
  · obtain _ | ⟨r, rest⟩ := ps
    · obtain rfl : _ = p := Option.some.inj hm
      decide
    · exact hp.begins p hm
  · obtain _ | ⟨r, _ | ⟨r', rest⟩⟩ := qs
    · obtain rfl : Piece.punctuator "," = p := by simpa [spaced] using hm
      exact .inr ⟨rfl, rfl⟩
    · obtain rfl : { r with margin := r.margin.spaced } = p := by simpa [spaced] using hm
      exact hq.ends r rfl
    · exact hq.ends p (by simpa [spaced, List.getLast?_append] using hm)

lemma enclosable_list {xs : List (Option Layout)}
    (h : ∀ x, some x ∈ xs → Sound x.pieces) : Enclosable (Layout.list xs) := by
  induction xs using Layout.list.induct with
  | case1 => exact .nil
  | case2 x => exact ((h x (by simp)).within _).enclosable
  | case3 rest ih =>
    exact Enclosable.nil.comma (by simp) (ih fun x hx => h x (by simp [hx]))
  | case4 x rest hrest ih =>
    have hx := (h x (by simp)).within Level.assignment
    rw [Layout.list]
    · exact hx.enclosable.comma (fun p hp => hx.ends.elim fun q hq => Option.mem_unique hp hq.1 ▸ hq.2)
        (ih fun y hy => h y (by simp [hy]))
    · exact hrest

/-! ### Operator expressions -/

lemma sound_single {p : Piece} (hp : p.Valid) (hbegins : p.BeginsOperand) (hends : p.EndsOperand) :
    Sound [p] :=
  ⟨.single hp, ⟨p, rfl, hbegins⟩, ⟨p, rfl, hends⟩⟩

lemma sound_word : ∀ t ∈ Piece.operandWords, Sound [.keyword t] := by
  have hall : ∀ t ∈ Piece.operandWords, t ∈ reservedWords := by decide
  exact fun t ht => sound_single (hall t ht) ⟨rfl, .inl ht⟩ ht

lemma operatorPiece_sign : ∀ op ∈ signs,
    operatorPiece op = .punctuator op ∧ (Piece.punctuator op).Valid ∧
      (Piece.punctuator op).BeginsOperand := by
  have hall : ∀ op ∈ signs, isReservedWord op = false ∧ (op ∈ punctuators ∧ op ≠ "?." ∧ op ≠ "=>") ∧
      op ∈ (["(", "[", "!", "~", "+", "-", "++", "--"] : List Text) := by decide
  intro op hop
  obtain ⟨hword, hvalid, hbegins⟩ := hall op hop
  exact ⟨by simp [operatorPiece, hword], hvalid, rfl, hbegins⟩

lemma operatorPiece_word : ∀ op ∈ unaryWords,
    operatorPiece op = .keyword op ∧ (Piece.keyword op).Valid ∧ (Piece.keyword op).BeginsOperand ∧
      isWordOperator op = true := by
  have hall : ∀ op ∈ unaryWords, isReservedWord op = true ∧ op ∈ reservedWords ∧
      op ∈ Piece.prefixWords ∧ isWordOperator op = true := by decide
  intro op hop
  obtain ⟨hword, hvalid, hbegins, hoperator⟩ := hall op hop
  exact ⟨by simp [operatorPiece, hword], hvalid, ⟨rfl, .inr hbegins⟩, hoperator⟩

lemma head?_spellings {p : Piece} {ps : List Piece} (hp : p.Valid) (h : ps.head? = some p) :
    (spellings ps).head? = some p.first := by
  obtain ⟨rest, rfl⟩ := List.head?_eq_some_iff.mp h
  obtain ⟨c, more, hc⟩ := List.exists_cons_of_ne_nil (List.append_ne_nil_of_right_ne_nil p.margin.text hp.text_ne_nil)
  rw [spellings_cons, Piece.first, Piece.spelling, hc]
  rfl

/-- A sign is kept apart from an operand that begins with the same sign. -/
lemma Sound.signed {x : Layout} {op : Text} (h : Sound x.pieces) (hop : op ∈ signs) :
    Sound (.punctuator op :: x.operand op) := by
  obtain ⟨-, hvalid, hbegins⟩ := operatorPiece_sign op hop
  have hx := h.within Level.unary
  unfold Layout.operand
  simp only
  split
  · exact hx.cons_spaced hvalid hbegins
  · next happart =>
    have hne : ∀ op ∈ signs, op ≠ "." ∧ op ≠ "/" := by decide
    refine hx.cons hvalid hbegins fun q hq => ⟨⟨fun hext => ?_, fun hdot =>
      absurd hdot (hne op hop).1, fun hslash => absurd hslash (hne op hop).2⟩, fun hslash =>
        absurd hslash (hx.enclosable.begins q hq)⟩
    have hall : ∀ op ∈ signs, ∀ c ∈ Scan.extensions op, c = '='.toUInt8 ∨
        (op == ("-" : Text) || op == ("+" : Text)) = true ∧ op.head? = some c := by
      decide +kernel
    have hqvalid := hx.tidy.valid q (List.mem_of_mem_head? hq)
    obtain ⟨r, hr, hfirst⟩ := hx.begins
    obtain rfl := Option.mem_unique hq hr
    rcases hall op hop _ hext with heq | ⟨hsign, hhead⟩
    · exact (hfirst.first_ne hqvalid).2 heq
    · apply happart
      rw [head?_spellings hqvalid hq, hhead, hsign]
      simp

lemma operatorPiece_binary {op : Text} (h : operatorLevel op ≠ 0) : (operatorPiece op).Valid := by
  have hall : ∀ op ∈ binaryOperators,
      if isReservedWord op then op ∈ reservedWords
      else op ∈ punctuators ∧ op ≠ "?." ∧ op ≠ "=>" := by decide
  have hop := hall op (mem_binaryOperators h)
  unfold operatorPiece
  split at hop
  · next hword => rw [if_pos hword]; exact hop
  · next hword => rw [if_neg hword]; exact hop

lemma valid_update : ∀ op ∈ updateOperators, (Piece.punctuator op).Valid ∧
    (Piece.punctuator op).BeginsOperand ∧ (Piece.punctuator op).EndsOperand ∧
      (Piece.punctuator op).first ∈ Piece.separators ∧ Scan.extensions op = [] ∧ op ≠ "." ∧
        op ≠ "/" := by
  simp only [Piece.Valid, Piece.BeginsOperand, Piece.EndsOperand, Piece.punctuator]
  decide

/-- Two operands with a comma between them. -/
lemma Sound.comma {ps qs : List Piece} (hp : Sound ps) (hq : Sound qs) :
    Sound (ps ++ .punctuator "," :: spaced qs) := by
  have hcomma : (Piece.punctuator ",").Valid := valid_bracket _ (by simp)
  refine hp.append (.cons hcomma hq.tidy.spaced (hq.spaced_head hcomma))
    (ends_append [_] (ends_spaced hq.ends)) fun q hm => ?_
  obtain rfl : _ = q := Option.some.inj hm
  decide

lemma Sound.list {xs : List Layout} (hne : xs ≠ []) (h : ∀ x ∈ xs, Sound x.pieces) :
    Sound (Layout.list (xs.map some)) := by
  induction xs with
  | nil => exact absurd rfl hne
  | cons x rest ih =>
    have hx := (h x (by simp)).within Level.assignment
    cases rest with
    | nil => exact hx
    | cons y rest => exact hx.comma (ih (by simp) fun z hz => h z (by simp [hz]))

lemma enclosable_operands {es : List Tree} (h : ∀ e ∈ es, Sound e.layout.pieces) :
    Enclosable (Layout.list (es.map fun e => some e.layout)) := by
  apply enclosable_list
  intro x hx
  obtain ⟨e, he, hex⟩ := List.mem_map.mp hx
  exact Option.some.inj hex ▸ h e he

lemma dot_precedes_name {name : Text} (h : IsName name) :
    (Piece.punctuator ".").Precedes { kind := .identifier, text := name } := by
  obtain ⟨c, rest, rfl, hc⟩ := h.valid.1.first
  have hall : ∀ c, isNameStart c = true ∨ c = '#'.toUInt8 →
      c ∉ Scan.extensions "." ∧ Byte.isDigit c = false ∧ c ≠ '/'.toUInt8 :=
    Byte.forall_of_lt (by decide +kernel)
  obtain ⟨hext, hdigit, hslash⟩ := hall c hc
  refine ⟨⟨hext, fun _ => hdigit, fun h => absurd h (by decide)⟩, fun h => absurd ?_ hslash⟩
  exact Option.some.inj h

lemma Sound.dotted {ps : List Piece} {name : Text} (h : Sound ps) (hname : IsName name) :
    Sound (ps ++ [.punctuator ".", { kind := .identifier, text := name }]) := by
  refine h.append (.cons (valid_bracket _ (by simp)) (.single hname.valid) fun q hq => ?_)
    ⟨_, rfl, trivial⟩ fun q hq => ?_
  · exact Option.some.inj hq ▸ dot_precedes_name hname
  · obtain rfl : _ = q := Option.some.inj hq
    decide

theorem Operators.sound {t : Tree} (h : Operators t) : Sound t.layout.pieces := by
  induction h with
  | @identifier node name h hname hplain =>
    rw [Tree.layout_identifier (t := .mk node) h]
    exact sound_single hname.valid ⟨rfl, hplain⟩ trivial
  | @null node h =>
    rw [Tree.layout_null (t := .mk node) h]
    exact sound_word _ (by decide)
  | @boolean node value h =>
    rw [Tree.layout_boolean (t := .mk node) h]
    cases value <;> exact sound_word _ (by decide)
  | @this node h =>
    rw [Tree.layout_this (t := .mk node) h]
    exact sound_word _ (by decide)
  | @string node value h =>
    rw [Tree.layout_string (t := .mk node) h]
    exact sound_single rfl ⟨rfl, trivial⟩ trivial
  | @array node elements h helements ih =>
    rw [Tree.layout_array (t := .mk node) h]
    refine ⟨?_, ⟨.punctuator "[", rfl, rfl, by simp [Piece.punctuator]⟩, ends_inBrackets _ (by simp)⟩
    refine (enclosable_list fun x hx => ?_).inBrackets (by simp) (by simp)
    obtain ⟨o, ho, hox⟩ := List.mem_map.mp hx
    obtain ⟨e, rfl, rfl⟩ := Option.map_eq_some_iff.mp hox
    exact ih e ho
  | @unary node op e h hop he ih =>
    rw [Tree.layout_unary (t := .mk node) h]
    rcases List.mem_append.mp hop with hsign | hword
    · rw [(operatorPiece_sign op hsign).1]
      exact ih.signed hsign
    · obtain ⟨hpiece, hvalid, hbegins, hoperator⟩ := operatorPiece_word op hword
      rw [hpiece, Layout.operand, hoperator]
      exact (ih.within _).cons_spaced hvalid hbegins
  | @update node op isPrefixed e h hop he href ih =>
    obtain ⟨hvalid, hbegins, hends, hfirst, hext, hdot, hslash⟩ := valid_update op hop
    cases isPrefixed with
    | true =>
      rw [Tree.layout_prefixed (t := .mk node) h]
      have hx := ih.within Level.unary
      refine hx.cons hvalid hbegins fun q hq => ⟨⟨?_, fun h => absurd h hdot, fun h =>
        absurd h hslash⟩, fun h => absurd h (hx.enclosable.begins q hq)⟩
      simp [Piece.punctuator, hext]
    | false =>
      rw [Tree.layout_postfixed (t := .mk node) h]
      apply (ih.within _).append (.single hvalid) ⟨_, rfl, hends⟩
      intro q hq
      exact Option.some.inj hq ▸ hfirst
  | @binary node op l r h hop hl hr ihl ihr =>
    by_cases hpower : op = "**"
    · subst hpower
      rw [Tree.layout_power (t := .mk node) h]
      exact (ihl.within _).joined (ihr.within _) (operatorPiece_binary hop)
    · rw [Tree.layout_binary (t := .mk node) h hpower]
      exact (ihl.within _).joined (ihr.within _) (operatorPiece_binary hop)
  | @assignment node op l r h hop hl href hr ihl ihr =>
    rw [Tree.layout_assignment (t := .mk node) h]
    have hall : ∀ op ∈ Grammar.assignmentOperators, op ∈ punctuators ∧ op ≠ "?." ∧ op ≠ "=>" := by
      decide
    exact (ihl.within _).joined (ihr.within _) (hall op hop)
  | @conditional node test yes no h htest hyes hno iht ihy ihn =>
    rw [Tree.layout_conditional (t := .mk node) h]
    have hvalid : ∀ t ∈ (["?", ":"] : List Text), (Piece.punctuator t).Valid := by
      simp only [Piece.Valid, Piece.punctuator]
      decide
    exact ((iht.within _).joined (ihy.within _) (hvalid _ (by simp))).joined (ihn.within _)
      (hvalid _ (by simp))
  | @sequence node es h hlength hes ih =>
    rw [Tree.layout_sequence (t := .mk node) h]
    have hlist : Sound (Layout.list ((es.map Tree.layout).map some)) :=
      .list (by rintro h; simp_all) (by simpa using ih)
    simpa [Function.comp_def] using hlist
  | @call node callee args h hcallee hargs ihc iha =>
    rw [Tree.layout_call (t := .mk node) h]
    exact (ihc.within _).bracketed (enclosable_operands iha) (by simp) (by simp)
  | @new node callee args h hcallee hargs ihc iha =>
    rw [Tree.layout_new (t := .mk node) h]
    have hvalid : (Piece.keyword "new").Valid := (by decide : Text.ofString "new" ∈ reservedWords)
    have hbegins : (Piece.keyword "new").BeginsOperand :=
      ⟨rfl, .inr (by decide : Text.ofString "new" ∈ Piece.prefixWords)⟩
    exact ((ihc.within _).cons_spaced hvalid hbegins).bracketed (enclosable_operands iha) (by simp)
      (by simp)
  | @index node object key h hobject hkey iho ihk =>
    rw [Tree.layout_index (t := .mk node) h]
    exact (iho.within _).bracketed ihk.enclosable (by simp) (by simp)
  | @member node object key name h hobject hkey hname iho =>
    rw [Tree.layout_member (t := .mk node) h hkey]
    exact (iho.within _).dotted hname

end PlainScript
