import PlainScript.Token.Lexer
import PlainScript.Print.Literal
import Mathlib.Data.List.Find
import Mathlib.Data.List.TakeWhile
import Mathlib.Tactic.Lemma

/-! Tokens are read as long as they go. A name, a punctuator or a quoted string in front of a text is
read as just that token if the byte behind it cannot belong to it. -/
namespace PlainScript

/-- What holds of the 256 bytes one by one holds of every byte. -/
lemma Byte.forall_of_lt {P : UInt8 → Prop} (h : ∀ n < 256, P (UInt8.ofNat n)) (c : UInt8) : P c := by
  have hc := h c.toNat c.toNat_lt
  rwa [UInt8.ofNat_toNat] at hc

namespace Scan

/-! ### Gaps -/

/-- A text that no gap begins: neither a blank nor a comment. -/
lemma gap_eq_nil {s : Text} (hb : blankLength s = 0) (hc : commentLength s = .ok 0) :
    gap s = .ok ([], 0) := by
  cases s with
  | nil => rw [gap]
  | cons c rest => rw [gap]; simp [hb, hc]

lemma gap_nil : gap [] = .ok ([], 0) := by rw [gap]

lemma shift_ne_zero {α : Type} {n : Nat} {r : Scan α} {a : α} : shift (n + 1) r ≠ .ok (a, 0) := by
  rcases r with e | ⟨b, k⟩
  · simp [shift]
  · simp only [shift, ne_eq, Except.ok.injEq, Prod.mk.injEq, not_and]
    omega

/-- A gap of no length holds no comments and begins with no blank. -/
lemma of_gap_zero {s : Text} {comments : List Text} (h : gap s = .ok (comments, 0)) :
    comments = [] ∧ blankLength s = 0 := by
  cases s with
  | nil =>
    rw [gap] at h
    exact ⟨(Prod.mk.inj (Except.ok.inj h)).1.symm, rfl⟩
  | cons c rest =>
    rw [gap] at h
    split at h
    · exact absurd h shift_ne_zero
    · next hblank =>
      split at h
      · simp at h
      · exact ⟨(Prod.mk.inj (Except.ok.inj h)).1.symm, hblank⟩
      · split at h
        · simp at h
        · next hshift =>
          obtain ⟨rfl, rfl⟩ := Prod.mk.inj (Except.ok.inj h)
          exact absurd hshift shift_ne_zero

lemma gap_blank (s : Text) : gap (0x20 :: s) = shift 1 (gap s) := by
  rw [gap]
  rfl

lemma gap_lineFeed (s : Text) : gap (0x0A :: s) = shift 1 (gap s) := by
  rw [gap]
  rfl

lemma gap_indented {s : Text} (h : gap s = .ok ([], 0)) (n : Nat) :
    gap (Text.replicate n ' ' ++ s) = .ok ([], n) := by
  induction n with
  | zero => exact h
  | succ n ih =>
    exact (gap_blank (Text.replicate n ' ' ++ s)).trans (by rw [ih, shift, Nat.add_comm])

lemma commentLength_eq_zero {c : UInt8} {s : Text}
    (h : c = '/'.toUInt8 → ∀ d ∈ s.head?, d ≠ '/'.toUInt8 ∧ d ≠ '*'.toUInt8) :
    commentLength (c :: s) = .ok 0 := by
  have hnot (d : UInt8) (hd : d = '/'.toUInt8 ∨ d = '*'.toUInt8) :
      Text.startsWith (c :: s) ['/'.toUInt8, d] = false := by
    by_cases hc : c = '/'.toUInt8
    · cases s with
      | nil => simp [Text.startsWith, List.isPrefixOf]
      | cons e rest =>
        have he := h hc e (by simp)
        have hde : d ≠ e := by
          rcases hd with rfl | rfl
          · exact he.1.symm
          · exact he.2.symm
        simp [Text.startsWith, List.isPrefixOf, hde]
    · simp [Text.startsWith, List.isPrefixOf, Ne.symm hc]
  have hline : ("//" : Text) = ['/'.toUInt8, '/'.toUInt8] := by decide
  have hblock : ("/*" : Text) = ['/'.toUInt8, '*'.toUInt8] := by decide
  rw [commentLength, hline, hblock, hnot _ (.inl rfl), hnot _ (.inr rfl)]
  rfl

/-- A gap begins with a blank of ASCII, a slash or a byte outside ASCII. -/
lemma gap_of_ascii {c : UInt8} {s : Text} (hb : Byte.isBlank c = false) (ha : c < 0x80)
    (h : c = '/'.toUInt8 → ∀ d ∈ s.head?, d ≠ '/'.toUInt8 ∧ d ≠ '*'.toUInt8) :
    gap (c :: s) = .ok ([], 0) := by
  refine gap_eq_nil ?_ (commentLength_eq_zero h)
  unfold blankLength
  split
  · next heq => cases heq; exact absurd ha (by decide)
  · next heq => cases heq; exact absurd ha (by decide)
  · next heq => cases heq; simp [hb]
  · rfl

/-! ### Punctuators -/

/-- The bytes that make a longer punctuator of a text. -/
def extensions (p : Text) : Text :=
  (punctuators.filter fun q => p.isPrefixOf q && p != q).map (·.getD p.length 0)

lemma find?_punctuators {p : Text} (hp : p ∈ punctuators) :
    punctuators.find? (·.isPrefixOf p) = some p := by
  revert p
  decide

lemma punctuator_append {p rest : Text} (hp : p ∈ punctuators)
    (hrest : ∀ c ∈ rest.head?, c ∉ extensions p)
    (hquestion : p = "?." → ∀ c ∈ rest.head?, Byte.isDigit c = false) :
    punctuator (p ++ rest) = .ok (.punctuator, p.length) := by
  have hfits : ∀ q ∈ punctuators, (q.isPrefixOf (p ++ rest) &&
      !(q == ("?." : Text) && beginsWith ((p ++ rest).drop 2) Byte.isDigit)) = q.isPrefixOf p := by
    intro q hq
    have hmark : q <+: p → q = "?." → beginsWith ((p ++ rest).drop 2) Byte.isDigit = false := by
      rintro hqp rfl
      have hall : ∀ p ∈ punctuators, ("?." : Text) <+: p → p = "?." := by decide
      obtain rfl := hall p hp hqp
      have htwo : ("?." ++ rest : Text).drop 2 = rest := rfl
      rw [htwo]
      cases rest with
      | nil => rfl
      | cons c rest => simpa [beginsWith] using hquestion rfl c rfl
    have hprefix : q <+: p ++ rest → q <+: p := by
      intro hqr
      by_contra hqp
      obtain ⟨ext, rfl⟩ := (List.prefix_or_prefix_of_prefix hqr
        (List.prefix_append p rest)).resolve_left hqp
      obtain _ | ⟨c, ext⟩ := ext
      · exact hqp (by simp)
      · obtain ⟨rest', rfl⟩ := (List.prefix_append_right_inj p).mp hqr
        refine hrest c (by simp) (List.mem_map.mpr ⟨_, List.mem_filter.mpr ⟨hq, ?_⟩, ?_⟩)
        · simp
        · simp
    rw [Bool.eq_iff_iff]
    simp only [Bool.and_eq_true, List.isPrefixOf_iff_prefix]
    exact ⟨fun h => hprefix h.1, fun h =>
      ⟨h.trans (List.prefix_append p rest), by simpa [← imp_iff_not_or] using hmark h⟩⟩
  have hfind : punctuators.find? _ = some p :=
    (List.find?_congr hfits).trans (find?_punctuators hp)
  simp only [punctuator, hfind]

/-! ### Words -/

/-- A name or keyword, perhaps with a hash in front. -/
def IsWord (s : Text) : Prop :=
  ∃ lead c rest, s = lead ++ c :: rest ∧ (lead = [] ∨ lead = ['#'.toUInt8]) ∧
    isNameStart c = true ∧ ∀ x ∈ rest, isNamePart x = true

/-- What may stand behind a word. -/
def EndsWord (after : Text) : Prop :=
  ∀ c ∈ after.head?, isNamePart c = false ∧ c ≠ '\\'.toUInt8

lemma isNamePart_of_start {c : UInt8} (h : isNameStart c = true) : isNamePart c = true := by
  simp [isNamePart, h]

lemma takeWhile_of_endsWord {after : Text} (h : EndsWord after) : after.takeWhile isNamePart = [] := by
  cases after with
  | nil => rfl
  | cons c rest => simp [(h c (by simp)).1]

lemma not_beginsWith_backslash {after : Text} (h : EndsWord after) :
    beginsWith after (· == '\\'.toUInt8) = false := by
  cases after with
  | nil => rfl
  | cons c rest => simpa [beginsWith] using (h c (by simp)).2

lemma word_append {s after : Text} (hs : IsWord s) (hafter : EndsWord after) :
    word (s ++ after) = .ok (if isReservedWord s then .keyword else .identifier, s.length) := by
  obtain ⟨lead, c, rest, rfl, hlead, hc, hrest⟩ := hs
  have hbody : (c :: rest ++ after).takeWhile isNamePart = c :: rest := by
    rw [List.takeWhile_append_of_pos (by simpa [isNamePart_of_start hc] using hrest),
      takeWhile_of_endsWord hafter, List.append_nil]
  have hhash : c ≠ '#'.toUInt8 := by rintro rfl; revert hc; decide
  have hlen : (if beginsWith (lead ++ (c :: rest ++ after)) (· == '#'.toUInt8) then 1 else 0) =
      lead.length := by
    rcases hlead with rfl | rfl <;> simp [beginsWith, hhash]
  have hdrop : (lead ++ (c :: rest ++ after)).drop (lead.length + (c :: rest).length) = after := by
    rw [← List.drop_drop, List.drop_left, List.drop_left]
  have htake : (lead ++ (c :: rest ++ after)).take (lead.length + (c :: rest).length) =
      lead ++ c :: rest := by
    rw [← List.append_assoc, ← List.length_append, List.take_left]
  have hstart : beginsWith (c :: rest ++ after) isNameStart = true := by simpa [beginsWith] using hc
  rw [List.append_assoc, word]
  simp only [hlen, List.drop_left, hbody, hstart, hdrop, htake, not_beginsWith_backslash hafter,
    Bool.not_true, Bool.and_false, Bool.false_eq_true, if_false, List.length_append]

/-- A word has a hash or nothing in front, begins there like a name, goes on as long as a name does and is not behind that
carried on by an escape. -/
lemma word_eq_ok {c : UInt8} {rest : Text} {kind : TokenKind} {n : Nat}
    (hstart : isNameStart c = true ∨ c = '#'.toUInt8) (h : word (c :: rest) = .ok (kind, n)) :
    ∃ lead body, c :: rest = lead ++ body ∧ (lead = [] ∨ lead = ['#'.toUInt8]) ∧ beginsWith body isNameStart = true ∧
      lead.length + (body.takeWhile isNamePart).length = n ∧
        beginsWith ((c :: rest).drop n) (· == '\\'.toUInt8) = false := by
  rw [word] at h
  by_cases hhash : c = '#'.toUInt8
  · subst hhash
    have hlead : beginsWith ('#'.toUInt8 :: rest) (· == '#'.toUInt8) = true := rfl
    simp only [hlead, if_true] at h
    split at h
    · cases h
    next hbegin =>
      split at h
      · cases h
      next hfree =>
        obtain ⟨-, rfl⟩ := Prod.mk.inj (Except.ok.inj h)
        exact ⟨['#'.toUInt8], rest, rfl, .inr rfl, by simpa using hbegin, rfl, by simpa using hfree⟩
  · have hlead : beginsWith (c :: rest) (· == '#'.toUInt8) = false := by simpa [beginsWith] using hhash
    simp only [hlead, Bool.false_eq_true, if_false] at h
    split at h
    · cases h
    · split at h
      · cases h
      next hfree =>
        obtain ⟨-, rfl⟩ := Prod.mk.inj (Except.ok.inj h)
        exact ⟨[], c :: rest, rfl, .inl rfl, hstart.resolve_right hhash, rfl, by simpa using hfree⟩

/-- A text that is read as one word to its end is a word. -/
lemma isWord_of_word {c : UInt8} {rest : Text} {k : TokenKind} {n : Nat}
    (hstart : isNameStart c = true ∨ c = '#'.toUInt8) (h : word (c :: rest) = .ok (k, n))
    (hn : (c :: rest).length ≤ n) : IsWord (c :: rest) := by
  obtain ⟨lead, body, hs, hlead, hbegin, rfl, -⟩ := word_eq_ok hstart h
  rw [hs, List.length_append] at hn
  have hall := (List.takeWhile_prefix isNamePart).eq_of_length_le (Nat.le_of_add_le_add_left hn)
  rw [List.takeWhile_eq_self_iff] at hall
  cases body with
  | nil => cases hbegin
  | cons d body => exact ⟨lead, d, body, hs, hlead, hbegin, fun x hx => hall x (List.mem_cons_of_mem d hx)⟩

lemma IsWord.first {s : Text} (h : IsWord s) :
    ∃ c rest, s = c :: rest ∧ (isNameStart c = true ∨ c = '#'.toUInt8) := by
  obtain ⟨lead, c, rest, rfl, rfl | rfl, hc, -⟩ := h
  · exact ⟨c, rest, rfl, .inl hc⟩
  · exact ⟨_, _, rfl, .inr rfl⟩

lemma token_cons (previous : Option Token) (c : UInt8) (rest : Text) :
    token previous (c :: rest) =
      if isNameStart c || c == '#'.toUInt8 then word (c :: rest)
      else if Byte.isDigit c || (c == '.'.toUInt8 && beginsWith rest Byte.isDigit) then
        number (c :: rest)
      else if c == '"'.toUInt8 || c == '\''.toUInt8 then string (c :: rest)
      else if c == '\x60'.toUInt8 then template (c :: rest)
      else if c == '/'.toUInt8 && slashBeginsRegExp previous then regExp (c :: rest)
      else punctuator (c :: rest) := rfl

lemma token_word {previous : Option Token} {c : UInt8} {rest : Text}
    (h : isNameStart c = true ∨ c = '#'.toUInt8) : token previous (c :: rest) = word (c :: rest) := by
  rw [token_cons, if_pos]
  simpa using h

lemma isBlank_of_wordStart :
    ∀ c, isNameStart c = true ∨ c = '#'.toUInt8 → Byte.isBlank c = false :=
  Byte.forall_of_lt (by decide +kernel)

/-- Only words are identifiers. -/
lemma word_of_identifier {previous : Option Token} {c : UInt8} {rest : Text} {n : Nat}
    (h : token previous (c :: rest) = .ok (.identifier, n)) :
    (isNameStart c = true ∨ c = '#'.toUInt8) ∧ word (c :: rest) = .ok (.identifier, n) := by
  rw [token_cons] at h
  split at h
  · next hc => exact ⟨by simpa using hc, h⟩
  · exfalso
    repeat' split at h
    · simp only [number] at h
      repeat' split at h
      all_goals simp at h
    · cases hs : shift 1 (quotedBody c rest) <;> simp [string, hs, Except.map] at h
    · cases hs : templateEnd [.body] 1 rest <;> simp [template, hs, Except.map] at h
    · cases hs : regExpBody false 1 rest <;> simp [regExp, hs, Except.map] at h
    · simp only [punctuator] at h
      split at h <;> simp at h

/-- A word does not begin a gap, whatever ends it. -/
lemma gap_word {s after : Text} (hs : IsWord s) (hgap : gap s = .ok ([], 0))
    (hafter : EndsWord after) : gap (s ++ after) = .ok ([], 0) := by
  have hblank := (of_gap_zero hgap).2
  obtain ⟨c, rest, rfl, hc⟩ := hs.first
  have hslash : c ≠ '/'.toUInt8 := by rintro rfl; revert hc; decide
  refine gap_eq_nil ?_ (commentLength_eq_zero fun h => absurd h hslash)
  have hlow := isBlank_of_wordStart c hc
  have hhigh (d : UInt8) (hd : isNamePart d = true) (more : Text) : after ≠ d :: more := by
    rintro rfl
    simp [(hafter d (by simp)).1] at hd
  rw [List.cons_append, blankLength.eq_def]
  split
  · next more heq =>
    obtain ⟨rfl, hrest⟩ := List.cons.inj heq
    rcases List.append_eq_cons_iff.mp hrest with ⟨rfl, h⟩ | ⟨r, rfl, -⟩
    · exact absurd h (hhigh _ (by decide) _)
    · exact hblank
  · next more heq =>
    obtain ⟨rfl, hrest⟩ := List.cons.inj heq
    rcases List.append_eq_cons_iff.mp hrest with ⟨rfl, h⟩ | ⟨r, rfl, hr⟩
    · exact absurd h (hhigh _ (by decide) _)
    · rcases List.append_eq_cons_iff.mp hr.symm with ⟨rfl, h⟩ | ⟨r, rfl, -⟩
      · exact absurd h (hhigh _ (by decide) _)
      · exact hblank
  · next heq => cases heq; simp [hlow]
  · next heq => cases heq

/-! ### Quoted strings -/

open Print

lemma hexDigits_byte : ∀ n < 256, (Text.hexDigits 2 n).length = 2 ∧
    (Text.hexDigits 2 n).takeWhile Byte.isHex = Text.hexDigits 2 n ∧
      Text.hexNumber (Text.hexDigits 2 n) = n := by
  decide +kernel

lemma readHex_hexDigits {n : Nat} (h : n < 256) (rest : Text) :
    Text.readHex 2 (Text.hexDigits 2 n ++ rest) = .ok n := by
  obtain ⟨hlength, hhex, hnumber⟩ := hexDigits_byte n h
  have htake : (Text.hexDigits 2 n ++ rest).take 2 = Text.hexDigits 2 n := by
    rw [List.take_append_of_le_length (Nat.le_of_eq hlength.symm), List.take_of_length_le
      (Nat.le_of_eq hlength)]
  simp only [Text.readHex, htake, hhex, hlength, hnumber, if_true]

lemma escape_hex {n : Nat} (h : n < 128) (rest : Text) :
    escape 'x'.toUInt8 (Text.hexDigits 2 n ++ rest) = .ok ([n.toUInt8], 3) := by
  have hletter : letterEscape? 'x'.toUInt8 = none := by decide
  rw [escape, hletter]
  simp only
  rw [if_neg (by decide), if_neg (by decide), if_pos (by decide),
    readHex_hexDigits (Nat.lt_trans h (by decide))]
  simp [Text.utf8, h]

lemma escape_short {c : UInt8} {t : Text} (h : shortEscape? c = some t) :
    ∃ e, t = ['\\'.toUInt8, e] ∧ ∀ rest, escape e rest = .ok ([c], 1) := by
  refine ⟨t.getD 1 0, ?_⟩
  unfold shortEscape? at h
  repeat' split at h
  all_goals first
    | next hc =>
      rw [beq_iff_eq] at hc
      subst hc
      cases h
      exact ⟨by decide, fun _ => rfl⟩
    | cases h

lemma quotedBody_plain {c : UInt8} {more tail : Text} {size : Nat} (hc : shortEscape? c = none)
    (h : quotedBody '"'.toUInt8 more = .ok (tail, size)) :
    quotedBody '"'.toUInt8 (c :: more) = .ok (c :: tail, 1 + size) := by
  have hne (d : UInt8) (hd : (shortEscape? d).isSome) : (c == d) = false := by
    rw [beq_eq_false_iff_ne]
    rintro rfl
    simp [hc] at hd
  rw [quotedBody.eq_def]
  simp only [hne '\n'.toUInt8 (by decide), hne '"'.toUInt8 (by decide),
    hne '\\'.toUInt8 (by decide), Bool.false_eq_true, if_false, h]
  rfl

lemma quotedBody_escape {quote e : UInt8} {more value tail : Text} {size : Nat} (digits : Text)
    (hquote : ('\\'.toUInt8 == quote) = false) (he : escape e (digits ++ more) = .ok (value, digits.length + 1))
    (h : quotedBody quote more = .ok (tail, size)) :
    quotedBody quote ('\\'.toUInt8 :: e :: (digits ++ more)) = .ok (value ++ tail, digits.length + 2 + size) := by
  rw [quotedBody, if_neg (by decide), hquote, if_neg Bool.false_ne_true,
    if_pos (by decide)]
  simp only [he, Nat.add_sub_cancel, List.drop_left, h]
  rfl

/-- A byte is read back from its spelling inside quotes. -/
lemma quotedBody_byte (c : UInt8) {more tail : Text} {size : Nat}
    (h : quotedBody '"'.toUInt8 more = .ok (tail, size)) :
    quotedBody '"'.toUInt8 (escapeByte c ++ more) =
      .ok (c :: tail, (escapeByte c).length + size) := by
  unfold escapeByte
  cases hs : shortEscape? c with
  | some t =>
    obtain ⟨e, rfl, he⟩ := escape_short hs
    exact quotedBody_escape [] (by decide) (he _) h
  | none =>
    simp only
    split
    · next hc =>
      have hlow : c.toNat < 128 := by
        obtain hc | hc := Bool.or_eq_true_iff.mp hc
        · exact Nat.lt_trans (UInt8.lt_iff_toNat_lt.mp (of_decide_eq_true hc)) (by decide)
        · rw [eq_of_beq hc]
          decide
      have hlength := (hexDigits_byte c.toNat c.toNat_lt).1
      have hx : Text.ofString "\\x" = ['\\'.toUInt8, 'x'.toUInt8] := by decide
      have hread := quotedBody_escape (Text.hexDigits 2 c.toNat) (by decide)
        (by rw [escape_hex hlow, hlength]) h
      simpa [hx, hlength] using hread
    · exact quotedBody_plain hs h

/-- The two separators are read back from their escapes. -/
lemma quotedBody_separator (digits : Text) (cp : Nat) {more tail : Text} {size : Nat}
    (hdigits : ∀ rest, Text.readHex 4 (digits ++ rest) = .ok cp) (hlength : digits.length = 4)
    (hhead : digits.head? ≠ some '\x7b'.toUInt8) (hcp : Text.isHighSurrogate cp = false)
    (h : quotedBody '"'.toUInt8 more = .ok (tail, size)) :
    quotedBody '"'.toUInt8 ('\\'.toUInt8 :: 'u'.toUInt8 :: digits ++ more) =
      .ok (Text.utf8 cp ++ tail, 6 + size) := by
  have hletter : letterEscape? 'u'.toUInt8 = none := by decide
  refine (quotedBody_escape digits (by decide) ?_ h).trans (by rw [hlength])
  rw [escape, hletter]
  simp only
  rw [if_neg (by decide), if_neg (by decide), if_neg (by decide), if_pos (by decide), unicodeEscape]
  rw [if_neg]
  · simp [hdigits, hcp, hlength, shift]
  · rw [List.head?_append]
    cases digits <;> simp_all

lemma quotedBody_inside (value after : Text) :
    quotedBody '"'.toUInt8 (quotedInside value ++ '"'.toUInt8 :: after) =
      .ok (value, (quotedInside value).length + 1) := by
  induction value using quotedInside.induct with
  | case1 =>
    rw [quotedBody.eq_def]
    rfl
  | case2 rest ih =>
    have hspelling : Text.ofString "\\u2028" =
        '\\'.toUInt8 :: 'u'.toUInt8 :: Text.ofString "2028" := by decide
    have hread := quotedBody_separator "2028" 0x2028 (fun _ => rfl)
      (by decide) (by decide) (by decide) ih
    rw [quotedInside, hspelling, List.append_assoc, hread, List.length_append, Nat.add_assoc]
    rfl
  | case3 rest ih =>
    have hspelling : Text.ofString "\\u2029" =
        '\\'.toUInt8 :: 'u'.toUInt8 :: Text.ofString "2029" := by decide
    have hread := quotedBody_separator "2029" 0x2029 (fun _ => rfl)
      (by decide) (by decide) (by decide) ih
    rw [quotedInside, hspelling, List.append_assoc, hread, List.length_append, Nat.add_assoc]
    rfl
  | case4 c rest h₁ h₂ ih =>
    rw [quotedInside]
    · rw [List.append_assoc, quotedBody_byte c ih, List.length_append, Nat.add_assoc]
    · exact h₁
    · exact h₂

/-- A string is read back from its quoted spelling. -/
theorem string_quoted (value after : Text) :
    string (quoted value ++ after) = .ok (.string value, (quoted value).length) := by
  have hquote : Text.ofString "\"" = ['"'.toUInt8] := by decide
  have hread := quotedBody_inside value after
  rw [quoted, hquote]
  simp only [string, List.append_assoc, List.cons_append, List.nil_append, List.headD_cons,
    List.tail_cons, hread, shift, Except.map]
  simp [Nat.add_comm]

end Scan

end PlainScript
