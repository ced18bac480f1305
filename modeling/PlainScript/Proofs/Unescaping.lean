import PlainScript.Idiom.Escape
import PlainScript.Proofs.Escapes

/-! Strings whose escapes are resolved. With a character in the place of an escape, the spelling of a string spells a
string again, and the same one, unless an octal escape takes the character in. -/
namespace PlainScript

open Scan

/-- The escape by code in front of a text, seen from behind its backslash, if it is resolved. -/
def resolved? (quote : UInt8) (s : Text) : Option CodeEscape := (CodeEscape.read? s).filter (·.isPlain quote)

section Unescape

variable {quote c e : UInt8} {s taken value v : Text} {code : CodeEscape}

lemma unescapeBody_drop (n : Nat) (s : Text) : unescapeBody quote n s = unescapeBody quote 0 (s.drop n) := by
  induction s generalizing n with
  | nil => cases n <;> rfl
  | cons c s ih =>
    cases n with
    | zero => rfl
    | succ n => exact ih n

lemma unescapeBody_cons (hc : c ≠ '\\'.toUInt8) (s : Text) :
    unescapeBody quote 0 (c :: s) = c :: unescapeBody quote 0 s := by
  cases s with
  | nil => rfl
  | cons d s => rw [unescapeBody, if_pos (by simpa using hc)]

lemma unescapeBody_append (h : '\\'.toUInt8 ∉ taken) (s : Text) :
    unescapeBody quote 0 (taken ++ s) = taken ++ unescapeBody quote 0 s := by
  induction taken with
  | nil => rfl
  | cons c taken ih =>
    rw [List.mem_cons, not_or] at h
    rw [List.cons_append, unescapeBody_cons (Ne.symm h.1), ih h.2, List.cons_append]

lemma unescapeBody_resolved (h : resolved? quote (e :: s) = some code) :
    unescapeBody quote 0 ('\\'.toUInt8 :: e :: s) =
      code.code.toUInt8 :: unescapeBody quote 0 ((e :: s).drop code.length) := by
  rw [unescapeBody, if_neg (by simp), show (CodeEscape.read? (e :: s)).filter (·.isPlain quote) = some code from h]
  exact congrArg _ (unescapeBody_drop ..)

lemma unescapeBody_kept (h : resolved? quote (e :: s) = none) :
    unescapeBody quote 0 ('\\'.toUInt8 :: e :: s) = '\\'.toUInt8 :: e :: unescapeBody quote 0 s := by
  rw [unescapeBody, if_neg (by simp), show (CodeEscape.read? (e :: s)).filter (·.isPlain quote) = none from h]

/-- What is left of a text begins as the text does, or with a resolved character. -/
lemma head?_unescapeBody (quote : UInt8) (s : Text) : (unescapeBody quote 0 s).head? = s.head? ∨
    ∃ rest code, s = '\\'.toUInt8 :: rest ∧ resolved? quote rest = some code ∧
      (unescapeBody quote 0 s).head? = some code.code.toUInt8 := by
  cases s with
  | nil => exact .inl rfl
  | cons c s =>
    by_cases hc : c = '\\'.toUInt8
    · subst hc
      cases s with
      | nil => exact .inl rfl
      | cons d s =>
        cases h : resolved? quote (d :: s) with
        | none => exact .inl (by rw [unescapeBody_kept h]; rfl)
        | some code => exact .inr ⟨d :: s, code, rfl, h, congrArg List.head? (unescapeBody_resolved h)⟩
    · exact .inl (by rw [unescapeBody_cons hc]; rfl)

lemma resolved?_eq_some : resolved? quote s = some code ↔ CodeEscape.read? s = some code ∧
    0x20 ≤ code.code ∧ code.code ≤ 0x7E ∧ code.code ≠ quote.toNat ∧ code.code ≠ 0x5C := by
  simp [resolved?, Option.filter_eq_some_iff, CodeEscape.isPlain, and_assoc]

/-- A resolved character is just a character between the quotes. -/
lemma plain_of_resolved? (h : resolved? quote s = some code) :
    code.code.toUInt8 ∉ ['\n'.toUInt8, quote, '\\'.toUInt8] := by
  obtain ⟨-, hlow, hhigh, hquote, hback⟩ := resolved?_eq_some.mp h
  have hnat : code.code.toUInt8.toNat = code.code := by
    rw [Nat.toUInt8_eq, UInt8.toNat_ofNat']
    omega
  simp only [List.mem_cons, List.not_mem_nil, or_false, not_or, ← UInt8.toNat_inj, hnat]
  refine ⟨?_, hquote, hback⟩
  show code.code ≠ 10
  omega

lemma read?_of_ne (hx : e ≠ 'x'.toUInt8) (hu : e ≠ 'u'.toUInt8) : CodeEscape.read? (e :: s) = none := by
  rw [CodeEscape.read?.eq_def]
  simp [hx, hu]

lemma fixed?_append {digits : Text} {k : Nat} (hhex : digits.IsHex) (hlength : digits.length = k) (s : Text) :
    CodeEscape.fixed? k (digits ++ s) = some ⟨Text.hexNumber digits, k + 1⟩ := by
  subst hlength
  rw [CodeEscape.fixed?, Text.readHex_append hhex]
  rfl

lemma braced?_append {digits : Text} (hhex : digits.IsHex) (hlength : 0 < digits.length ∧ digits.length ≤ 6)
    (s : Text) :
    CodeEscape.braced? (digits ++ '\x7d'.toUInt8 :: s) = some ⟨Text.hexNumber digits, digits.length + 3⟩ := by
  have hbrace : ∀ c ∈ digits, (c != '\x7d'.toUInt8) = true := fun c hc => by
    rw [bne_iff_ne]
    rintro rfl
    exact absurd (hhex _ hc) (by decide)
  have htake : (digits ++ '\x7d'.toUInt8 :: s).takeWhile (· != '\x7d'.toUInt8) = digits := by
    rw [List.takeWhile_append_of_pos hbrace, List.takeWhile_cons_of_neg (by simp), List.append_nil]
  have hnil : digits ≠ [] := List.length_pos_iff.mp hlength.1
  rw [CodeEscape.braced?]
  simp only [htake]
  rw [if_neg (by simpa [hnil] using hlength.2), if_pos (List.all_eq_true.mpr hhex)]

lemma read?_byte {digits : Text} (hhex : digits.IsHex) (hlength : digits.length = 2) (s : Text) :
    CodeEscape.read? ('x'.toUInt8 :: (digits ++ s)) = some ⟨Text.hexNumber digits, 3⟩ :=
  fixed?_append hhex hlength s

lemma read?_braced {digits : Text} (hhex : digits.IsHex) (hlength : 0 < digits.length ∧ digits.length ≤ 6)
    (s : Text) :
    CodeEscape.read? ('u'.toUInt8 :: '\x7b'.toUInt8 :: (digits ++ '\x7d'.toUInt8 :: s)) =
      some ⟨Text.hexNumber digits, digits.length + 3⟩ :=
  braced?_append hhex hlength s

lemma read?_fixed {digits : Text} (hhex : digits.IsHex) (hlength : digits.length = 4) (s : Text) :
    CodeEscape.read? ('u'.toUInt8 :: (digits ++ s)) = some ⟨Text.hexNumber digits, 5⟩ := by
  obtain ⟨c, more, rfl⟩ := List.exists_cons_of_length_eq_add_one hlength
  have hc : c ≠ '\x7b'.toUInt8 := by
    rintro rfl
    exact absurd (hhex _ (List.mem_cons_self ..)) (by decide)
  have hread := fixed?_append hhex hlength s
  rw [CodeEscape.read?.eq_def]
  simp only [List.cons_append, if_neg hc] at hread ⊢
  exact hread

namespace Scan

lemma utf8_of_resolved? (h : resolved? quote s = some code) : Text.utf8 code.code = [code.code.toUInt8] := by
  obtain ⟨-, -, hle, -⟩ := resolved?_eq_some.mp h
  exact if_pos (Nat.lt_succ_of_le (Nat.le_succ_of_le hle))

lemma backslash_not_mem (hhex : taken.IsHex) : '\\'.toUInt8 ∉ taken := fun hmem => absurd (hhex _ hmem) (by decide)

/-- An escape that is resolved denotes just the character that takes its place. -/
lemma CodePoint.resolved (h : CodePoint taken after value)
    (hr : resolved? quote ('u'.toUInt8 :: (taken ++ s)) = some code) :
    code.length = taken.length + 1 ∧ value = [code.code.toUInt8] := by
  obtain ⟨hread, -, hle, -⟩ := resolved?_eq_some.mp hr
  rw [← utf8_of_resolved? hr]
  cases h with
  | @braced digits _ hhex hlength _ =>
    rw [List.cons_append, List.append_assoc, List.singleton_append, read?_braced hhex hlength] at hread
    obtain rfl := Option.some.inj hread
    exact ⟨by simp, rfl⟩
  | single hhex hlength =>
    rw [read?_fixed hhex hlength] at hread
    obtain rfl := Option.some.inj hread
    exact ⟨by rw [hlength], rfl⟩
  | @pair high low _ hhex hlength hhigh _ =>
    rw [List.append_assoc, read?_fixed hhex.1 hlength.1] at hread
    obtain rfl := Option.some.inj hread
    -- A surrogate is no printable character.
    simp only [Text.isHighSurrogate, Bool.and_eq_true, decide_eq_true_eq] at hhigh hle
    omega

/-- An escape is one by code if it has one of the two marks. -/
lemma Escapes.mark_cases (h : Escapes e taken after value) : (e ≠ 'x'.toUInt8 ∧ e ≠ 'u'.toUInt8) ∨
    (e = 'x'.toUInt8 ∧ taken.IsHex ∧ taken.length = 2 ∧ value = Text.utf8 (Text.hexNumber taken)) ∨
    (e = 'u'.toUInt8 ∧ CodePoint taken after value) := by
  have hother (hmark : e ∉ ['\n'.toUInt8, '\r'.toUInt8, 'x'.toUInt8, 'u'.toUInt8]) :
      e ≠ 'x'.toUInt8 ∧ e ≠ 'u'.toUInt8 := by
    simp only [List.mem_cons, List.not_mem_nil, or_false, not_or] at hmark
    exact hmark.2.2
  cases h with
  | letter h => refine .inl ⟨?_, ?_⟩ <;> rintro rfl <;> cases h
  | lineFeed | carriageReturn | returnLineFeed => exact .inl (by decide)
  | byte hhex hlength => exact .inr (.inl ⟨rfl, hhex, hlength, rfl⟩)
  | codePoint h => exact .inr (.inr ⟨rfl, h⟩)
  | octal he => exact .inl (hother (of_isOctal he).2)
  | other _ _ hmark => exact .inl (hother hmark)

lemma Escapes.resolved (h : Escapes e taken after value) (hr : resolved? quote (e :: (taken ++ s)) = some code) :
    code.length = taken.length + 1 ∧ value = [code.code.toUInt8] := by
  obtain ⟨hread, -⟩ := resolved?_eq_some.mp hr
  obtain ⟨hx, hu⟩ | ⟨rfl, hhex, hlength, rfl⟩ | ⟨rfl, hpoint⟩ := h.mark_cases
  · cases (read?_of_ne hx hu).symm.trans hread
  · rw [read?_byte hhex hlength] at hread
    obtain rfl := Option.some.inj hread
    exact ⟨by rw [hlength], utf8_of_resolved? hr⟩
  · exact hpoint.resolved hr

/-! ### What is copied -/

lemma isOctal_of_taken {a m : Nat} (s : Text) : ∀ c ∈ s.take (octalEscape a m s).2, Byte.isOctal c = true := by
  fun_induction octalEscape a m s with
  | case1 | case2 | case4 => simp
  | case3 a m c s next hnext n k heq ih =>
    rw [heq] at ih
    rw [Bool.and_eq_true] at hnext
    simpa using ⟨hnext.1, ih⟩

/-- What an escape takes in has no backslash, unless it is a pair. -/
lemma Escapes.taken_cases (h : Escapes e taken after value) : '\\'.toUInt8 ∉ taken ∨
    ∃ high low, taken = high ++ '\\'.toUInt8 :: 'u'.toUInt8 :: low ∧ '\\'.toUInt8 ∉ high ∧ '\\'.toUInt8 ∉ low ∧
      ∀ quote s, resolved? quote ('u'.toUInt8 :: (low ++ s)) = none := by
  cases h with
  | letter | lineFeed | carriageReturn | other => exact .inl List.not_mem_nil
  | returnLineFeed => exact .inl (by decide)
  | byte hhex => exact .inl (backslash_not_mem hhex)
  | octal he h =>
    refine .inl fun hmem => ?_
    have hall := isOctal_of_taken (a := e.toNat - 48) (m := 2) (taken ++ after)
    rw [h, List.take_left] at hall
    exact absurd (hall _ hmem) (by decide)
  | codePoint h =>
    cases h with
    | braced hhex => exact .inl (by simpa using ⟨by decide, backslash_not_mem hhex, by decide⟩)
    | single hhex => exact .inl (backslash_not_mem hhex)
    | @pair high low _ hhex hlength _ hlow =>
      refine .inr ⟨high, low, rfl, backslash_not_mem hhex.1, backslash_not_mem hhex.2, fun quote s => ?_⟩
      rw [Option.eq_none_iff_forall_ne_some]
      intro code hr
      obtain ⟨hread, -, hle, -⟩ := resolved?_eq_some.mp hr
      rw [read?_fixed hhex.2 hlength.2] at hread
      obtain rfl := Option.some.inj hread
      simp only [Text.isLowSurrogate, Bool.and_eq_true, decide_eq_true_eq] at hlow hle
      omega

/-- The text of an escape is copied as it is. -/
lemma Escapes.unescapeBody_taken (h : Escapes e taken after value) (s : Text) :
    unescapeBody quote 0 (taken ++ s) = taken ++ unescapeBody quote 0 s := by
  obtain hback | ⟨high, low, rfl, hhigh, hlow, hnone⟩ := h.taken_cases
  · exact unescapeBody_append hback s
  · rw [List.append_assoc, unescapeBody_append hhigh, List.cons_append, List.cons_append,
      unescapeBody_kept (hnone quote s), unescapeBody_append hlow, List.append_assoc]
    rfl

/-- An escape that is not octal is the same in front of what is left of the text. -/
lemma Escapes.behind {after' : Text} (h : Escapes e taken after value) (he : Byte.isOctal e = false)
    (hhead : after.head? ≠ some '\n'.toUInt8 → after'.head? ≠ some '\n'.toUInt8)
    (hlow : lowSurrogate? after = none → lowSurrogate? after' = none) : Escapes e taken after' value := by
  cases h with
  | letter h => exact .letter h
  | lineFeed => exact .lineFeed
  | carriageReturn h => exact .carriageReturn (hhead h)
  | returnLineFeed => exact .returnLineFeed
  | byte hhex hlength => exact .byte hhex hlength
  | octal he' => cases he.symm.trans he'
  | other hletter hoctal hmark => exact .other hletter hoctal hmark
  | codePoint h =>
    refine .codePoint ?_
    cases h with
    | braced hhex hlength hle => exact .braced hhex hlength hle
    | single hhex hlength hlone => exact .single hhex hlength fun hhigh => hlow (hlone hhigh)
    | pair hhex hlength hhigh hislow => exact .pair hhex hlength hhigh hislow

lemma head?_unescapeBody_append (h : (s ++ [quote]).head? ≠ some '\n'.toUInt8) :
    (unescapeBody quote 0 s ++ [quote]).head? ≠ some '\n'.toUInt8 := by
  obtain hsame | ⟨rest, code, -, hr, hhead⟩ := head?_unescapeBody quote s
  · rwa [List.head?_append, hsame, ← List.head?_append]
  · rw [List.head?_append, hhead, Option.some_or]
    exact fun heq => plain_of_resolved? hr (Option.some.inj heq ▸ by simp)

/-- Four digits behind `\u` are all that counts there. -/
lemma Escapes.four_digits {digits more rest : Text} (h : Escapes 'u'.toUInt8 taken after value) (hhex : digits.IsHex)
    (hlength : digits.length = 4) (heq : taken ++ more = digits ++ rest) : ∃ tail, taken = digits ++ tail := by
  cases h with
  | letter h | octal h => cases h
  | other _ _ hmark => exact absurd hmark (by simp)
  | codePoint h =>
    cases h with
    | braced =>
      obtain ⟨c, digits, rfl⟩ := List.exists_cons_of_length_eq_add_one hlength
      obtain rfl := (List.cons.inj heq).1
      exact absurd (hhex _ (List.mem_cons_self ..)) (by decide)
    | single _ hlength' => exact ⟨[], by rw [List.append_nil, List.append_inj_left heq (hlength'.trans hlength.symm)]⟩
    | @pair high low _ _ hlength' =>
      rw [List.append_assoc] at heq
      exact ⟨_, by rw [List.append_inj_left heq (hlength'.1.trans hlength.symm)]⟩

/-- No escape becomes the second half of a pair. -/
lemma Inside.lowSurrogate?_unescapeBody (hs : Inside quote s v) (h : lowSurrogate? (s ++ [quote]) = none) :
    lowSurrogate? (unescapeBody quote 0 s ++ [quote]) = none := by
  rw [Option.eq_none_iff_forall_ne_some] at h ⊢
  intro n hn
  obtain ⟨digits, after, heq, hlength, hhex, rfl, hlow⟩ := lowSurrogate?_eq_some hn
  cases hs with
  | nil => exact absurd (congrArg List.length heq) (by simp [unescapeBody])
  | @plain c s v hc hs =>
    simp only [List.mem_cons, List.not_mem_nil, or_false, not_or] at hc
    rw [unescapeBody_cons hc.2.2] at heq
    exact hc.2.2 (List.cons.inj heq).1
  | @escape e taken s value v he hs =>
    cases hr : resolved? quote (e :: (taken ++ s)) with
    | some code =>
      rw [unescapeBody_resolved hr] at heq
      exact plain_of_resolved? hr ((List.cons.inj heq).1 ▸ by simp)
    | none =>
      rw [unescapeBody_kept hr, he.unescapeBody_taken] at heq
      simp only [List.cons_append, List.cons.injEq, true_and, List.append_assoc] at heq
      obtain ⟨rfl, heq⟩ := heq
      obtain ⟨tail, rfl⟩ := he.four_digits hhex hlength heq
      refine h (Text.hexNumber digits) ?_
      rw [List.cons_append, List.cons_append, List.append_assoc, List.append_assoc]
      exact lowSurrogate?_append hhex hlength hlow _

end Scan

/-- Whether the character for the escape behind an octal escape becomes one of its digits. -/
def takesIn (quote e : UInt8) (s : Text) : Bool :=
  let (value, n) := octalEscape (e.toNat - 48) 2 s
  match s.drop n with
  | [] => false
  | c :: rest => Byte.isOctal e && c == '\\'.toUInt8 && (resolved? quote rest).any fun code =>
      octalEscape (e.toNat - 48) 2 (s.take n ++ [code.code.toUInt8]) != (value, n)

/-- Whether an octal escape takes in a character that stands for an escape. -/
def swallows (quote : UInt8) : Text → Bool
  | [] => false
  | [_] => false
  | c :: d :: s => if c != '\\'.toUInt8 then swallows quote (d :: s) else takesIn quote d s || swallows quote s

lemma swallows_cons (hc : c ≠ '\\'.toUInt8) (s : Text) : swallows quote (c :: s) = swallows quote s := by
  cases s with
  | nil => rfl
  | cons d s => rw [swallows, if_pos (by simpa using hc)]

lemma swallows_append (h : '\\'.toUInt8 ∉ taken) (s : Text) : swallows quote (taken ++ s) = swallows quote s := by
  induction taken with
  | nil => rfl
  | cons c taken ih =>
    rw [List.mem_cons, not_or] at h
    rw [List.cons_append, swallows_cons (Ne.symm h.1), ih h.2]

lemma swallows_escape (s : Text) :
    swallows quote ('\\'.toUInt8 :: e :: s) = (takesIn quote e s || swallows quote s) := by
  rw [swallows, if_neg (by simp)]

lemma takesIn_of_not_octal (he : Byte.isOctal e = false) (s : Text) : takesIn quote e s = false := by
  rw [takesIn]
  dsimp only
  split
  · rfl
  · rw [he, Bool.false_and, Bool.false_and]

lemma takesIn_of_resolved? {n : Nat} (he : Byte.isOctal e = true) (hr : resolved? quote s = some code)
    (h : octalEscape (e.toNat - 48) 2 (taken ++ '\\'.toUInt8 :: s) = (n, taken.length))
    (hne : octalEscape (e.toNat - 48) 2 (taken ++ [code.code.toUInt8]) ≠ (n, taken.length)) :
    takesIn quote e (taken ++ '\\'.toUInt8 :: s) = true := by
  rw [takesIn, h]
  simpa [he, hr] using hne

namespace Scan

lemma Escapes.swallows_taken (h : Escapes e taken after value) (s : Text) :
    swallows quote (taken ++ s) = swallows quote s := by
  obtain hback | ⟨high, low, rfl, hhigh, hlow, -⟩ := h.taken_cases
  · exact swallows_append hback s
  · rw [List.append_assoc, swallows_append hhigh, List.cons_append, List.cons_append, swallows_escape,
      takesIn_of_not_octal (by decide), Bool.false_or, swallows_append hlow]

lemma Escapes.exists_octal (h : Escapes e taken after value) (he : Byte.isOctal e = true) :
    ∃ n, value = Text.utf8 n ∧ octalEscape (e.toNat - 48) 2 (taken ++ after) = (n, taken.length) := by
  obtain ⟨hletter, hmark⟩ := of_isOctal he
  cases h with
  | letter h => cases hletter.symm.trans h
  | lineFeed | carriageReturn | returnLineFeed | byte | codePoint => exact absurd hmark (by simp)
  | octal _ h => exact ⟨_, rfl, h⟩
  | other _ hoctal => cases he.symm.trans hoctal

lemma Inside.tail (hc : c ≠ '\\'.toUInt8) (hs : Inside quote (c :: s) v) : ∃ w, Inside quote s w := by
  cases hs with
  | plain _ hs => exact ⟨_, hs⟩
  | escape => exact absurd rfl hc

lemma Inside.of_append (h : '\\'.toUInt8 ∉ taken) (hs : Inside quote (taken ++ s) v) : ∃ w, Inside quote s w := by
  induction taken generalizing v with
  | nil => exact ⟨v, hs⟩
  | cons c taken ih =>
    rw [List.mem_cons, not_or] at h
    obtain ⟨w, hw⟩ := hs.tail (Ne.symm h.1)
    exact ih h.2 hw

lemma Inside.append (h : ∀ c ∈ taken, c ∉ ['\n'.toUInt8, quote, '\\'.toUInt8]) (hs : Inside quote s v) :
    Inside quote (taken ++ s) (taken ++ v) := by
  induction taken with
  | nil => exact hs
  | cons c taken ih =>
    rw [List.forall_mem_cons] at h
    exact .plain h.1 (ih h.2)

section Quotes

variable (hquote : quote ∈ ['"'.toUInt8, '\''.toUInt8])
include hquote

lemma not_mem_of_isOctal (hc : Byte.isOctal c = true) : c ∉ ['\n'.toUInt8, quote, '\\'.toUInt8] := by
  revert hc
  simp only [List.mem_cons, List.not_mem_nil, or_false] at hquote
  obtain rfl | rfl := hquote
  · exact Byte.forall_of_lt (P := fun c => Byte.isOctal c = true → c ∉ ['\n'.toUInt8, '"'.toUInt8, '\\'.toUInt8])
      (by decide +kernel) c
  · exact Byte.forall_of_lt (P := fun c => Byte.isOctal c = true → c ∉ ['\n'.toUInt8, '\''.toUInt8, '\\'.toUInt8])
      (by decide +kernel) c

/-- A backslash in front of an octal digit is an escape, whatever follows. -/
lemma Inside.exists_of_octal (he : Byte.isOctal e = true) (hs : Inside quote s v) :
    ∃ w, Inside quote ('\\'.toUInt8 :: e :: s) w := by
  have hall := isOctal_of_taken (a := e.toNat - 48) (m := 2) (s ++ [quote])
  generalize hk : (octalEscape (e.toNat - 48) 2 (s ++ [quote])).2 = k at hall
  have hle : k ≤ s.length := by
    by_contra hlt
    have hmem : quote ∈ (s ++ [quote]).take k := by
      rw [List.take_of_length_le (List.length_append ▸ Nat.lt_of_not_le hlt)]
      simp
    exact not_mem_of_isOctal hquote (hall quote hmem) (by simp)
  rw [List.take_append_of_le_length hle] at hall
  have hsplit : Inside quote (s.take k ++ s.drop k) v := (List.take_append_drop k s).symm ▸ hs
  obtain ⟨w, hw⟩ := hsplit.of_append fun hmem => not_mem_of_isOctal hquote (hall _ hmem) (by simp)
  have hoctal : octalEscape (e.toNat - 48) 2 (s.take k ++ (s.drop k ++ [quote])) =
      ((octalEscape (e.toNat - 48) 2 (s ++ [quote])).1, (s.take k).length) := by
    rw [← List.append_assoc, List.take_append_drop, List.length_take, Nat.min_eq_left hle, ← hk]
  have hinside := Inside.escape (.octal he hoctal) hw
  rw [List.take_append_drop] at hinside
  exact ⟨_, hinside⟩

/-- Behind an octal escape there may be a digit more, and nothing else changes. -/
lemma Inside.octal {n : Nat} {w : Text} (he : Byte.isOctal e = true)
    (h : octalEscape (e.toNat - 48) 2 (taken ++ (s ++ [quote])) = (n, taken.length))
    (hout : Inside quote (unescapeBody quote 0 s) w) :
    ∃ w', Inside quote ('\\'.toUInt8 :: e :: (taken ++ unescapeBody quote 0 s)) w' ∧
      (takesIn quote e (taken ++ s) = false → w' = Text.utf8 n ++ w) := by
  by_cases hsame : octalEscape (e.toNat - 48) 2 (taken ++ (unescapeBody quote 0 s ++ [quote])) = (n, taken.length)
  · exact ⟨_, .escape (.octal he hsame) hout, fun _ => rfl⟩
  have hdigits := isOctal_of_taken (a := e.toNat - 48) (m := 2) (taken ++ (s ++ [quote]))
  rw [h, List.take_left] at hdigits
  obtain ⟨w', hw'⟩ := (hout.append fun c hc => not_mem_of_isOctal hquote (hdigits c hc)).exists_of_octal hquote he
  refine ⟨w', hw', fun hfalse => ?_⟩
  rw [octalEscape_iff_head] at h hsame
  obtain hhead | ⟨rest, code, rfl, hr, hhead⟩ := head?_unescapeBody quote s
  · rw [List.head?_append, hhead, ← List.head?_append] at hsame
    exact absurd h hsame
  · rw [List.head?_append, hhead] at hsame
    cases hfalse.symm.trans (takesIn_of_resolved? he hr (octalEscape_iff_head.mpr h) hsame)

/-- What stands between two quotes does so still. -/
theorem Inside.unescape (hs : Inside quote s v) :
    ∃ w, Inside quote (unescapeBody quote 0 s) w ∧ (swallows quote s = false → w = v) := by
  induction hs with
  | nil => exact ⟨[], .nil, fun _ => rfl⟩
  | @plain c s v hc hs ih =>
    obtain ⟨w, hw, hkeeps⟩ := ih
    have hback : c ≠ '\\'.toUInt8 := by
      rintro rfl
      simp at hc
    rw [unescapeBody_cons hback, swallows_cons hback]
    exact ⟨c :: w, .plain hc hw, fun h => by rw [hkeeps h]⟩
  | @escape e taken s value v he hs ih =>
    obtain ⟨w, hw, hkeeps⟩ := ih
    rw [swallows_escape, he.swallows_taken, Bool.or_eq_false_iff]
    cases hr : resolved? quote (e :: (taken ++ s)) with
    | some code =>
      obtain ⟨hlength, rfl⟩ := he.resolved hr
      rw [unescapeBody_resolved hr, hlength, List.drop_succ_cons, List.drop_left]
      exact ⟨code.code.toUInt8 :: w, .plain (plain_of_resolved? hr) hw, fun h => by rw [hkeeps h.2]; rfl⟩
    | none =>
      rw [unescapeBody_kept hr, he.unescapeBody_taken]
      by_cases hoctal : Byte.isOctal e = true
      · obtain ⟨n, rfl, hn⟩ := he.exists_octal hoctal
        obtain ⟨w', hw', hkeeps'⟩ := Inside.octal hquote hoctal hn hw
        exact ⟨w', hw', fun h => by rw [hkeeps' h.1, hkeeps h.2]⟩
      · have he' := he.behind (Bool.not_eq_true _ ▸ hoctal) head?_unescapeBody_append hs.lowSurrogate?_unescapeBody
        exact ⟨value ++ w, .escape he' hw, fun h => by rw [hkeeps h.2]⟩

end Quotes

end Scan

end Unescape

/-- Whether an octal escape in the spelling of a string takes in a character that stands for an escape. -/
def swallowsEscape : Text → Bool
  | [] => false
  | quote :: s => swallows quote s.dropLast

lemma unescape_enclosed (quote : UInt8) (s : Text) :
    unescape (quote :: (s ++ [quote])) = quote :: (unescapeBody quote 0 s ++ [quote]) := by
  rw [unescape, List.dropLast_concat, List.getLast?_concat]
  · rfl
  · simp

/-- The spelling of a string with its escapes resolved is that of a string with the same quotes. It is the same string,
unless an octal escape takes in a character that stands for an escape. -/
theorem unescape_spells {raw value : Text} (h : SpellsString raw value) : ∃ value', SpellsString (unescape raw) value' ∧
    (unescape raw).head? = raw.head? ∧ (swallowsEscape raw = false → value' = value) := by
  obtain ⟨quote, s, hquote, rfl, hs⟩ := spellsString_iff.mp h
  obtain ⟨w, hw, hkeeps⟩ := hs.unescape hquote
  rw [unescape_enclosed]
  refine ⟨w, spellsString_iff.mpr ⟨quote, _, hquote, rfl, hw⟩, rfl, fun h => hkeeps ?_⟩
  rwa [swallowsEscape, List.dropLast_concat] at h

/-- A zero and a digit become one character. -/
theorem unescape_octal : SpellsString "'\\0\\x31'" [0x00, 0x31] ∧ SpellsString (unescape "'\\0\\x31'") [0x01] := by
  have hread (raw value : Text) (n : Nat) (h : shift 1 (quotedBody (raw.headD 0) raw.tail) = .ok (value, n)) :
      string raw = .ok (.string value, n) := by rw [string, h]; rfl
  exact ⟨⟨.inr rfl, hread _ _ _ (by decide +kernel)⟩, ⟨.inr rfl, hread _ _ _ (by decide +kernel)⟩⟩

end PlainScript
