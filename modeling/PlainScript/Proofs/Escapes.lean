import PlainScript.Proofs.Extents

/-! What strings denote. The spelling of a string is a row of characters and escapes between its quotes, and an escape
takes in as much of what follows as belongs to it. -/
namespace PlainScript

/-- All of these are hexadecimal digits. -/
abbrev Text.IsHex (digits : Text) : Prop := ∀ c ∈ digits, Byte.isHex c = true

lemma Text.readHex_append {digits : Text} (hhex : digits.IsHex) (after : Text) :
    Text.readHex digits.length (digits ++ after) = .ok (Text.hexNumber digits) := by
  rw [Text.readHex, List.take_left, List.takeWhile_eq_self_iff.mpr hhex]
  exact if_pos rfl

lemma Text.readHex_eq_ok {k n : Nat} {s : Text} (h : Text.readHex k s = .ok n) :
    ∃ digits after, s = digits ++ after ∧ digits.length = k ∧ digits.IsHex ∧ Text.hexNumber digits = n := by
  rw [Text.readHex] at h
  split at h
  next hlength =>
    have htake : (s.take k).takeWhile Byte.isHex = s.take k :=
      (List.takeWhile_prefix _).eq_of_length_le (hlength.symm ▸ List.length_take_le k s)
    rw [htake] at h hlength
    exact ⟨s.take k, s.drop k, (List.take_append_drop k s).symm, hlength, List.takeWhile_eq_self_iff.mp htake,
      Except.ok.inj h⟩
  next => cases h

namespace Scan

/-- What stands behind `\u`, what is left behind it, and what is denoted. -/
inductive CodePoint : (taken after value : Text) → Prop
  | braced {digits after : Text} (hhex : digits.IsHex) (hlength : 0 < digits.length ∧ digits.length ≤ 6)
      (hle : Text.hexNumber digits ≤ 0x10FFFF) :
      CodePoint ('\x7b'.toUInt8 :: (digits ++ ['\x7d'.toUInt8])) after (Text.utf8 (Text.hexNumber digits))
  | single {digits after : Text} (hhex : digits.IsHex) (hlength : digits.length = 4)
      (hlone : Text.isHighSurrogate (Text.hexNumber digits) = true → lowSurrogate? after = none) :
      CodePoint digits after (Text.utf8 (Text.hexNumber digits))
  | pair {high low after : Text} (hhex : high.IsHex ∧ low.IsHex) (hlength : high.length = 4 ∧ low.length = 4)
      (hhigh : Text.isHighSurrogate (Text.hexNumber high) = true)
      (hlow : Text.isLowSurrogate (Text.hexNumber low) = true) :
      CodePoint (high ++ '\\'.toUInt8 :: 'u'.toUInt8 :: low) after
        (Text.utf8 (Text.joinSurrogates (Text.hexNumber high) (Text.hexNumber low)))

lemma lowSurrogate?_eq_some {s : Text} {n : Nat} (h : lowSurrogate? s = some n) :
    ∃ digits after, s = '\\'.toUInt8 :: 'u'.toUInt8 :: (digits ++ after) ∧ digits.length = 4 ∧ Text.IsHex digits ∧
      Text.hexNumber digits = n ∧ Text.isLowSurrogate n = true := by
  rw [lowSurrogate?] at h
  split at h
  next hlead =>
    obtain ⟨more, rfl⟩ := List.isPrefixOf_iff_prefix.mp hlead
    split at h
    next low hread =>
      split at h
      next hlow =>
        obtain rfl := Option.some.inj h
        obtain ⟨digits, after, heq, hlength, hhex, hnumber⟩ := Text.readHex_eq_ok hread
        refine ⟨digits, after, ?_, hlength, hhex, hnumber, hlow⟩
        rw [← heq]
        rfl
      next => cases h
    next => cases h
  next => cases h

lemma unicodeEscape_eq_ok {s value : Text} {n : Nat} (h : unicodeEscape s = .ok (value, n)) :
    ∃ taken after, s = taken ++ after ∧ n = taken.length ∧ CodePoint taken after value := by
  rw [unicodeEscape] at h
  dsimp only at h
  split at h
  next hbrace =>
    obtain ⟨rest, rfl⟩ := List.head?_eq_some_iff.mp hbrace
    split at h
    · cases h
    next hlong =>
    split at h
    · cases h
    next hclosing =>
    split at h
    · cases h
    next hvalue =>
    obtain ⟨rfl, rfl⟩ := Prod.mk.inj (Except.ok.inj h)
    obtain ⟨after, hafter⟩ := List.head?_eq_some_iff.mp (not_not.mp hclosing)
    simp only [List.tail_cons, not_or, Bool.or_eq_true] at hafter hlong hvalue ⊢
    have hsplit := List.prefix_iff_eq_append.mp (List.takeWhile_prefix Byte.isHex (l := rest))
    rw [hafter] at hsplit
    have hhex : Text.IsHex (rest.takeWhile Byte.isHex) := fun c hc => List.mem_takeWhile_imp hc
    refine ⟨'\x7b'.toUInt8 :: (rest.takeWhile Byte.isHex ++ ['\x7d'.toUInt8]), after, ?_, by simp,
      .braced hhex ⟨?_, Nat.not_lt.mp hlong⟩ (Nat.not_lt.mp fun hlt => hvalue.2 (decide_eq_true hlt))⟩
    · rw [List.cons_append, List.append_assoc]
      exact congrArg ('\x7b'.toUInt8 :: ·) hsplit.symm
    · exact List.length_pos_of_ne_nil fun hnil => hvalue.1 (hnil ▸ rfl)
  next =>
    split at h
    · cases h
    next cp hread =>
      obtain ⟨digits, after, rfl, hlength, hhex, rfl⟩ := Text.readHex_eq_ok hread
      rw [← hlength, List.drop_left] at h
      split at h
      next low hlow =>
        obtain ⟨rfl, rfl⟩ := Prod.mk.inj (Except.ok.inj h)
        split at hlow
        next hhigh =>
          obtain ⟨digits', after', rfl, hlength', hhex', rfl, hislow⟩ := lowSurrogate?_eq_some hlow
          refine ⟨digits ++ '\\'.toUInt8 :: 'u'.toUInt8 :: digits', after', by simp, ?_,
            .pair ⟨hhex, hhex'⟩ ⟨hlength, hlength'⟩ hhigh hislow⟩
          simp [hlength, hlength']
        next => cases hlow
      next hnone =>
        obtain ⟨rfl, rfl⟩ := Prod.mk.inj (Except.ok.inj h)
        refine ⟨digits, after, rfl, rfl, .single hhex hlength fun hhigh => ?_⟩
        rwa [if_pos hhigh] at hnone

lemma lowSurrogate?_append {low : Text} (hhex : low.IsHex) (hlength : low.length = 4)
    (hlow : Text.isLowSurrogate (Text.hexNumber low) = true) (after : Text) :
    lowSurrogate? ('\\'.toUInt8 :: 'u'.toUInt8 :: (low ++ after)) = some (Text.hexNumber low) := by
  rw [lowSurrogate?, if_pos (by rfl), List.drop_succ_cons, List.drop_succ_cons, List.drop_zero, ← hlength,
    Text.readHex_append hhex]
  exact if_pos hlow

lemma CodePoint.unicodeEscape_eq {taken after value : Text} (h : CodePoint taken after value) :
    unicodeEscape (taken ++ after) = .ok (value, taken.length) := by
  have hbrace {digits : Text} (hhex : digits.IsHex) (hlength : digits.length = 4) (after : Text) :
      (digits ++ after).head? ≠ some '\x7b'.toUInt8 := by
    obtain ⟨c, more, rfl⟩ := List.exists_cons_of_length_eq_add_one hlength
    rintro ⟨⟩
    exact absurd (hhex _ (List.mem_cons_self ..)) (by decide)
  rw [unicodeEscape]
  cases h with
  | @braced digits _ hhex hlength hle =>
    have htake : (digits ++ '\x7d'.toUInt8 :: after).takeWhile Byte.isHex = digits := by
      rw [List.takeWhile_append_of_pos hhex, List.takeWhile_cons_of_neg (by decide), List.append_nil]
    rw [if_pos (by rfl), List.cons_append, List.append_assoc, List.tail_cons, List.singleton_append]
    simp only [htake, List.drop_left]
    rw [if_neg (Nat.not_lt.mpr hlength.2), if_neg (by simp), if_neg]
    · simp
    · simpa [← List.length_pos_iff] using ⟨hlength.1, hle⟩
  | @single digits _ hhex hlength hlone =>
    rw [if_neg (hbrace hhex hlength after), ← hlength, Text.readHex_append hhex]
    simp only [List.drop_left]
    split
    next low hlow =>
      split at hlow
      next hhigh => cases (hlone hhigh).symm.trans hlow
      next => cases hlow
    next => rfl
  | @pair high low _ hhex hlength hhigh hlow =>
    rw [List.append_assoc, if_neg (hbrace hhex.1 hlength.1 _), ← hlength.1, Text.readHex_append hhex.1]
    simp only [List.drop_left, if_pos hhigh, List.cons_append, lowSurrogate?_append hhex.2 hlength.2 hlow]
    simp [hlength]

/-- What stands behind a backslash, first of all `e`, what is left behind it, and what is denoted. -/
inductive Escapes : (e : UInt8) → (taken after value : Text) → Prop
  | letter {e c : UInt8} {after : Text} (h : letterEscape? e = some c) : Escapes e [] after [c]
  | lineFeed {after : Text} : Escapes '\n'.toUInt8 [] after []
  | carriageReturn {after : Text} (h : after.head? ≠ some '\n'.toUInt8) : Escapes '\r'.toUInt8 [] after []
  | returnLineFeed {after : Text} : Escapes '\r'.toUInt8 ['\n'.toUInt8] after []
  | byte {digits after : Text} (hhex : digits.IsHex) (hlength : digits.length = 2) :
      Escapes 'x'.toUInt8 digits after (Text.utf8 (Text.hexNumber digits))
  | codePoint {taken after value : Text} (h : CodePoint taken after value) : Escapes 'u'.toUInt8 taken after value
  | octal {e : UInt8} {taken after : Text} {n : Nat} (he : Byte.isOctal e = true)
      (h : octalEscape (e.toNat - 48) 2 (taken ++ after) = (n, taken.length)) : Escapes e taken after (Text.utf8 n)
  | other {e : UInt8} {after : Text} (hletter : letterEscape? e = none) (hoctal : Byte.isOctal e = false)
      (hmark : e ∉ ['\n'.toUInt8, '\r'.toUInt8, 'x'.toUInt8, 'u'.toUInt8]) : Escapes e [] after [e]

variable {e quote c : UInt8} {taken after value s v : Text} {n : Nat}

lemma of_isOctal (he : Byte.isOctal e = true) : letterEscape? e = none ∧
    e ∉ ['\n'.toUInt8, '\r'.toUInt8, 'x'.toUInt8, 'u'.toUInt8] := by
  revert he
  exact Byte.forall_of_lt (P := fun e => Byte.isOctal e = true → letterEscape? e = none ∧
    e ∉ ['\n'.toUInt8, '\r'.toUInt8, 'x'.toUInt8, 'u'.toUInt8]) (by decide +kernel) e

/-- Where an octal escape ends depends on the next character only. -/
lemma octalEscape_iff_head {a m n : Nat} : octalEscape a m (taken ++ after) = (n, taken.length) ↔
    octalEscape a m (taken ++ after.head?.toList) = (n, taken.length) := by
  induction taken generalizing a m with
  | nil =>
    cases m with
    | zero => rfl
    | succ m =>
      cases after with
      | nil => rfl
      | cons c after =>
        simp only [List.nil_append, List.head?_cons, Option.toList_some, octalEscape]
        split_ifs
        · exact iff_of_false nofun nofun
        · rfl
  | cons d taken ih =>
    cases m with
    | zero => rfl
    | succ m =>
      simp only [List.cons_append, octalEscape]
      split_ifs
      · have hiff (x : Nat × Nat) : (x.1, x.2 + 1) = (n, (d :: taken).length) ↔ x = (n, taken.length) := by
          simp [Prod.ext_iff]
        exact (hiff _).trans (ih.trans (hiff _).symm)
      · rfl

lemma Escapes.escape_eq (h : Escapes e taken after value) :
    escape e (taken ++ after) = .ok (value, taken.length + 1) := by
  cases h with
  | letter h => rw [escape, h]; rfl
  | lineFeed | returnLineFeed => rfl
  | carriageReturn h =>
    have hletter : letterEscape? '\r'.toUInt8 = none := by decide
    simp only [escape, hletter, List.nil_append, if_neg h]
    rfl
  | byte hhex hlength =>
    have hletter : letterEscape? 'x'.toUInt8 = none := by decide
    have hread : Text.readHex 2 (taken ++ after) = .ok (Text.hexNumber taken) :=
      hlength ▸ Text.readHex_append hhex after
    rw [escape, hletter, hlength]
    simp only [hread]
    rfl
  | codePoint h =>
    have hletter : letterEscape? 'u'.toUInt8 = none := by decide
    rw [escape, hletter]
    simp only [h.unicodeEscape_eq, shift, Nat.add_comm 1]
    rfl
  | octal he h =>
    obtain ⟨hletter, hmark⟩ := of_isOctal he
    simp only [List.mem_cons, List.not_mem_nil, or_false, not_or] at hmark
    simp [escape, hletter, hmark, he, h, Nat.add_comm 1]
  | other hletter hoctal hmark =>
    simp only [List.mem_cons, List.not_mem_nil, or_false, not_or] at hmark
    simp [escape, hletter, hmark, hoctal]

lemma escape_eq_ok (h : escape e s = .ok (value, n)) :
    ∃ taken after, s = taken ++ after ∧ n = taken.length + 1 ∧ Escapes e taken after value := by
  rw [escape] at h
  split at h
  next c hletter =>
    obtain ⟨rfl, rfl⟩ := Prod.mk.inj (Except.ok.inj h)
    exact ⟨[], s, rfl, rfl, .letter hletter⟩
  next hletter =>
  split_ifs at h with hfeed hreturn hlf hx hu hoctal
  · obtain ⟨rfl, rfl⟩ := Prod.mk.inj (Except.ok.inj h)
    exact ⟨[], s, rfl, rfl, eq_of_beq hfeed ▸ .lineFeed⟩
  · obtain ⟨rfl, rfl⟩ := Prod.mk.inj (Except.ok.inj h)
    obtain ⟨more, rfl⟩ := List.head?_eq_some_iff.mp hlf
    exact ⟨['\n'.toUInt8], more, rfl, rfl, eq_of_beq hreturn ▸ .returnLineFeed⟩
  · obtain ⟨rfl, rfl⟩ := Prod.mk.inj (Except.ok.inj h)
    exact ⟨[], s, rfl, rfl, eq_of_beq hreturn ▸ .carriageReturn hlf⟩
  · split at h
    · cases h
    next cp hread =>
      obtain ⟨rfl, rfl⟩ := Prod.mk.inj (Except.ok.inj h)
      obtain ⟨digits, after, rfl, hlength, hhex, rfl⟩ := Text.readHex_eq_ok hread
      exact ⟨digits, after, rfl, by rw [hlength], eq_of_beq hx ▸ .byte hhex hlength⟩
  · obtain ⟨k, hunicode, rfl⟩ := shift_eq_ok h
    obtain ⟨taken, after, rfl, rfl, hpoint⟩ := unicodeEscape_eq_ok hunicode
    exact ⟨taken, after, rfl, Nat.add_comm .., eq_of_beq hu ▸ .codePoint hpoint⟩
  · obtain ⟨rfl, rfl⟩ := Prod.mk.inj (Except.ok.inj h)
    have hk := octalEscape_le (e.toNat - 48) 2 s
    refine ⟨s.take _, s.drop _, (List.take_append_drop (octalEscape (e.toNat - 48) 2 s).2 s).symm, ?_, ?_⟩
    · rw [List.length_take, Nat.min_eq_left hk, Nat.add_comm]
    · refine .octal hoctal ?_
      rw [List.take_append_drop, List.length_take, Nat.min_eq_left hk]
  · obtain ⟨rfl, rfl⟩ := Prod.mk.inj (Except.ok.inj h)
    exact ⟨[], s, rfl, rfl, .other hletter (by simpa using hoctal) (by simp_all)⟩

/-- A row of characters and escapes between two quotes, and what it denotes. -/
inductive Inside (quote : UInt8) : (s value : Text) → Prop
  | nil : Inside quote [] []
  | plain {c : UInt8} {s v : Text} (hc : c ∉ ['\n'.toUInt8, quote, '\\'.toUInt8]) (h : Inside quote s v) :
      Inside quote (c :: s) (c :: v)
  | escape {e : UInt8} {taken s value v : Text} (he : Escapes e taken (s ++ [quote]) value) (h : Inside quote s v) :
      Inside quote ('\\'.toUInt8 :: e :: (taken ++ s)) (value ++ v)

lemma Inside.quotedBody_eq (h : Inside quote s v) (hquote : quote ∉ ['\n'.toUInt8, '\\'.toUInt8]) :
    quotedBody quote (s ++ [quote]) = .ok (v, s.length + 1) := by
  simp only [List.mem_cons, List.not_mem_nil, or_false, not_or] at hquote
  induction h with
  | nil =>
    rw [List.nil_append, quotedBody.eq_def]
    simp [hquote]
  | @plain c s v hc h ih =>
    simp only [List.mem_cons, List.not_mem_nil, or_false, not_or] at hc
    rw [List.cons_append, quotedBody.eq_def]
    simp [hc, ih, shift, Nat.add_comm 1]
  | @escape e taken s value v he h ih =>
    have hread := quotedBody_escape taken (beq_false_of_ne (Ne.symm hquote.2)) he.escape_eq ih
    rw [List.cons_append, List.cons_append, List.append_assoc, hread]
    simp [Nat.add_assoc, Nat.add_comm, Nat.add_left_comm]

lemma exists_inside {body : Text} (h : quotedBody quote body = .ok (v, body.length)) :
    ∃ s, body = s ++ [quote] ∧ Inside quote s v := by
  fun_induction quotedBody quote body generalizing v with
  | case1 | case2 | case4 | case5 | case6 | case8 => cases h
  | case3 c rest hfeed hclose =>
    obtain ⟨rfl, hlength⟩ := Prod.mk.inj (Except.ok.inj h)
    obtain rfl := List.length_eq_zero_iff.mp (Nat.succ.inj hlength.symm)
    exact ⟨[], by rw [eq_of_beq hclose]; rfl, .nil⟩
  | case7 c hfeed hclose hback e rest _ m hescape _ size hshift ih =>
    obtain ⟨k, hbody, rfl⟩ := shift_eq_ok hshift
    obtain ⟨rfl, hlength⟩ := Prod.mk.inj (Except.ok.inj h)
    obtain ⟨taken, after, rfl, rfl, he⟩ := escape_eq_ok hescape
    rw [Nat.add_sub_cancel, List.drop_left] at hbody ih
    obtain rfl : k = after.length := by
      simp only [List.length_cons, List.length_append] at hlength
      omega
    obtain ⟨s, rfl, hs⟩ := ih hbody
    refine ⟨'\\'.toUInt8 :: e :: (taken ++ s), ?_, .escape he hs⟩
    rw [eq_of_beq hback, List.cons_append, List.cons_append, List.append_assoc]
  | case9 c rest hfeed hclose hback _ size hshift ih =>
    obtain ⟨k, hbody, rfl⟩ := shift_eq_ok hshift
    obtain ⟨rfl, hlength⟩ := Prod.mk.inj (Except.ok.inj h)
    obtain rfl : k = rest.length := by
      simp only [List.length_cons] at hlength
      omega
    obtain ⟨s, rfl, hs⟩ := ih hbody
    exact ⟨c :: s, rfl, .plain (by simp_all) hs⟩

end Scan

open Scan

/-- The text is one string of this value, between its quotes. -/
structure SpellsString (raw value : Text) : Prop where
  quoted : raw.head? = some '"'.toUInt8 ∨ raw.head? = some '\''.toUInt8
  string_eq : string raw = .ok (.string value, raw.length)

lemma spellsString_iff {raw value : Text} : SpellsString raw value ↔ ∃ quote s,
    quote ∈ ['"'.toUInt8, '\''.toUInt8] ∧ raw = quote :: (s ++ [quote]) ∧ Inside quote s value := by
  constructor
  · rintro ⟨hquoted, hstring⟩
    obtain ⟨quote, body, rfl⟩ : ∃ quote body, raw = quote :: body := by
      cases raw with
      | nil => simp at hquoted
      | cons quote body => exact ⟨quote, body, rfl⟩
    rw [string] at hstring
    cases hbody : quotedBody quote body with
    | error e => simp [hbody, shift, Except.map] at hstring
    | ok r =>
      obtain ⟨v, n⟩ := r
      simp only [List.headD_cons, List.tail_cons, hbody, shift, Except.map, Except.ok.injEq, Prod.mk.injEq,
        TokenKind.string.injEq, List.length_cons, Nat.add_comm 1, Nat.add_right_cancel_iff] at hstring
      obtain ⟨rfl, rfl⟩ := hstring
      obtain ⟨s, rfl, hs⟩ := exists_inside hbody
      exact ⟨quote, s, by simpa using hquoted, rfl, hs⟩
  · rintro ⟨quote, s, hquote, rfl, hs⟩
    simp only [List.mem_cons, List.not_mem_nil, or_false] at hquote
    have hread : quotedBody quote (s ++ [quote]) = .ok (value, s.length + 1) := hs.quotedBody_eq (by
      rintro hmem
      obtain rfl | rfl := hquote <;> revert hmem <;> decide)
    refine ⟨by simpa using hquote, ?_⟩
    simp [string, hread, shift, Except.map, Nat.add_comm]

end PlainScript
