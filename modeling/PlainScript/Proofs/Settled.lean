import PlainScript.Proofs.Lexing
import PlainScript.Proofs.Unescaping

/-! Strings with nothing left to resolve. A string without an escape by code is one of them, and so is every string
whose escapes were resolved: no character that took the place of an escape makes an escape with what is beside it. -/
namespace PlainScript

open Scan

/-- A text that stays as it is between these quotes. Each backslash goes with the byte behind it. -/
inductive Settled (quote : UInt8) : Text → Prop
  | nil : Settled quote []
  | lone : Settled quote ['\\'.toUInt8]
  | plain {c : UInt8} {s : Text} (hc : c ≠ '\\'.toUInt8) (h : Settled quote s) : Settled quote (c :: s)
  | escape {e : UInt8} {s : Text} (hnone : resolved? quote (e :: s) = none) (h : Settled quote s) :
      Settled quote ('\\'.toUInt8 :: e :: s)

section Settled

variable {quote e : UInt8} {s taken after value v : Text}

lemma Settled.unescapeBody_eq (h : Settled quote s) : unescapeBody quote 0 s = s := by
  induction h with
  | nil | lone => rfl
  | plain hc h ih => rw [unescapeBody_cons hc, ih]
  | escape hnone h ih => rw [unescapeBody_kept hnone, ih]

lemma Settled.append (htaken : '\\'.toUInt8 ∉ taken) (h : Settled quote s) : Settled quote (taken ++ s) := by
  induction taken with
  | nil => exact h
  | cons c taken ih =>
    rw [List.mem_cons, not_or] at htaken
    exact .plain (Ne.symm htaken.1) (ih htaken.2)

/-! ### Strings without an escape by code -/

lemma resolved?_of_ne (hx : e ≠ 'x'.toUInt8) (hu : e ≠ 'u'.toUInt8) : resolved? quote (e :: s) = none := by
  rw [resolved?, read?_of_ne hx hu, Option.filter_none]

/-- The scan for escapes by code goes by the same pairs as what resolves them. -/
lemma settled_of_not_hasCodeEscape (quote : UInt8) (h : hasCodeEscape s = false) : Settled quote s := by
  fun_induction hasCodeEscape s with
  | case1 => exact .nil
  | case2 c =>
    by_cases hc : c = '\\'.toUInt8
    · exact hc ▸ .lone
    · exact .plain hc .nil
  | case3 c d rest hc ih => exact .plain (by simpa using hc) (ih h)
  | case4 c d rest hc ih =>
    obtain rfl : c = '\\'.toUInt8 := by simpa using hc
    simp only [Bool.or_eq_false_iff, beq_eq_false_iff_ne] at h
    obtain ⟨⟨hx, hu⟩, hrest⟩ := h
    exact .escape (resolved?_of_ne hx hu) (ih hrest)

lemma hasCodeEscape_append (h : hasCodeEscape s = true) (after : Text) : hasCodeEscape (s ++ after) = true := by
  fun_induction hasCodeEscape s with
  | case1 | case2 => cases h
  | case3 c d rest hc ih =>
    rw [List.cons_append, List.cons_append, hasCodeEscape, if_pos hc]
    exact ih h
  | case4 c d rest hc ih =>
    rw [List.cons_append, List.cons_append, hasCodeEscape, if_neg hc]
    rw [Bool.or_eq_true] at h ⊢
    exact h.imp_right ih

/-- The first quote is paired with nothing, so that the pairs between the quotes are those of the whole string. -/
lemma hasCodeEscape_inside (hquote : quote ≠ '\\'.toUInt8) (h : hasCodeEscape (quote :: (s ++ [quote])) = false) :
    hasCodeEscape s = false := by
  rw [← Bool.not_eq_true] at h ⊢
  intro hs
  obtain ⟨c, rest, rfl⟩ : ∃ c rest, s = c :: rest := by
    cases s with
    | nil => cases hs
    | cons c rest => exact ⟨c, rest, rfl⟩
  refine h ?_
  rw [List.cons_append, hasCodeEscape, if_pos (by simpa using hquote)]
  exact hasCodeEscape_append hs [quote]

/-! ### Strings whose escapes are resolved -/

/-- What an escape is resolved to does not depend on what is behind it. -/
lemma Scan.Escapes.resolved?_eq (h : Escapes e taken after value) (quote : UInt8) (s s' : Text) :
    resolved? quote (e :: (taken ++ s)) = resolved? quote (e :: (taken ++ s')) := by
  obtain ⟨hx, hu⟩ | ⟨rfl, hhex, hlength, -⟩ | ⟨rfl, hpoint⟩ := h.mark_cases
  · rw [resolved?_of_ne hx hu, resolved?_of_ne hx hu]
  · rw [resolved?, resolved?, read?_byte hhex hlength, read?_byte hhex hlength]
  · cases hpoint with
    | braced hhex hlength =>
      simp only [List.cons_append, List.append_assoc, resolved?, read?_braced hhex hlength]
    | single hhex hlength => rw [resolved?, resolved?, read?_fixed hhex hlength, read?_fixed hhex hlength]
    | pair hhex hlength => simp only [List.append_assoc, resolved?, read?_fixed hhex.1 hlength.1]

/-- The text of an escape has no escape in it that is resolved. -/
lemma Scan.Escapes.settled_append (h : Escapes e taken after value) (hs : Settled quote s) :
    Settled quote (taken ++ s) := by
  obtain hback | ⟨high, low, rfl, hhigh, hlow, hnone⟩ := h.taken_cases
  · exact hs.append hback
  · rw [List.append_assoc]
    exact (Settled.escape (hnone quote s) (hs.append hlow)).append hhigh

/-- Nothing is left to resolve in what was resolved. -/
theorem Scan.Inside.settled (hs : Inside quote s v) : Settled quote (unescapeBody quote 0 s) := by
  induction hs with
  | nil => exact .nil
  | @plain c s v hc hs ih =>
    simp only [List.mem_cons, List.not_mem_nil, or_false, not_or] at hc
    rw [unescapeBody_cons hc.2.2]
    exact .plain hc.2.2 ih
  | @escape e taken s value v he hs ih =>
    cases hr : resolved? quote (e :: (taken ++ s)) with
    | some code =>
      obtain ⟨hlength, -⟩ := he.resolved hr
      have hplain := plain_of_resolved? hr
      simp only [List.mem_cons, List.not_mem_nil, or_false, not_or] at hplain
      rw [unescapeBody_resolved hr, hlength, List.drop_succ_cons, List.drop_left]
      exact .plain hplain.2.2 ih
    | none =>
      rw [unescapeBody_kept hr, he.unescapeBody_taken]
      exact .escape ((he.resolved?_eq quote _ s).trans hr) (he.settled_append ih)

/-! ### Quoted strings -/

open Print

/-- What is no printable character keeps its escape. -/
lemma resolved?_of_read? {code : CodeEscape} (hread : CodeEscape.read? s = some code)
    (hcode : code.code < 0x20 ∨ 0x7E < code.code) : resolved? quote s = none := by
  rw [Option.eq_none_iff_forall_ne_some]
  intro code' hr
  obtain ⟨hread', hlow, hhigh, -⟩ := resolved?_eq_some.mp hr
  obtain rfl := Option.some.inj (hread.symm.trans hread')
  omega

/-- A byte that is quoted needs the escape that it has. -/
lemma Settled.byte (c : UInt8) (h : Settled quote s) : Settled quote (escapeByte c ++ s) := by
  unfold escapeByte
  cases hs : shortEscape? c with
  | some t =>
    obtain ⟨e, rfl, he⟩ := escape_short hs
    refine .escape (resolved?_of_ne ?_ ?_) h
    · rintro rfl
      cases he []
    · rintro rfl
      cases he []
  | none =>
    dsimp only
    split
    next hc =>
      obtain ⟨hlength, hhex, hnumber⟩ := hexDigits_byte c.toNat c.toNat_lt
      rw [List.takeWhile_eq_self_iff] at hhex
      have hcode : Text.hexNumber (Text.hexDigits 2 c.toNat) < 0x20 ∨
          0x7E < Text.hexNumber (Text.hexDigits 2 c.toNat) := by
        rw [hnumber]
        rw [Bool.or_eq_true, decide_eq_true_eq, beq_iff_eq, UInt8.lt_iff_toNat_lt, ← UInt8.toNat_inj] at hc
        exact hc.imp_right (Nat.lt_of_lt_of_eq (Nat.lt_succ_self 0x7E) ·.symm)
      exact .escape (resolved?_of_read? (read?_byte hhex hlength s) hcode) (h.append (backslash_not_mem hhex))
    next =>
      refine .plain ?_ h
      rintro rfl
      cases hs

/-- The separators between lines are no printable characters. -/
lemma Settled.separator {digits : Text} (hhex : digits.IsHex) (hlength : digits.length = 4)
    (hcode : 0x7E < Text.hexNumber digits) (h : Settled quote s) :
    Settled quote ('\\'.toUInt8 :: 'u'.toUInt8 :: (digits ++ s)) :=
  .escape (resolved?_of_read? (read?_fixed hhex hlength s) (.inr hcode)) (h.append (backslash_not_mem hhex))

end Settled

/-! ### Strings as tokens -/

/-- Only what begins with a quote is a string. -/
lemma Scan.string_of_token {previous : Option Token} {c : UInt8} {rest value : Text} {n : Nat}
    (h : token previous (c :: rest) = .ok (.string value, n)) :
    (c = '"'.toUInt8 ∨ c = '\''.toUInt8) ∧ string (c :: rest) = .ok (.string value, n) := by
  rw [token_cons] at h
  split at h
  · simp only [word] at h
    repeat' split at h
    all_goals simp at h
  split at h
  · simp only [number] at h
    repeat' split at h
    all_goals simp at h
  split at h
  · next hc => exact ⟨by simpa using hc, h⟩
  exfalso
  repeat' split at h
  · cases hs : templateEnd [.body] 1 rest <;> simp [template, hs, Except.map] at h
  · cases hs : regExpBody false 1 rest <;> simp [regExp, hs, Except.map] at h
  · simp only [punctuator] at h
    split at h <;> simp at h

/-- A token that spells the whole text is read in front of all. -/
lemma token_of_tokenize {source : Text} {t : Token} {later : List Token} (h : tokenize source = .ok (t :: later))
    (hkind : t.kind ≠ .endOfFile) (htext : t.text = source) :
    Scan.token none source = .ok (t.kind, source.length) := by
  rw [tokenize] at h
  cases finds_of_tokensFrom h with
  | ending hgap ht => exact absurd (congrArg Prod.fst ht) hkind
  | @token _ g after comments position _ hrest hgap hne htoken =>
    have hlength := congrArg List.length hrest
    have hpos := List.length_pos_iff.mpr hne
    rw [htext] at hlength hpos htoken
    simp only [Cursor.advance_rest, List.length_drop, List.length_append] at hlength
    obtain rfl : after = [] := List.length_eq_zero_iff.mp (by omega)
    rwa [List.append_nil] at htoken

lemma spellsString_of_tokenize {raw value : Text} {t : Token} {later : List Token}
    (h : tokenize raw = .ok (t :: later)) (hkind : t.kind = .string value) (htext : t.text = raw) :
    SpellsString raw value := by
  have htoken := token_of_tokenize h (by rw [hkind]; nofun) htext
  rw [hkind] at htoken
  cases raw with
  | nil => cases htoken
  | cons c rest =>
    obtain ⟨hc, hstring⟩ := string_of_token htoken
    exact ⟨by simpa using hc, hstring⟩

namespace SpellsString

variable {raw value : Text} (h : SpellsString raw value)
include h

/-- A string without an escape by code stays as it is. -/
lemma unescape_eq (hnone : hasCodeEscape raw = false) : unescape raw = raw := by
  obtain ⟨quote, s, hquote, rfl, -⟩ := spellsString_iff.mp h
  have hback : quote ≠ '\\'.toUInt8 := by
    rintro rfl
    revert hquote
    decide
  rw [unescape_enclosed, (settled_of_not_hasCodeEscape quote (hasCodeEscape_inside hback hnone)).unescapeBody_eq]

lemma unescape_again : unescape (unescape raw) = unescape raw := by
  obtain ⟨quote, s, -, rfl, hs⟩ := spellsString_iff.mp h
  rw [unescape_enclosed, unescape_enclosed, hs.settled.unescapeBody_eq]

end SpellsString

/-- A string that is changed has an escape by code, and resolving its escapes once is enough. -/
theorem unescape_settles {raw value : Text} {t last : Token} (h : tokenize raw = .ok [t, last])
    (hkind : t.kind = .string value) (htext : t.text = raw) :
    (unescape raw ≠ raw → hasCodeEscape raw = true) ∧ unescape (unescape raw) = unescape raw := by
  have hspells := spellsString_of_tokenize h hkind htext
  refine ⟨fun hchanged => ?_, hspells.unescape_again⟩
  by_contra hnone
  exact hchanged (hspells.unescape_eq (Bool.not_eq_true _ ▸ hnone))

/-- A backslash that is kept, with characters behind it that took the place of escapes. -/
theorem unescape_settles_backslash : ∃ t last, tokenize "'\\\\\\x5C\\x7841'" = .ok [t, last] ∧
    t.kind = .string "\\\\x41" ∧ t.text = "'\\\\\\x5C\\x7841'" ∧
    unescape "'\\\\\\x5C\\x7841'" = "'\\\\\\x5Cx41'" ∧ hasCodeEscape "'\\\\\\x5C\\x7841'" = true ∧
    unescape (unescape "'\\\\\\x5C\\x7841'") = unescape "'\\\\\\x5C\\x7841'" := by
  have htokens : (tokenize "'\\\\\\x5C\\x7841'").toOption = some [
      { kind := .string "\\\\x41", text := "'\\\\\\x5C\\x7841'", start := 0, stop := 14, position := ⟨1, 1⟩ },
      { kind := .endOfFile, start := 14, stop := 14, position := ⟨1, 15⟩ }] := by
    decide +kernel
  have hchanged : unescape "'\\\\\\x5C\\x7841'" = "'\\\\\\x5Cx41'" := by decide +kernel
  have hne : unescape "'\\\\\\x5C\\x7841'" ≠ "'\\\\\\x5C\\x7841'" := by rw [hchanged]; decide +kernel
  cases h : tokenize "'\\\\\\x5C\\x7841'" with
  | error e => simp [h, Except.toOption] at htokens
  | ok tokens =>
    rw [h] at htokens
    obtain rfl := Option.some.inj htokens
    obtain ⟨hfilter, hagain⟩ := unescape_settles h rfl rfl
    exact ⟨_, _, rfl, rfl, rfl, hchanged, hfilter hne, hagain⟩

-- Where there is no string, resolving an escape can make another one.
example : (tokenize "'\\u\\x7b41\x7d'").isOk = false ∧
    unescape "'\\u\\x7b41\x7d'" = ("'\\u\x7b41\x7d'" : Text) ∧ unescape "'\\u\x7b41\x7d'" = ("'A'" : Text) := by
  decide +kernel

end PlainScript
