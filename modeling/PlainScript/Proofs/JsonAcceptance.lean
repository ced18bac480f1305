import PlainScript.Proofs.JsonGrammar
import PlainScript.Proofs.JsonRoundTrip

/-! A document is read if and only if it has a place in the grammar, and then as what it denotes there. What a reader
has taken is a text of the grammar, and each text of the grammar is taken whole. -/
namespace PlainScript.Json

open Reader

namespace Reader

variable {α β : Type} {s t rest : Text}

/-! ### What a reader has done -/

lemma reads_bind_iff {r : Reader α} {f : α → Reader β} {b : β} :
    Reads (r >>= f) s b rest ↔ ∃ a t, Reads r s a t ∧ Reads (f a) t b rest := by
  constructor
  · intro h
    change EStateM.bind r f s = _ at h
    rw [EStateM.bind] at h
    cases hr : r s with
    | ok a t => exact ⟨a, t, hr, by rwa [hr] at h⟩
    | error fault t => rw [hr] at h; cases h
  · rintro ⟨a, t, hr, hf⟩
    exact Reads.bind hr hf

/-- A reader has one answer on a text. -/
lemma Reads.unique {r : Reader α} {a b : α} (h : Reads r s a t) (h' : Reads r s b rest) : a = b ∧ t = rest := by
  cases Eq.trans (Eq.symm h) h'
  exact ⟨rfl, rfl⟩

lemma not_reads_throw {fault : Fault} {a : α} : ¬ Reads (throw fault) s a rest := nofun

lemma exists_of_skipBlanks {u : Unit} (h : Reads skipBlanks s u rest) :
    ∃ blanks, Blanks blanks ∧ s = blanks ++ rest := by
  have hskip : Reads skipBlanks s () (s.dropWhile Byte.isBlank) := rfl
  obtain ⟨-, rfl⟩ := hskip.unique h
  exact ⟨s.takeWhile Byte.isBlank, fun c hc => List.mem_takeWhile_imp hc, List.takeWhile_append_dropWhile.symm⟩

lemma atChar_cases {c : Char} {b : Bool} (h : Reads (atChar c) s b t) :
    t = s ∧ ((∃ u, b = true ∧ s = c.toUInt8 :: u) ∨ b = false ∧ s.head? ≠ some c.toUInt8) := by
  have hread : Reads (atChar c) s (decide (s.head? = some c.toUInt8)) s := rfl
  obtain ⟨rfl, rfl⟩ := hread.unique h
  refine ⟨rfl, ?_⟩
  by_cases hc : s.head? = some c.toUInt8
  · exact .inl ⟨s.tail, decide_eq_true hc, (List.eq_cons_of_mem_head? hc)⟩
  · exact .inr ⟨decide_eq_false hc, hc⟩

lemma exists_of_expect {c : Char} {u : Unit} (h : Reads (expect c) s u rest) :
    ∃ blanks, Blanks blanks ∧ s = blanks ++ c.toUInt8 :: rest := by
  obtain ⟨_, t, hskip, hrest⟩ := reads_bind_iff.mp h
  obtain ⟨blanks, hb, rfl⟩ := exists_of_skipBlanks hskip
  obtain ⟨b, t', hat, hfound⟩ := reads_bind_iff.mp hrest
  obtain ⟨rfl, ⟨u, rfl, rfl⟩ | ⟨rfl, -⟩⟩ := atChar_cases hat
  · obtain ⟨-, rfl⟩ := (reads_skip c.toUInt8 u).unique hfound
    exact ⟨blanks, hb, rfl⟩
  · exact absurd hfound not_reads_throw

/-! ### Strings -/

lemma exists_of_hexDigits {count n v : Nat} (h : Reads (hexDigits count n) s v rest) : ∃ ds : Text,
    ds.length = count ∧ (∀ c ∈ ds, Byte.isHex c = true) ∧ s = ds ++ rest ∧
      v = ds.foldl (fun n c => n * 16 + Byte.hexValue c) n := by
  induction count generalizing s n with
  | zero =>
    obtain ⟨rfl, rfl⟩ := (reads_pure n s).unique h
    exact ⟨[], rfl, nofun, rfl, rfl⟩
  | succ count ih =>
    obtain ⟨c, t, hnext, h⟩ := reads_bind_iff.mp h
    have hread : Reads next s s.head? s.tail := rfl
    obtain ⟨rfl, rfl⟩ := hread.unique hnext
    cases s with
    | nil => exact absurd h not_reads_throw
    | cons c s =>
      cases hvalue : Byte.hexValue? c with
      | none =>
        simp only [List.head?_cons, Option.bind_some, hvalue] at h
        exact absurd h not_reads_throw
      | some d =>
        simp only [List.head?_cons, Option.bind_some, hvalue] at h
        obtain ⟨ds, rfl, hhex, heq, rfl⟩ := ih h
        refine ⟨c :: ds, rfl, List.forall_mem_cons.mpr ⟨?_, hhex⟩, congrArg (c :: ·) heq, ?_⟩
        · rw [Byte.isHex, hvalue, Option.isSome_some]
        · rw [List.foldl_cons, Byte.hexValue, hvalue, Option.getD_some]

lemma reads_codeUnit (u : CodeUnit) (s : Text) : Reads codeUnit (u.digits ++ s) u.value s := by
  have hread := reads_hexDigits u.isHex 0 s
  rw [u.length_eq] at hread
  exact hread

lemma exists_of_codeUnit {v : Nat} (h : Reads codeUnit s v rest) :
    ∃ u : CodeUnit, s = u.digits ++ rest ∧ v = u.value := by
  obtain ⟨ds, hlength, hhex, heq, rfl⟩ := exists_of_hexDigits h
  exact ⟨⟨ds, hlength, hhex⟩, heq, rfl⟩

/-- A code unit comes next. -/
def UnitAhead (s : Text) : Prop := ∃ t, s = '\\'.toUInt8 :: 'u'.toUInt8 :: t

lemma startsWith_unit : s.startsWith "\\u" = true ↔ UnitAhead s := by
  have hlead : ("\\u" : Text) = ['\\'.toUInt8, 'u'.toUInt8] := by decide
  rw [Text.startsWith, List.isPrefixOf_iff_prefix, hlead, UnitAhead]
  constructor
  · rintro ⟨t, rfl⟩
    exact ⟨t, rfl⟩
  · rintro ⟨t, rfl⟩
    exact ⟨t, rfl⟩

lemma reads_codePoint_pair {high : CodeUnit} (hhigh : high.isHigh = true) (low : CodeUnit) (s : Text) :
    Reads codePoint (high.digits ++ '\\'.toUInt8 :: 'u'.toUInt8 :: (low.digits ++ s)) (high.joined low) s := by
  refine (reads_codeUnit high _).bind ((reads_get _).bind ?_)
  rw [show Text.isHighSurrogate high.value = true from hhigh, startsWith_unit.mpr ⟨_, rfl⟩, Bool.and_self, if_pos rfl]
  have hskip : Reads (skip 2) ('\\'.toUInt8 :: 'u'.toUInt8 :: (low.digits ++ s)) () (low.digits ++ s) := rfl
  refine hskip.bind ((reads_codeUnit low s).bind ?_)
  rw [CodeUnit.joined, CodeUnit.isLow]
  split
  · exact reads_pure _ s
  · exact reads_pure _ s

lemma reads_codePoint_single {u : CodeUnit} (h : u.isHigh = true → ¬ UnitAhead s) :
    Reads codePoint (u.digits ++ s) u.bytes s := by
  refine (reads_codeUnit u s).bind ((reads_get s).bind ?_)
  rw [if_neg]
  · exact reads_pure _ s
  · rw [Bool.and_eq_true, startsWith_unit]
    exact fun ⟨hhigh, hahead⟩ => h hhigh hahead

lemma exists_of_codePoint {part : Text} (h : Reads codePoint s part rest) :
    (∃ u : CodeUnit, s = u.digits ++ rest ∧ part = u.bytes ∧ (u.isHigh = true → ¬ UnitAhead rest)) ∨
      ∃ high low : CodeUnit, s = high.digits ++ '\\'.toUInt8 :: 'u'.toUInt8 :: (low.digits ++ rest) ∧
        part = high.joined low ∧ high.isHigh = true := by
  obtain ⟨v, t, hunit, -⟩ := reads_bind_iff.mp h
  obtain ⟨high, rfl, rfl⟩ := exists_of_codeUnit hunit
  by_cases hpair : high.isHigh = true ∧ UnitAhead t
  · obtain ⟨hhigh, u, rfl⟩ := hpair
    obtain ⟨v, t', hunit', hrest⟩ := reads_bind_iff.mp h
    obtain ⟨rfl, rfl⟩ := (reads_codeUnit high _).unique hunit'
    obtain ⟨_, _, hget, hrest⟩ := reads_bind_iff.mp hrest
    obtain ⟨rfl, rfl⟩ := (reads_get _).unique hget
    rw [show Text.isHighSurrogate high.value = true from hhigh, startsWith_unit.mpr ⟨_, rfl⟩, Bool.and_self,
      if_pos rfl] at hrest
    obtain ⟨_, _, hskip, hrest⟩ := reads_bind_iff.mp hrest
    have hskip' : Reads (skip 2) ('\\'.toUInt8 :: 'u'.toUInt8 :: u) () u := rfl
    obtain ⟨-, rfl⟩ := hskip'.unique hskip
    obtain ⟨_, _, hlow, -⟩ := reads_bind_iff.mp hrest
    obtain ⟨low, rfl, -⟩ := exists_of_codeUnit hlow
    obtain ⟨rfl, rfl⟩ := (reads_codePoint_pair hhigh low _).unique h
    exact .inr ⟨high, low, rfl, rfl, hhigh⟩
  · obtain ⟨rfl, rfl⟩ := (reads_codePoint_single fun hhigh hahead => hpair ⟨hhigh, hahead⟩).unique h
    exact .inl ⟨high, rfl, rfl, fun hhigh hahead => hpair ⟨hhigh, hahead⟩⟩

lemma reads_escape_unit {part : Text} (h : Reads codePoint s part rest) :
    Reads escape ('u'.toUInt8 :: s) part rest := by
  have hnext : Reads next ('u'.toUInt8 :: s) (some 'u'.toUInt8) s := rfl
  exact hnext.bind h

lemma exists_of_escape {part : Text} (h : Reads escape s part rest) :
    (∃ e ∈ shortEscapes, s = e.1.toUInt8 :: rest ∧ part = [e.2]) ∨
      ∃ t, s = 'u'.toUInt8 :: t ∧ Reads codePoint t part rest := by
  obtain ⟨c, t, hnext, h⟩ := reads_bind_iff.mp h
  have hread : Reads next s s.head? s.tail := rfl
  obtain ⟨rfl, rfl⟩ := hread.unique hnext
  split at h
  next hu =>
    obtain ⟨t, rfl⟩ := List.head?_eq_some_iff.mp hu
    exact .inr ⟨t, rfl, h⟩
  next hu =>
    split at h
    next letter value hfind =>
      have hletter : s.head? = some letter.toUInt8 := by simpa using List.find?_some hfind
      obtain ⟨t, rfl⟩ := List.head?_eq_some_iff.mp hletter
      obtain ⟨rfl, rfl⟩ := (reads_pure [value] t).unique h
      exact .inl ⟨(letter, value), List.mem_of_find?_eq_some hfind, rfl, rfl⟩
    next => exact absurd h not_reads_throw

/-- The reader takes a string part by part. -/
lemma reads_stringRest_part {d : UInt8} {e part : Text} {steps : Nat} (hd : d ≠ '"'.toUInt8) (hcontrol : ¬d < 0x20)
    (hpart : Reads (if d = '\\'.toUInt8 then escape else pure [d]) (e ++ s) part s)
    (hrest : Reads (stringRest steps) s t rest) : Reads (stringRest (steps + 1)) (d :: (e ++ s)) (part ++ t) rest := by
  have hnext : Reads next (d :: (e ++ s)) (some d) (e ++ s) := rfl
  refine hnext.bind ?_
  dsimp only
  rw [if_neg hd, if_neg hcontrol]
  split_ifs at hpart ⊢
  all_goals exact hpart.bind (hrest.bind (reads_pure (part ++ t) rest))

end Reader

namespace StringPart

/-- A text of parts goes on with a code unit if the next part is one. -/
lemma unitAhead_spelled {parts : List StringPart} {rest : Text} (h : UnitAhead (spelled parts ++ '"'.toUInt8 :: rest)) :
    ∃ u parts', parts = unit u :: parts' := by
  obtain ⟨t, heq⟩ := h
  cases parts with
  | nil => exact absurd (List.cons.inj heq).1 (by decide)
  | cons part parts =>
    cases part with
    | byte c hc => exact absurd (List.cons.inj heq).1 hc.2.2
    | letter e he =>
      have hletters : ∀ e ∈ shortEscapes, e.1.toUInt8 ≠ 'u'.toUInt8 := by decide
      exact absurd (List.cons.inj (List.cons.inj heq).2).1 (hletters e he)
    | unit u => exact ⟨u, parts, rfl⟩

end StringPart

namespace Reader

variable {s t rest : Text} {parts : List StringPart}

open StringPart

/-- A part that no surrogate goes on with is read on its own. -/
lemma reads_stringRest_single {part : StringPart} {steps : Nat}
    (hsingle : part.IsHigh → ∀ u parts', parts ≠ unit u :: parts')
    (hrest : Reads (stringRest steps) (spelled parts ++ '"'.toUInt8 :: rest) t rest) :
    Reads (stringRest (steps + 1)) (spelled (part :: parts) ++ '"'.toUInt8 :: rest) (part.bytes ++ t) rest := by
  rw [spelled, List.flatMap_cons, List.append_assoc, ← spelled]
  cases part with
  | byte c hc =>
    refine reads_stringRest_part (e := []) hc.2.1 (UInt8.not_lt.mpr hc.1) ?_ hrest
    rw [if_neg hc.2.2]
    exact reads_pure _ _
  | letter e he =>
    refine reads_stringRest_part (e := [e.1.toUInt8]) (by decide) (by decide) ?_ hrest
    rw [if_pos rfl]
    exact reads_escape_letter he _
  | unit u =>
    refine reads_stringRest_part (e := 'u'.toUInt8 :: u.digits) (by decide) (by decide) ?_ hrest
    rw [if_pos rfl]
    refine reads_escape_unit (reads_codePoint_single fun hhigh hahead => ?_)
    obtain ⟨u', parts', rfl⟩ := unitAhead_spelled hahead
    exact hsingle hhigh u' parts' rfl

lemma reads_stringRest_pair {high : CodeUnit} (hhigh : high.isHigh = true) (low : CodeUnit) {steps : Nat}
    (hrest : Reads (stringRest steps) s t rest) :
    Reads (stringRest (steps + 1)) ((unit high).text ++ ((unit low).text ++ s)) (high.joined low ++ t) rest := by
  have hpart := reads_escape_unit (reads_codePoint_pair hhigh low s)
  have hread := reads_stringRest_part (d := '\\'.toUInt8) (e := 'u'.toUInt8 :: (high.digits ++ (unit low).text))
    (by decide) (by decide) (by rw [if_pos rfl]; simpa [StringPart.text] using hpart) hrest
  simpa [StringPart.text] using hread

lemma reads_stringRest_parts (parts : List StringPart) (rest : Text) {steps : Nat} (hsteps : parts.length < steps) :
    Reads (stringRest steps) (spelled parts ++ '"'.toUInt8 :: rest) (joined parts) rest := by
  obtain ⟨steps, rfl⟩ := Nat.exists_eq_add_of_le' (Nat.one_le_of_lt hsteps)
  fun_induction joined parts generalizing steps with
  | case1 => rfl
  | case2 high low parts hhigh ih =>
    simp only [List.length_cons] at hsteps
    obtain ⟨steps, rfl⟩ := Nat.exists_eq_add_of_le' (show 1 ≤ steps by omega)
    have hrest := reads_stringRest_pair hhigh low (ih steps (by omega))
    simpa [spelled] using hrest
  | case3 high low parts hhigh ih =>
    simp only [List.length_cons] at hsteps
    obtain ⟨steps, rfl⟩ := Nat.exists_eq_add_of_le' (show 1 ≤ steps by omega)
    exact reads_stringRest_single (fun hhigh' => absurd hhigh' hhigh) (ih steps (by simp only [List.length_cons]; omega))
  | case4 part parts hnot ih =>
    simp only [List.length_cons] at hsteps
    obtain ⟨steps, rfl⟩ := Nat.exists_eq_add_of_le' (show 1 ≤ steps by omega)
    refine reads_stringRest_single (fun hhigh u parts' heq => ?_) (ih steps (by omega))
    cases part with
    | unit high => exact hnot high u parts' rfl heq
    | byte | letter => cases hhigh

/-- An escape is a part, or two of them. -/
lemma exists_of_escape_parts {part : Text} (h : Reads escape s part (spelled parts ++ '"'.toUInt8 :: rest)) :
    ∃ parts', '\\'.toUInt8 :: s = spelled parts' ++ '"'.toUInt8 :: rest ∧ part ++ joined parts = joined parts' := by
  obtain ⟨e, he, rfl, rfl⟩ | ⟨t, rfl, hcode⟩ := exists_of_escape h
  · exact ⟨letter e he :: parts, rfl, rfl⟩
  obtain ⟨u, rfl, rfl, hahead⟩ | ⟨high, low, rfl, rfl, hhigh⟩ := exists_of_codePoint hcode
  · refine ⟨unit u :: parts, ?_, ?_⟩
    · simp [spelled, StringPart.text]
    · rw [joined_cons (unit u) parts]
      · rfl
      · rintro hhigh u' parts' rfl
        exact hahead hhigh ⟨_, rfl⟩
  · refine ⟨unit high :: unit low :: parts, ?_, (joined_pair hhigh low parts).symm⟩
    simp [spelled, StringPart.text]

lemma exists_of_stringRest {steps : Nat} (h : Reads (stringRest steps) s t rest) :
    ∃ parts, s = spelled parts ++ '"'.toUInt8 :: rest ∧ t = joined parts := by
  -- Each round takes a byte or an escape, which is one part or, for a pair of code units, two.
  induction steps generalizing s t with
  | zero => exact absurd h not_reads_throw
  | succ steps ih =>
    obtain ⟨c, u, hnext, hmore⟩ := reads_bind_iff.mp h
    have hread : Reads next s s.head? s.tail := rfl
    obtain ⟨rfl, rfl⟩ := hread.unique hnext
    cases s with
    | nil => exact absurd hmore not_reads_throw
    | cons c s =>
      dsimp only [List.head?_cons, List.tail_cons] at hmore
      split at hmore
      next hquote =>
        obtain ⟨rfl, rfl⟩ := (reads_pure [] s).unique hmore
        exact ⟨[], by rw [hquote]; rfl, rfl⟩
      next hquote =>
        split at hmore
        next => exact absurd hmore not_reads_throw
        next hcontrol =>
          split at hmore
          next hbackslash =>
            obtain ⟨part, u, hpart, hmore⟩ := reads_bind_iff.mp hmore
            obtain ⟨more, u', hrest, hend⟩ := reads_bind_iff.mp hmore
            obtain ⟨rfl, rfl⟩ := (reads_pure (part ++ more) u').unique hend
            obtain ⟨parts, rfl, rfl⟩ := ih hrest
            rw [hbackslash]
            exact exists_of_escape_parts hpart
          next hbackslash =>
            obtain ⟨part, u, hpart, hmore⟩ := reads_bind_iff.mp hmore
            obtain ⟨more, u', hrest, hend⟩ := reads_bind_iff.mp hmore
            obtain ⟨rfl, rfl⟩ := (reads_pure [c] s).unique hpart
            obtain ⟨rfl, rfl⟩ := (reads_pure ([c] ++ more) u').unique hend
            obtain ⟨parts, rfl, rfl⟩ := ih hrest
            exact ⟨byte c ⟨UInt8.not_lt.mp hcontrol, hquote, hbackslash⟩ :: parts, rfl, rfl⟩

lemma length_le_spelled (parts : List StringPart) : parts.length ≤ (spelled parts).length := by
  induction parts with
  | nil => exact le_rfl
  | cons part parts ih =>
    have hpart : 0 < part.text.length := by cases part <;> simp [StringPart.text]
    rw [spelled, List.flatMap_cons, List.length_append, List.length_cons, ← spelled]
    omega

lemma reads_literal {blanks : Text} (hb : Blanks blanks) (parts : List StringPart) (rest : Text) :
    Reads string (blanks ++ (literal parts ++ rest)) (joined parts) rest := by
  rw [literal, List.cons_append, List.append_assoc]
  refine (reads_expect hb (by decide) _).bind ((reads_get _).bind (reads_stringRest_parts parts rest ?_))
  have := length_le_spelled parts
  simp only [List.length_append]
  omega

lemma exists_of_string (h : Reads string s t rest) :
    ∃ blanks parts, Blanks blanks ∧ s = blanks ++ (literal parts ++ rest) ∧ t = joined parts := by
  obtain ⟨_, u, hquote, hmore⟩ := reads_bind_iff.mp h
  obtain ⟨_, _, hget, hrest⟩ := reads_bind_iff.mp hmore
  obtain ⟨rfl, rfl⟩ := (reads_get u).unique hget
  obtain ⟨blanks, hb, rfl⟩ := exists_of_expect hquote
  obtain ⟨parts, rfl, rfl⟩ := exists_of_stringRest hrest
  exact ⟨blanks, parts, hb, by simp [literal], rfl⟩

/-! ### Numbers -/

lemma exists_of_someDigits {fault : Fault} (h : Reads (someDigits fault) s t rest) : Digits t ∧ s = t ++ rest := by
  obtain ⟨ds, u, hdigits, hmore⟩ := reads_bind_iff.mp h
  have hread : Reads digits s (s.takeWhile Byte.isDigit) (s.dropWhile Byte.isDigit) := rfl
  obtain ⟨rfl, rfl⟩ := hread.unique hdigits
  split at hmore
  · exact absurd hmore not_reads_throw
  · next hne =>
    obtain ⟨rfl, rfl⟩ := (reads_pure _ _).unique hmore
    exact ⟨⟨by simpa using hne, fun c hc => List.mem_takeWhile_imp hc⟩, List.takeWhile_append_dropWhile.symm⟩

lemma optionally_cases {c : Char} (h : Reads (optionally c) s t rest) :
    t = [c.toUInt8] ∧ s = c.toUInt8 :: rest ∨ t = [] ∧ s = rest := by
  obtain ⟨b, u, hat, hmore⟩ := reads_bind_iff.mp h
  obtain ⟨rfl, ⟨v, rfl, rfl⟩ | ⟨rfl, hc⟩⟩ := atChar_cases hat
  · obtain ⟨rfl, rfl⟩ := (reads_optionally c v).unique h
    exact .inl ⟨rfl, rfl⟩
  · obtain ⟨rfl, rfl⟩ := (reads_optionally_other hc).unique h
    exact .inr ⟨rfl, rfl⟩

lemma exists_of_fraction (h : Reads fraction s t rest) : Fraction t ∧ s = t ++ rest := by
  obtain ⟨point, u, hpoint, hmore⟩ := reads_bind_iff.mp h
  obtain ⟨rfl, rfl⟩ | ⟨rfl, rfl⟩ := optionally_cases hpoint
  · obtain ⟨ds, v, hdigits, hend⟩ := reads_bind_iff.mp hmore
    obtain ⟨rfl, rfl⟩ := (reads_pure (['.'.toUInt8] ++ ds) v).unique hend
    obtain ⟨hds, rfl⟩ := exists_of_someDigits hdigits
    exact ⟨.some hds, rfl⟩
  · obtain ⟨rfl, rfl⟩ := (reads_pure [] _).unique hmore
    exact ⟨.none, rfl⟩

lemma exists_of_exponentMark (h : Reads exponentMark s t rest) :
    (∃ mark, t = [mark] ∧ s = mark :: rest ∧ (mark = 'e'.toUInt8 ∨ mark = 'E'.toUInt8)) ∨ t = [] ∧ s = rest := by
  obtain ⟨mark, u, hmark, hmore⟩ := reads_bind_iff.mp h
  obtain ⟨rfl, rfl⟩ | ⟨rfl, rfl⟩ := optionally_cases hmark
  · obtain ⟨rfl, rfl⟩ := (reads_pure _ u).unique hmore
    exact .inl ⟨_, rfl, rfl, .inl rfl⟩
  · obtain ⟨rfl, rfl⟩ | ⟨rfl, rfl⟩ := optionally_cases hmore
    · exact .inl ⟨_, rfl, rfl, .inr rfl⟩
    · exact .inr ⟨rfl, rfl⟩

lemma exists_of_exponentSign (h : Reads exponentSign s t rest) :
    (t = [] ∨ t = ['+'.toUInt8] ∨ t = ['-'.toUInt8]) ∧ s = t ++ rest := by
  obtain ⟨sign, u, hsign, hmore⟩ := reads_bind_iff.mp h
  obtain ⟨rfl, rfl⟩ | ⟨rfl, rfl⟩ := optionally_cases hsign
  · obtain ⟨rfl, rfl⟩ := (reads_pure _ u).unique hmore
    exact ⟨.inr (.inl rfl), rfl⟩
  · obtain ⟨rfl, rfl⟩ | ⟨rfl, rfl⟩ := optionally_cases hmore
    · exact ⟨.inr (.inr rfl), rfl⟩
    · exact ⟨.inl rfl, rfl⟩

lemma exists_of_exponent (h : Reads exponent s t rest) : Power t ∧ s = t ++ rest := by
  obtain ⟨mark, u, hmark, hmore⟩ := reads_bind_iff.mp h
  obtain ⟨mark, rfl, rfl, hletter⟩ | ⟨rfl, rfl⟩ := exists_of_exponentMark hmark
  · obtain ⟨sign, v, hsign, hafter⟩ := reads_bind_iff.mp hmore
    obtain ⟨ds, w, hdigits, hend⟩ := reads_bind_iff.mp hafter
    obtain ⟨rfl, rfl⟩ := (reads_pure ([mark] ++ sign ++ ds) w).unique hend
    obtain ⟨hds, rfl⟩ := exists_of_someDigits hdigits
    obtain ⟨hsigns, rfl⟩ := exists_of_exponentSign hsign
    exact ⟨by simpa using Power.some hletter hsigns hds, by simp⟩
  · obtain ⟨rfl, rfl⟩ := (reads_pure [] _).unique hmore
    exact ⟨.none, rfl⟩

lemma exists_of_number {x : Float} (h : Reads number s x rest) :
    ∃ t, NumberText t ∧ s = t ++ rest ∧ x = Decimal.readFloat t := by
  obtain ⟨sign, u₁, hsign, h₁⟩ := reads_bind_iff.mp h
  obtain ⟨whole, u₂, hwhole, h₂⟩ := reads_bind_iff.mp h₁
  obtain ⟨f, u₃, hf, h₃⟩ := reads_bind_iff.mp h₂
  obtain ⟨power, u₄, hpower, h₄⟩ := reads_bind_iff.mp h₃
  obtain ⟨rfl, rfl⟩ := (reads_pure _ u₄).unique h₄
  obtain ⟨hpowerText, rfl⟩ := exists_of_exponent hpower
  obtain ⟨hfraction, rfl⟩ := exists_of_fraction hf
  obtain ⟨hdigits, rfl⟩ := exists_of_someDigits hwhole
  obtain ⟨rfl, rfl⟩ | ⟨rfl, rfl⟩ := optionally_cases hsign
  · exact ⟨_, .mk (.inr rfl) hdigits hfraction hpowerText, by simp, by simp⟩
  · exact ⟨_, .mk (.inl rfl) hdigits hfraction hpowerText, by simp, by simp⟩

/-! ### Lists -/

/-- A reader takes the texts of a language and no others. -/
structure Recognizes (item : Reader α) (P : Text → α → Prop) : Prop where
  takes : ∀ {t : Text} {a : α}, P t a → Takes item t a
  exists_of : ∀ {s rest : Text} {a : α}, Reads item s a rest →
    ∃ blanks t, Blanks blanks ∧ P t a ∧ s = blanks ++ (t ++ rest)

section Lists

variable {α : Type} {item : Reader α} {P : Text → α → Prop} {close : Char} {items : List α} {s t inside rest : Text}

lemma blanks_append {blanks blanks' : Text} (hb : Blanks blanks) (hb' : Blanks blanks') : Blanks (blanks ++ blanks') :=
  fun c hc => (List.mem_append.mp hc).elim (hb c) (hb' c)

lemma items_after_blanks {before : Text} (h : Items P inside items) (hb : Blanks before) :
    Items P (before ++ inside) items := by
  cases h with
  | last h =>
    obtain @⟨_, t, after, a, hbefore, h, hafter⟩ := h
    rw [← List.append_assoc]
    exact .last (.mk (blanks_append hb hbefore) h hafter)
  | cons h hs =>
    obtain @⟨_, t, after, a, hbefore, h, hafter⟩ := h
    rw [← List.append_assoc, ← List.append_assoc]
    exact .cons (.mk (blanks_append hb hbefore) h hafter) hs

/-- Blanks before the first item do not matter. -/
lemma exists_of_items (hitem : ∀ {t a}, P t a → Takes item t a) (h : Items P inside items) :
    ∃ before t, inside = before ++ t ∧ Blanks before ∧ Items P t items ∧
      ∃ c u, t = c :: u ∧ Byte.isBlank c = false ∧ c ≠ ']'.toUInt8 ∧ c ≠ '\x7d'.toUInt8 := by
  cases h with
  | last h =>
    obtain @⟨before, t, after, a, hbefore, h, hafter⟩ := h
    obtain ⟨c, u, rfl, hc⟩ := (hitem h).begins
    exact ⟨before, _, rfl, hbefore, .last (.mk blanks_nil h hafter), c, u ++ after, rfl, hc⟩
  | @cons _ s _ _ h hs =>
    obtain @⟨before, t, after, a, hbefore, h, hafter⟩ := h
    obtain ⟨c, u, rfl, hc⟩ := (hitem h).begins
    exact ⟨before, _, List.append_assoc .., hbefore, .cons (.mk blanks_nil h hafter) hs, c, _, rfl, hc⟩

lemma reads_separated_items (hitem : ∀ {t a}, P t a → Takes item t a) (hclose : Closes close)
    (h : Items P inside items) {steps : Nat} (hsteps : items.length ≤ steps) :
    Reads (separated close item steps) (inside ++ close.toUInt8 :: rest) items rest := by
  induction h generalizing steps with
  | @last t a h =>
    obtain ⟨steps, rfl⟩ := Nat.exists_eq_add_of_le' hsteps
    obtain @⟨before, t, after, a, hbefore, h, hafter⟩ := h
    have hends : Ends (after ++ close.toUInt8 :: rest) := .append_blanks hafter (hclose.ends rest)
    rw [List.append_assoc, List.append_assoc]
    exact ((hitem h).reads hbefore hends).bind ((reads_skipBlanks hafter (by simpa using hclose.isBlank)).bind
      ((reads_atChar close rest).bind ((reads_skip _ rest).bind (reads_pure [a] rest))))
  | @cons t s a items h hs ih =>
    rw [List.length_cons] at hsteps
    obtain ⟨steps, rfl⟩ := Nat.exists_eq_add_of_le' (Nat.le_of_add_left_le hsteps)
    obtain @⟨before, t, after, a, hbefore, h, hafter⟩ := h
    have hends : Ends (after ++ ','.toUInt8 :: (s ++ close.toUInt8 :: rest)) := .append_blanks hafter (ends_comma _)
    rw [List.append_assoc, List.append_assoc, List.append_assoc]
    refine ((hitem h).reads hbefore hends).bind ?_
    refine (reads_skipBlanks (s := ','.toUInt8 :: _) hafter (by simp; decide)).bind ?_
    refine (reads_atChar_other (by simpa using hclose.ne_comma)).bind ?_
    refine (reads_expect (c := ',') blanks_nil (by decide) _).bind ?_
    exact (ih (by omega)).bind (reads_pure _ rest)

lemma exists_of_separated (hitem : Recognizes item P) {steps : Nat}
    (h : Reads (separated close item steps) s items rest) :
    ∃ inside, Items P inside items ∧ s = inside ++ close.toUInt8 :: rest := by
  -- A round ends behind the closing bracket or behind a comma, where the next item is due.
  induction steps generalizing s items with
  | zero => exact absurd h not_reads_throw
  | succ steps ih =>
    obtain ⟨a, u₁, hread, h₁⟩ := reads_bind_iff.mp h
    obtain ⟨_, u₂, hskip, h₂⟩ := reads_bind_iff.mp h₁
    obtain ⟨b, u₃, hat, h₃⟩ := reads_bind_iff.mp h₂
    obtain ⟨before, t, hbefore, ht, rfl⟩ := hitem.exists_of hread
    obtain ⟨after, hafter, rfl⟩ := exists_of_skipBlanks hskip
    obtain ⟨rfl, ⟨u, rfl, rfl⟩ | ⟨rfl, -⟩⟩ := atChar_cases hat
    · have hend : Reads (do skip 1; return [a]) (close.toUInt8 :: u) [a] u := (reads_skip _ u).bind (reads_pure [a] u)
      obtain ⟨rfl, rfl⟩ := hend.unique h₃
      exact ⟨before ++ (t ++ after), .last (.mk hbefore ht hafter), by simp⟩
    · obtain ⟨_, u₄, hcomma, h₄⟩ := reads_bind_iff.mp h₃
      obtain ⟨items', u₅, hmore, h₅⟩ := reads_bind_iff.mp h₄
      obtain ⟨rfl, rfl⟩ := (reads_pure (a :: items') u₅).unique h₅
      obtain ⟨more, hb, rfl⟩ := exists_of_expect hcomma
      obtain ⟨inside, hinside, rfl⟩ := ih hmore
      exact ⟨_, .cons (.mk hbefore ht (blanks_append hafter hb)) hinside, by simp⟩

lemma length_le_items (hitem : ∀ {t a}, P t a → Takes item t a) (h : Items P inside items) :
    items.length ≤ inside.length := by
  induction h with
  | last h =>
    obtain @⟨before, t, after, a, -, h, -⟩ := h
    obtain ⟨c, u, rfl, -⟩ := (hitem h).begins
    simp only [List.length_append, List.length_cons, List.length_nil]
    omega
  | cons h hs ih =>
    simp only [List.length_append, List.length_cons]
    omega

variable {opening : Char} {blanks : Text}

lemma reads_bracketed_listed (hitem : ∀ {t a}, P t a → Takes item t a) (hclose : Closes close)
    (hopening : Byte.isBlank opening.toUInt8 = false) (hb : Blanks blanks) (h : Listed P inside items) :
    Reads (bracketed opening close item) (blanks ++ opening.toUInt8 :: (inside ++ close.toUInt8 :: rest)) items rest := by
  refine (reads_expect hb hopening _).bind ?_
  cases h with
  | blank hb' =>
    exact (reads_skipBlanks hb' (by simpa using hclose.isBlank)).bind
      ((reads_atChar close rest).bind ((reads_skip _ rest).bind (reads_pure [] rest)))
  | items h =>
    obtain ⟨before, t, rfl, hbefore, h, c, u, rfl, hblank, hbracket, hbrace⟩ := exists_of_items hitem h
    have hnot : c ≠ close.toUInt8 := by
      obtain rfl | rfl := hclose <;> assumption
    rw [List.append_assoc]
    refine (reads_skipBlanks hbefore (by simpa using hblank)).bind ?_
    refine (reads_atChar_other (by simpa using hnot)).bind ((reads_get _).bind ?_)
    refine reads_separated_items hitem hclose h ?_
    have := length_le_items hitem h
    rw [List.length_append]
    omega

lemma exists_of_bracketed (hitem : Recognizes item P) (h : Reads (bracketed opening close item) s items rest) :
    ∃ blanks inside, Blanks blanks ∧ Listed P inside items ∧
      s = blanks ++ opening.toUInt8 :: (inside ++ close.toUInt8 :: rest) := by
  obtain ⟨_, u₁, hopen, h₁⟩ := reads_bind_iff.mp h
  obtain ⟨_, u₂, hskip, h₂⟩ := reads_bind_iff.mp h₁
  obtain ⟨b, u₃, hat, h₃⟩ := reads_bind_iff.mp h₂
  obtain ⟨blanks, hb, rfl⟩ := exists_of_expect hopen
  obtain ⟨before, hbefore, rfl⟩ := exists_of_skipBlanks hskip
  obtain ⟨rfl, ⟨u, rfl, rfl⟩ | ⟨rfl, -⟩⟩ := atChar_cases hat
  · have hend : Reads (do skip 1; return ([] : List α)) (close.toUInt8 :: u) [] u :=
      (reads_skip _ u).bind (reads_pure [] u)
    obtain ⟨rfl, rfl⟩ := hend.unique h₃
    exact ⟨blanks, before, hb, .blank hbefore, rfl⟩
  · obtain ⟨_, _, hget, h₄⟩ := reads_bind_iff.mp h₃
    obtain ⟨rfl, rfl⟩ := (reads_get _).unique hget
    obtain ⟨inside, hinside, rfl⟩ := exists_of_separated hitem h₄
    exact ⟨blanks, before ++ inside, hb, .items (items_after_blanks hinside hbefore), by simp⟩

end Lists

/-! ### Values -/

section Values

variable {item : Reader Value} {P : Text → Value → Prop} {v : Value} {room : Nat}

lemma takes_fieldText (hitem : ∀ {t v}, P t v → Takes item t v) {e : Text × Value} (h : FieldText P t e) :
    Takes (field item) t e := by
  obtain @⟨parts, before, after, t, v, hbefore, hafter, h⟩ := h
  refine ⟨⟨'"'.toUInt8, _, rfl, by decide⟩, fun {blanks rest} hb hrest => ?_⟩
  have hname := reads_literal blanks_nil parts (before ++ ':'.toUInt8 :: (after ++ (t ++ rest)))
  have hvalue := (hitem h).reads hafter hrest
  simp only [literal, List.append_assoc, List.cons_append, List.nil_append] at hname ⊢
  refine (reads_skipBlanks hb (by simp; decide)).bind ((reads_atChar '"' _).bind ?_)
  exact hname.bind ((reads_expect (c := ':') hbefore (by decide) _).bind (hvalue.bind (reads_pure _ rest)))

lemma exists_of_field (hitem : Recognizes item P) {e : Text × Value} (h : Reads (field item) s e rest) :
    ∃ blanks t, Blanks blanks ∧ FieldText P t e ∧ s = blanks ++ (t ++ rest) := by
  obtain ⟨_, u₁, hskip, h₁⟩ := reads_bind_iff.mp h
  obtain ⟨b, u₂, hat, h₂⟩ := reads_bind_iff.mp h₁
  obtain ⟨rfl, ⟨u, rfl, -⟩ | ⟨rfl, -⟩⟩ := atChar_cases hat
  · obtain ⟨name, u₃, hname, h₃⟩ := reads_bind_iff.mp h₂
    obtain ⟨_, u₄, hcolon, h₄⟩ := reads_bind_iff.mp h₃
    obtain ⟨v, u₅, hvalue, h₅⟩ := reads_bind_iff.mp h₄
    obtain ⟨rfl, rfl⟩ := (reads_pure (name, v) u₅).unique h₅
    obtain ⟨blanks, hb, rfl⟩ := exists_of_skipBlanks hskip
    obtain ⟨more, parts, hmore, rfl, rfl⟩ := exists_of_string hname
    obtain ⟨before, hbefore, rfl⟩ := exists_of_expect hcolon
    obtain ⟨after, t, hafter, ht, rfl⟩ := hitem.exists_of hvalue
    exact ⟨blanks ++ more, _, blanks_append hb hmore, .mk hbefore hafter ht, by simp⟩
  · exact absurd h₂ not_reads_throw

lemma recognizes_field (hitem : Recognizes item P) : Recognizes (field item) (FieldText P) :=
  ⟨takes_fieldText hitem.takes, exists_of_field hitem⟩

lemma word_cases {w : Text} {b : Bool} (h : Reads (word w) s b t) :
    b = true ∧ s = w ++ t ∨ b = false ∧ t = s := by
  obtain ⟨_, _, hget, h₁⟩ := reads_bind_iff.mp h
  obtain ⟨rfl, rfl⟩ := (reads_get s).unique hget
  split at h₁
  next hstarts =>
    obtain ⟨u, rfl⟩ := List.isPrefixOf_iff_prefix.mp hstarts
    have hskip : Reads (do skip w.length; return true) (w ++ u) true ((w ++ u).drop w.length) := rfl
    rw [List.drop_left] at hskip
    obtain ⟨rfl, rfl⟩ := hskip.unique h₁
    exact .inl ⟨rfl, rfl⟩
  next =>
    obtain ⟨rfl, rfl⟩ := (reads_pure false _).unique h₁
    exact .inr ⟨rfl, rfl⟩

lemma exists_of_scalar (P : Text → Value → Prop) (h : Reads (scalar s.head?) s v rest) :
    ∃ t, ValueText P t v ∧ s = t ++ rest := by
  obtain ⟨b, u, htrue, h₁⟩ := reads_bind_iff.mp h
  obtain ⟨rfl, rfl⟩ | ⟨rfl, rfl⟩ := word_cases htrue
  · obtain ⟨rfl, rfl⟩ := (reads_pure (Value.bool true) u).unique h₁
    exact ⟨_, .bool true, rfl⟩
  obtain ⟨b, u, hfalse, h₂⟩ := reads_bind_iff.mp h₁
  obtain ⟨rfl, rfl⟩ | ⟨rfl, rfl⟩ := word_cases hfalse
  · obtain ⟨rfl, rfl⟩ := (reads_pure (Value.bool false) u).unique h₂
    exact ⟨_, .bool false, rfl⟩
  obtain ⟨b, u, hnull, h₃⟩ := reads_bind_iff.mp h₂
  obtain ⟨rfl, rfl⟩ | ⟨rfl, rfl⟩ := word_cases hnull
  · obtain ⟨rfl, rfl⟩ := (reads_pure Value.null u).unique h₃
    exact ⟨_, .null, rfl⟩
  rw [if_neg Bool.false_ne_true] at h₃
  split at h₃
  next => exact absurd h₃ not_reads_throw
  next c _ =>
    split at h₃
    next =>
      obtain ⟨x, u', hnumber, h₄⟩ := reads_bind_iff.mp h₃
      obtain ⟨rfl, rfl⟩ := (reads_pure (Value.number x) u').unique h₄
      obtain ⟨t, ht, rfl, rfl⟩ := exists_of_number hnumber
      exact ⟨t, .number ht, rfl⟩
    next =>
      split at h₃
      · exact nomatch h₃
      · exact nomatch h₃

/-- A literal is taken as a string. -/
lemma takes_literal (room : Nat) (parts : List StringPart) :
    Takes (value (room + 1)) (literal parts) (.string (joined parts)) := by
  refine ⟨⟨'"'.toUInt8, _, rfl, by decide⟩, fun {blanks rest} hb _ => ?_⟩
  have hread := reads_literal blanks_nil parts rest
  refine (reads_skipBlanks (s := '"'.toUInt8 :: _) hb (by simp; decide)).bind (Reads.bind (a := some '"'.toUInt8) rfl ?_)
  exact hread.bind (reads_pure _ _)

lemma takes_valueText (hitem : Recognizes (value room) P) (h : ValueText P t v) : Takes (value (room + 1)) t v := by
  cases h with
  | null => exact takes_null room
  | bool b => exact takes_bool room b
  | number h => exact takes_number h room
  | string parts => exact takes_literal room parts
  | @array inside items h =>
    refine ⟨⟨'['.toUInt8, _, rfl, by decide⟩, fun {blanks rest} hb _ => ?_⟩
    have hread : Reads (bracketed '[' ']' (value room)) ('['.toUInt8 :: (inside ++ ']'.toUInt8 :: rest)) items rest :=
      reads_bracketed_listed hitem.takes (.inl rfl) (by decide) blanks_nil h
    rw [List.cons_append, List.append_assoc]
    refine (reads_skipBlanks (s := '['.toUInt8 :: _) hb (by simp; decide)).bind
      (Reads.bind (a := some '['.toUInt8) rfl ?_)
    exact hread.bind (reads_pure _ rest)
  | @object inside fields h =>
    refine ⟨⟨'\x7b'.toUInt8, _, rfl, by decide⟩, fun {blanks rest} hb _ => ?_⟩
    have hread : Reads (bracketed '\x7b' '\x7d' (field (value room)))
        ('\x7b'.toUInt8 :: (inside ++ '\x7d'.toUInt8 :: rest)) fields rest :=
      reads_bracketed_listed (recognizes_field hitem).takes (.inr rfl) (by decide) blanks_nil h
    rw [List.cons_append, List.append_assoc]
    refine (reads_skipBlanks (s := '\x7b'.toUInt8 :: _) hb (by simp; decide)).bind
      (Reads.bind (a := some '\x7b'.toUInt8) rfl ?_)
    exact hread.bind (reads_pure _ rest)

lemma exists_of_value (hitem : Recognizes (value room) P) (h : Reads (value (room + 1)) s v rest) :
    ∃ blanks t, Blanks blanks ∧ ValueText P t v ∧ s = blanks ++ (t ++ rest) := by
  obtain ⟨_, u, hskip, h₁⟩ := reads_bind_iff.mp h
  obtain ⟨c, u', hpeek, h₂⟩ := reads_bind_iff.mp h₁
  have hread : Reads peek u u.head? u := rfl
  obtain ⟨rfl, rfl⟩ := hread.unique hpeek
  obtain ⟨blanks, hb, rfl⟩ := exists_of_skipBlanks hskip
  split at h₂
  next =>
    obtain ⟨t, u₁, hstring, h₃⟩ := reads_bind_iff.mp h₂
    obtain ⟨rfl, rfl⟩ := (reads_pure (Value.string t) u₁).unique h₃
    obtain ⟨more, parts, hmore, rfl, rfl⟩ := exists_of_string hstring
    exact ⟨blanks ++ more, _, blanks_append hb hmore, .string parts, by simp⟩
  split at h₂
  next =>
    obtain ⟨fields, u₁, hfields, h₃⟩ := reads_bind_iff.mp h₂
    obtain ⟨rfl, rfl⟩ := (reads_pure _ u₁).unique h₃
    obtain ⟨more, inside, hmore, hinside, rfl⟩ := exists_of_bracketed (recognizes_field hitem) hfields
    exact ⟨blanks ++ more, _, blanks_append hb hmore, .object hinside, by simp⟩
  split at h₂
  next =>
    obtain ⟨items, u₁, hitems, h₃⟩ := reads_bind_iff.mp h₂
    obtain ⟨rfl, rfl⟩ := (reads_pure _ u₁).unique h₃
    obtain ⟨more, inside, hmore, hinside, rfl⟩ := exists_of_bracketed hitem hitems
    exact ⟨blanks ++ more, _, blanks_append hb hmore, .array hinside, by simp⟩
  next =>
    obtain ⟨t, ht, rfl⟩ := exists_of_scalar P h₂
    exact ⟨blanks, t, hb, ht, rfl⟩

/-- The values that nest so deep at most, and no others. -/
theorem recognizes_value (room : Nat) : Recognizes (value room) (Denotes room) := by
  induction room with
  | zero => exact ⟨nofun, fun h => absurd h not_reads_throw⟩
  | succ room ih => exact ⟨takes_valueText ih, exists_of_value ih⟩

end Values

end Reader

/-- A document is accepted as a value if and only if that is what it denotes. -/
theorem read_eq_ok_iff {t : Text} {v : Value} : read t = .ok v ↔ Document t v := by
  have hread : read t = .ok v ↔ ∃ rest, Reads Reader.document t v rest := by
    rw [read]
    cases hdocument : Reader.document t with
    | ok v' rest => simp [Reads, hdocument]
    | error fault rest => simp [Reads, hdocument]
  have hvalue := recognizes_value maxDepth
  rw [hread]
  constructor
  · rintro ⟨rest, h⟩
    obtain ⟨v', u₁, hv, h₁⟩ := reads_bind_iff.mp h
    obtain ⟨_, u₂, hskip, h₂⟩ := reads_bind_iff.mp h₁
    obtain ⟨_, _, hget, h₃⟩ := reads_bind_iff.mp h₂
    obtain ⟨rfl, rfl⟩ := (reads_get u₂).unique hget
    obtain ⟨after, hafter, rfl⟩ := exists_of_skipBlanks hskip
    obtain ⟨before, inside, hbefore, hinside, rfl⟩ := hvalue.exists_of hv
    split at h₃
    next => cases h₃
    next hempty =>
      obtain rfl : u₂ = [] := by simpa using hempty
      obtain ⟨rfl, rfl⟩ := (reads_pure v' []).unique h₃
      rw [List.append_nil]
      exact .mk hbefore hinside hafter
  · rintro @⟨before, inside, after, _, hbefore, hinside, hafter⟩
    have hends : Ends (after ++ []) := .append_blanks hafter ends_nil
    have hafter' : Reads skipBlanks (after ++ []) () [] := reads_skipBlanks hafter (by simp)
    rw [List.append_nil] at hends hafter'
    refine ⟨[], ((hvalue.takes hinside).reads hbefore hends).bind (hafter'.bind ((reads_get []).bind ?_))⟩
    exact reads_pure v []

/-- Of two fields with one name the later one counts. -/
theorem read_object_last {t : Text} {table : Table Value} (h : read t = .ok (.object table)) :
    ∃ inside fields, Listed (FieldText (Denotes (maxDepth - 1))) inside fields ∧
      ∀ before name v after, fields = before ++ (name, v) :: after → name ∉ after.map (·.1) →
        table.get? name = some v := by
  obtain ⟨-, hvalue, -⟩ := read_eq_ok_iff.mp h
  cases hvalue with
  | object hinside =>
    refine ⟨_, _, hinside, ?_⟩
    rintro before name v after rfl hlast
    have hsplit : ({} : Table Value).insertAll (before ++ (name, v) :: after) =
        ((({} : Table Value).insertAll before).insert name v).insertAll after := List.foldl_append ..
    rw [hsplit, Table.get?_insertAll_of_notMem hlast, Table.get?_insert, if_pos rfl]

end PlainScript.Json
