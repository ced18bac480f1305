import PlainScript.Proofs.Doubles
import PlainScript.Proofs.Endings
import PlainScript.Proofs.NumberLayout
import PlainScript.Proofs.Pieces

/-! Literals without a source text are read as what they were written for: a quoted string as one string with the
same value, and a number as one number that is the same. -/
namespace PlainScript

open Print

/-- The token that stands in front of all, and spells the whole text. -/
def Token.whole (kind : TokenKind) (text : Text) : Token :=
  { kind, text, start := 0, stop := text.length, position := .start }

/-- The end of a text. -/
def Token.endOf (text : Text) : Token :=
  { kind := .endOfFile, start := text.length, stop := text.length, position := Position.start.after text }

/-- A text that is read as one token up to its end is that token and nothing else. -/
lemma tokenize_whole {text : Text} {kind : TokenKind} (hgap : Scan.gap text = .ok ([], 0))
    (htoken : Scan.token none text = .ok (kind, text.length)) (hne : text ≠ [])
    (hplain : kind ≠ .punctuator) (hfirst : text.head? ≠ some '#'.toUInt8) :
    tokenize text = .ok [.whole kind text, .endOf text] := by
  have hline : interpreterLine text = 0 := by
    obtain ⟨c, rest, rfl⟩ := List.exists_cons_of_ne_nil hne
    have hmark : ("#!" : Text) = ['#'.toUInt8, '!'.toUInt8] := by decide
    have hc : ('#'.toUInt8 == c) = false := beq_false_of_ne fun h => hfirst (congrArg some h.symm)
    rw [interpreterLine, Text.startsWith, hmark, List.isPrefixOf_cons_cons, hc, Bool.false_and]
    rfl
  have htoken' : Scan.token none (text ++ []) = .ok (kind, text.length) := by rwa [List.append_nil]
  have hgap' : Scan.gap (text ++ []) = .ok ([], 0) := by rwa [List.append_nil]
  have hread := tokensFrom_append .none 0 .start hgap' hne htoken' (fun h => absurd h hplain) (tokensFrom_nil ..)
  have hstart : Cursor.advance ⟨text, 0, .start⟩ 0 = ⟨text, 0, .start⟩ := rfl
  rw [tokenize, hline, hstart]
  simpa [Lexeme.token, Token.whole, Token.endOf] using hread

/-! ### Strings -/

/-- What is quoted is read as one string with the same value, and there is nothing else. -/
theorem tokenize_quoted (value : Text) :
    tokenize (quoted value) = .ok [.whole (.string value) (quoted value), .endOf (quoted value)] := by
  obtain ⟨hgap, htoken⟩ := @Piece.scan_quoted [] none value
  rw [List.append_nil] at hgap htoken
  apply tokenize_whole hgap htoken
  · exact (Piece.Valid.text_ne_nil (p := ⟨.string value, quoted value, .none⟩) rfl)
  · nofun
  · have : (quoted value).head? = some '"'.toUInt8 := rfl
    rw [this]
    decide

/-! ### Numbers -/

namespace Scan

lemma exponentLength_eq {e : Text} (he : Exponent e) : exponentLength e = .ok e.length := by
  cases he with
  | none => rfl
  | @some sign ds hsign h =>
    have htake : ds.takeWhile Byte.isDigit = ds := List.takeWhile_eq_self_iff.mpr h.2
    have hempty : ds.isEmpty = false := by simpa using h.1
    have hsigned : (sign == '+'.toUInt8 || sign == '-'.toUInt8) = true := by simpa using hsign
    simp only [exponentLength, beginsWith, List.head?_cons, Option.any_some, List.tail_cons, hsigned, if_true,
      List.drop_succ_cons, List.drop_zero, htake, hempty, Bool.false_eq_true, if_false, beq_self_eq_true, Bool.true_or,
      List.length_cons]
    rw [Nat.add_comm]

/-- A run of digits is no longer than the digits when a point or an exponent is next. -/
lemma digitRun_eq {ds rest : Text} (hds : ∀ c ∈ ds, Byte.isDigit c = true)
    (hrest : ∀ c ∈ rest.head?, c = '.'.toUInt8 ∨ c = 'e'.toUInt8) : digitRun (ds ++ rest) = ds := by
  apply Decimal.takeWhile_eq_left (fun c hc => by simp [hds c hc])
  intro c hc
  obtain rfl | rfl := hrest c hc <;> decide

lemma ne_underscore_of_isDigit : ∀ c, Byte.isDigit c = true → c ≠ underscore := by
  rintro c hc rfl
  exact absurd hc (by decide)

lemma filter_unsigned {t : Text} {d : Decimal} (h : Decimal.Unsigned t d) : t.filter (· != underscore) = t := by
  rw [List.filter_eq_self]
  cases h with
  | @mk whole fraction exponent hwhole _ hfraction hexponent =>
    have hdigit {ds : Text} (hds : Digits ds) : ∀ c ∈ ds, (c != underscore) = true := fun c hc => by
      simpa using ne_underscore_of_isDigit c (hds.2 c hc)
    have hf : ∀ c ∈ fraction, (c != underscore) = true := by
      cases hfraction with
      | none => nofun
      | some hds => exact List.forall_mem_cons.mpr ⟨by decide, hdigit hds⟩
    have he : ∀ c ∈ exponent, (c != underscore) = true := by
      cases hexponent with
      | none => nofun
      | some hsign hds =>
        refine List.forall_mem_cons.mpr ⟨by decide, List.forall_mem_cons.mpr ⟨?_, hdigit hds⟩⟩
        obtain rfl | rfl := hsign <;> decide
    intro c hc
    obtain hc | hc := List.mem_append.mp hc
    · exact hdigit hwhole c hc
    · exact (List.mem_append.mp hc).elim (hf c) (he c)

lemma decimal_unsigned {t : Text} {d : Decimal} (h : Decimal.Unsigned t d) :
    decimal t = .ok (d.toFloat, t.length) := by
  have hvalue := Decimal.ofText_eq h
  have hfilter := filter_unsigned h
  cases h with
  | @mk whole fraction exponent hwhole _ hfraction hexponent =>
    have hpoint : (if beginsWith (fraction ++ exponent) (· == '.'.toUInt8) then
        1 + (digitRun ((whole ++ (fraction ++ exponent)).drop (whole.length + 1))).length else 0) = fraction.length := by
      rw [← List.drop_drop, List.drop_left]
      cases hfraction with
      | none =>
        have hnone : beginsWith exponent (· == '.'.toUInt8) = false := by
          cases hexponent <;> rfl
        simp [hnone]
      | some hds =>
        have hrun := digitRun_eq hds.2 (Decimal.head_fraction .none hexponent)
        simp only [List.nil_append] at hrun
        simp [beginsWith, hrun, Nat.add_comm]
    simp only [decimal, digitRun_eq hwhole.2 (Decimal.head_fraction hfraction hexponent), List.drop_left, hpoint]
    rw [← List.drop_drop, List.drop_left, List.drop_left, exponentLength_eq hexponent]
    have hsize : whole.length + fraction.length + exponent.length = (whole ++ (fraction ++ exponent)).length := by
      simp only [List.length_append, Nat.add_assoc]
    dsimp only
    rw [hsize, List.take_length, hfilter, hvalue]

/-- Neither a digit nor the letter of a base follows a zero in front. -/
lemma tail_of_zero {t : Text} {d : Decimal} (h : Decimal.Unsigned t d)
    (hzero : beginsWith t (· == '0'.toUInt8) = true) : ∀ c ∈ t.tail.head?, c = '.'.toUInt8 ∨ c = 'e'.toUInt8 := by
  cases h with
  | @mk whole fraction exponent hwhole hone hfraction hexponent =>
    obtain ⟨c, rest, rfl⟩ := List.exists_cons_of_ne_nil hwhole.1
    have hc : c = '0'.toUInt8 := eq_of_beq hzero
    have hrest : rest = [] := by simpa using hone (congrArg some hc)
    subst hrest
    rw [List.singleton_append, List.tail_cons]
    exact Decimal.head_fraction hfraction hexponent

lemma numberValue_unsigned {t : Text} {d : Decimal} (h : Decimal.Unsigned t d) :
    numberValue t = .ok (d.toFloat, t.length) := by
  have hbase {lower upper : Char} (hpoint : ('.'.toUInt8 == lower.toUInt8 || '.'.toUInt8 == upper.toUInt8) = false)
      (he : ('e'.toUInt8 == lower.toUInt8 || 'e'.toUInt8 == upper.toUInt8) = false) :
      zeroAnd lower upper t = false := by
    rw [zeroAnd, Bool.and_eq_false_imp]
    intro hzero
    rw [beginsWith, Option.any_eq_false]
    intro c hc
    obtain rfl | rfl := tail_of_zero h hzero c hc
    · simp [hpoint]
    · simp [he]
  have hoctal : isBareOctal t = false := by
    cases hzero : beginsWith t (· == '0'.toUInt8) with
    | false => simp [isBareOctal, hzero]
    | true =>
      have hnone : ([] ++ t.tail).takeWhile Byte.isDigit = [] := by
        apply Decimal.takeWhile_eq_left (by simp)
        intro c hc
        obtain rfl | rfl := tail_of_zero h hzero c hc <;> decide
      rw [List.nil_append] at hnone
      simp [isBareOctal, hnone]
  rw [numberValue_eq, hbase (by decide) (by decide), hbase (by decide) (by decide), hbase (by decide) (by decide),
    hoctal]
  exact decimal_unsigned h

lemma number_unsigned {t : Text} {d : Decimal} (h : Decimal.Unsigned t d) :
    number t = .ok (.number d.toFloat false, t.length) := by
  rw [number, numberValue_unsigned h]
  simp [beginsWith]

end Scan

/-- A numeral without a sign is one number, which is not a big one. -/
lemma tokenize_unsigned {t : Text} {d : Decimal} (h : Decimal.Unsigned t d) :
    tokenize t = .ok [.whole (.number d.toFloat false) t, .endOf t] := by
  have hnumber := Scan.number_unsigned h
  obtain ⟨c, rest, rfl, hc⟩ := h.head
  have hdigits : ∀ c, Byte.isDigit c = true → Byte.isBlank c = false ∧ c < 0x80 ∧ c ≠ '/'.toUInt8 ∧ c ≠ '#'.toUInt8 ∧
      (isNameStart c || c == '#'.toUInt8) = false := Byte.forall_of_lt (by decide +kernel)
  obtain ⟨hblank, hascii, hslash, hhash, hname⟩ := hdigits c hc
  have htoken : Scan.token none (c :: rest) = Scan.number (c :: rest) := by
    rw [Scan.token_cons]
    simp [hname, hc]
  apply tokenize_whole (Scan.gap_of_ascii hblank hascii fun h => absurd h hslash) (htoken.trans hnumber)
  · nofun
  · nofun
  · simpa using hhash

section Layout

variable {x : Float} {sign : Float.Model.UnpackedFloat.Sign} {m : Nat} {e : Int} {hm : 0 < m}

/-- The loop over the counts of digits ends with the first count that reads back. -/
lemma exists_places (h : x.toModel.unpack = .finite .positive m e hm) :
    ∃ places, (1 ≤ places ∧ places ≤ 17) ∧ readsBack x places = true ∧
      (∀ fewer, 1 ≤ fewer → fewer < places → readsBack x fewer = false) ∧
      shortDigits x = ⟨Rounded.dropTrailingZeros (Text.ofNat (Rounded.significant places x).digits),
        (Rounded.significant places x).exponent⟩ := by
  have hlast := Float.readsBack_seventeen h
  cases hfind : (List.range' 1 17).find? (readsBack x) with
  | none =>
    have hnone := List.find?_eq_none.mp hfind 17 (by decide)
    exact absurd hlast hnone
  | some places =>
    obtain ⟨hreads, hmem, hfewer⟩ := List.find?_range'_eq_some.mp hfind
    obtain ⟨hlow, hhigh⟩ := List.mem_range'_1.mp hmem
    refine ⟨places, ⟨hlow, by omega⟩, hreads, fun fewer hone hlt => by simpa using hfewer fewer hone hlt, ?_⟩
    rw [shortDigits, hfind]
    rfl

lemma readsBack_iff (h : x.toModel.unpack = .finite .positive m e hm) {places : Nat} (hplaces : 0 < places) :
    readsBack x places = true ↔ Decimal.readFloat (Rounded.scientific places x) = x := by
  rw [(Rounded.unsigned_scientific hplaces (Float.beq_zero_of_unpack h)).readFloat_eq, readsBack]
  exact Float.beq_iff h

lemma number_eq (h : x.toModel.unpack = .finite sign m e hm) :
    number x = (if x < 0.0 then ['-'.toUInt8] else []) ++ (shortDigits x.abs).layout := by
  have hnan : x.isNaN = false := (congrArg Float.Model.UnpackedFloat.isNaN h).trans rfl
  have hinf : x.isInf = false := (congrArg Float.Model.UnpackedFloat.isInf h).trans rfl
  have hsign : Rounded.sign x = if x < 0.0 then ['-'.toUInt8] else [] := by
    have hnegative := (Float.isNegative_of_unpack h).trans (Float.sign_of_unpack h).1.symm
    rw [Rounded.sign]
    simp only [hnegative]
    split_ifs <;> decide
  rw [number, hnan, hinf, Float.beq_zero_of_unpack h, hsign]
  rfl

end Layout

/-- A number is written as the shortest numeral that reads back. The text stands for just what the numeral does,
wherever its point is, and when the number is positive the text is one number. -/
theorem number_exact {x : Float} (hfinite : x.isFinite = true) (hx : (x == 0.0) = false) :
    ∃ places, (1 ≤ places ∧ places ≤ 17) ∧
      Decimal.readFloat (Rounded.scientific places x.abs) = x.abs ∧
      (∀ fewer, 1 ≤ fewer → fewer < places → Decimal.readFloat (Rounded.scientific fewer x.abs) ≠ x.abs) ∧
      Numeral (Rounded.scientific places x.abs) ∧ Numeral (number x) ∧
      Decimal.valueOf (number x) =
        (if x < 0.0 then -1 else 1) * Decimal.valueOf (Rounded.scientific places x.abs) ∧
      (0.0 < x → tokenize (number x) =
        .ok [.whole (.number (Decimal.readFloat (number x)) false) (number x), .endOf (number x)]) := by
  obtain ⟨sign, m, e, hm, h⟩ := Float.exists_finite hfinite hx
  have habs := Float.abs_unpack_finite h
  have hzero := Float.beq_zero_of_unpack habs
  obtain ⟨places, hbounds, hreads, hfewer, hdigits⟩ := exists_places habs
  obtain ⟨d, hlayout, hvalue⟩ := Rounded.unsigned_dropped hbounds.1 hzero
  have hscientific := Rounded.unsigned_scientific hbounds.1 hzero
  rw [← hdigits] at hlayout
  have hminus : (if x < 0.0 then ['-'.toUInt8] else []) = [] ∨
      (if x < 0.0 then ['-'.toUInt8] else []) = ['-'.toUInt8] := by
    split_ifs
    · exact .inr rfl
    · exact .inl rfl
  rw [number_eq h]
  refine ⟨places, hbounds, (readsBack_iff habs hbounds.1).mp hreads, ?_, hscientific.numeral (.inl rfl),
    hlayout.numeral hminus, ?_, ?_⟩
  · intro fewer hone hlt hsame
    exact absurd ((readsBack_iff habs hone).mpr hsame) (by simp [hfewer fewer hone hlt])
  · rw [hscientific.valueOf_eq.1, ← hvalue]
    split_ifs
    · rw [List.singleton_append, hlayout.valueOf_eq.2, neg_one_mul]
    · rw [List.nil_append, hlayout.valueOf_eq.1, one_mul]
  · intro hpos
    have hnot : ¬ x < 0.0 := by
      rw [(Float.sign_of_unpack h).1, (Float.sign_of_unpack h).2.mp hpos]
      nofun
    rw [if_neg hnot, List.nil_append, hlayout.readFloat_eq]
    exact tokenize_unsigned hlayout

theorem number_exact_tenth : (0.1 : Float).isFinite = true ∧ ((0.1 : Float) == 0.0) = false ∧ 0.0 < (0.1 : Float) ∧
    tokenize (number 0.1) =
      .ok [.whole (.number (Decimal.readFloat (number 0.1)) false) (number 0.1), .endOf (number 0.1)] := by
  have hfinite : (0.1 : Float).isFinite = true := by decide +kernel
  have hx : ((0.1 : Float) == 0.0) = false := by decide +kernel
  have hpos : 0.0 < (0.1 : Float) := by decide +kernel
  obtain ⟨_, _, _, _, _, _, _, htoken⟩ := number_exact hfinite hx
  exact ⟨hfinite, hx, hpos, htoken hpos⟩

end PlainScript
