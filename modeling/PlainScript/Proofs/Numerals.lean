import PlainScript.Number.General
import Mathlib.Algebra.Order.Ring.Nat
import Mathlib.Data.List.TakeWhile
import Mathlib.Tactic.Lemma
import Mathlib.Tactic.SplitIfs

/-! Doubles are written as numerals: an optional sign, digits, perhaps a point with digits behind it, and
perhaps a signed exponent. A double other than zero is not rounded to zero, so there are digits behind
every point. -/
namespace PlainScript

namespace Byte

lemma toNat_of_isDigit {c : Char} (h : c.isDigit = true) :
    c.toUInt8.toNat = c.toNat ∧ 48 ≤ c.toNat ∧ c.toNat ≤ 57 := by
  have hc : 48 ≤ c.toNat ∧ c.toNat ≤ 57 := by
    simpa [Char.isDigit, UInt32.le_iff_toNat_le] using h
  refine ⟨Nat.mod_eq_of_lt ?_, hc⟩
  exact hc.2.trans_lt (by decide)

lemma isDigit_toUInt8 {c : Char} (h : c.isDigit = true) : isDigit c.toUInt8 = true := by
  obtain ⟨heq, hc⟩ := toNat_of_isDigit h
  rw [isDigit, Bool.and_eq_true, decide_eq_true_iff, decide_eq_true_iff, UInt8.le_iff_toNat_le,
    UInt8.le_iff_toNat_le, heq]
  exact hc

lemma eq_zero_of_toUInt8 {c : Char} (h : c.isDigit = true) (hbyte : c.toUInt8 = '0'.toUInt8) : c = '0' := by
  have heq := (toNat_of_isDigit h).1
  rw [hbyte] at heq
  exact Char.ext (UInt32.toNat_inj.mp heq.symm)

end Byte

/-- One or more digits. -/
def Digits (t : Text) : Prop := t ≠ [] ∧ ∀ c ∈ t, Byte.isDigit c = true

lemma Digits.append {s t : Text} (hs : ∀ c ∈ s, Byte.isDigit c = true) (ht : Digits t) : Digits (s ++ t) :=
  ⟨by simp [ht.1], fun c hc => (List.mem_append.mp hc).elim (hs c) (ht.2 c)⟩

lemma Digits.isDigit_head {s t : Text} {c : UInt8} (h : Digits s) (hc : c ∈ (s ++ t).head?) :
    Byte.isDigit c = true := by
  obtain _ | ⟨d, ds⟩ := s
  · exact absurd rfl h.1
  · obtain rfl : d = c := by simpa using hc
    exact h.2 d (by simp)

lemma digits_ofNat (n : Nat) : Digits (Text.ofNat n) := by
  refine ⟨by simp [Text.ofNat, Nat.toDigits_ne_nil], fun c hc => ?_⟩
  obtain ⟨d, hd, rfl⟩ := List.mem_map.mp hc
  exact Byte.isDigit_toUInt8 (Nat.isDigit_of_mem_toDigits (by decide) (by decide) hd)

lemma digit_of_mem_zeros {n : Nat} {c : UInt8} (h : c ∈ Text.replicate n '0') : Byte.isDigit c = true :=
  List.eq_of_mem_replicate h ▸ by decide

/-- What follows the digits of a whole number: nothing, or a point with digits. -/
inductive Fraction : Text → Prop
  | none : Fraction []
  | some {ds : Text} (h : Digits ds) : Fraction ('.'.toUInt8 :: ds)

/-- What comes last: nothing, or a signed exponent. -/
inductive Exponent : Text → Prop
  | none : Exponent []
  | some {sign : UInt8} {ds : Text} (hsign : sign = '+'.toUInt8 ∨ sign = '-'.toUInt8) (h : Digits ds) :
    Exponent ('e'.toUInt8 :: sign :: ds)

inductive Numeral : Text → Prop
  | mk {sign whole fraction exponent : Text} (hsign : sign = [] ∨ sign = ['-'.toUInt8]) (hwhole : Digits whole)
    (hfraction : Fraction fraction) (hexponent : Exponent exponent) : Numeral (sign ++ whole ++ fraction ++ exponent)

/-! ### Rounding keeps clear of zero -/

namespace Decimal

lemma lt_pow_digitCount (n : Nat) : n < 10 ^ digitCount n :=
  (Nat.length_toDigits_le_iff (by decide) Nat.length_toDigits_pos).mp le_rfl

lemma pow_digitCount_le {n : Nat} (h : 0 < n) : 10 ^ (digitCount n - 1) ≤ n := by
  by_contra hlt
  obtain hone | hmore := Nat.eq_zero_or_pos (digitCount n - 1)
  · simp only [hone, pow_zero] at hlt
    omega
  · have := (Nat.length_toDigits_le_iff (by decide) hmore).mpr (not_le.mp hlt)
    simp only [digitCount] at this hmore
    omega

end Decimal

lemma Float.eq_of_toBits {x y : Float} (h : x.toBits = y.toBits) : x = y := by
  obtain ⟨⟨_, _⟩⟩ := x
  obtain ⟨⟨_, _⟩⟩ := y
  cases h
  rfl

/-- The two doubles without a magnitude both count as zero. -/
lemma Float.beq_zero_of_toBits {x : Float} (h : x.toBits = 0 ∨ x.toBits = 0x8000000000000000) :
    (x == 0.0) = true := by
  obtain h | h := h
  · rw [eq_of_toBits (y := 0.0) (h.trans (by decide +kernel))]
    decide +kernel
  · rw [eq_of_toBits (y := -0.0) (h.trans (by decide +kernel))]
    decide +kernel

lemma Magnitude.numerator_pos {x : Float} (h : (x == 0.0) = false) : 0 < (ofFloat x).numerator := by
  refine Nat.mul_pos (Nat.pos_of_ne_zero fun hzero => ?_) (Nat.pow_pos (by decide))
  have hpow : Nat.pow 2 52 = 4503599627370496 ∧ Nat.pow 2 11 = 2048 := by decide
  simp only [ofFloat, hpow] at hzero
  by_cases hbiased : x.toBits.toNat / 4503599627370496 % 2048 = 0
  · rw [if_pos hbiased] at hzero
    refine absurd (Float.beq_zero_of_toBits (x := x) ?_) (by simp [h])
    have := x.toBits.toNat_lt
    have hhalf : (0x8000000000000000 : UInt64).toNat = 9223372036854775808 := rfl
    rw [← UInt64.toNat_inj, ← UInt64.toNat_inj, UInt64.toNat_zero, hhalf]
    have hfield : x.toBits.toNat % 4503599627370496 = 0 := hzero
    omega
  · rw [if_neg hbiased] at hzero
    exact absurd (Nat.eq_zero_of_add_eq_zero_right hzero) (by decide)

lemma Magnitude.denominator_pos (m : Magnitude) : 0 < m.denominator := Nat.pow_pos (by decide)

namespace Rounded

lemma leadingExponent_le {n d : Nat} (hn : 0 < n) :
    d * 10 ^ (leadingExponent n d).toNat ≤ n * 10 ^ (-leadingExponent n d).toNat := by
  rw [leadingExponent]
  split
  · assumption
  · have hcount : 0 < Decimal.digitCount n := Nat.length_toDigits_pos
    set e : Int := (Decimal.digitCount n : Int) - Decimal.digitCount d - 1 with he
    calc d * 10 ^ e.toNat ≤ 10 ^ Decimal.digitCount d * 10 ^ e.toNat :=
          Nat.mul_le_mul_right _ (Decimal.lt_pow_digitCount d).le
      _ = 10 ^ (Decimal.digitCount n - 1) * 10 ^ (-e).toNat := by
          rw [← pow_add, ← pow_add]
          congr 1
          omega
      _ ≤ n * 10 ^ (-e).toNat := Nat.mul_le_mul_right _ (Decimal.pow_digitCount_le hn)

lemma nearest_pos {n d : Nat} (hd : 0 < d) (h : d ≤ n) : 0 < nearest n d := by
  have := Nat.div_pos h hd
  simp only [nearest]
  split <;> [omega; split <;> [omega; split <;> omega]]

lemma significant_pos {places : Nat} (hplaces : 0 < places) {x : Float} (hx : (x == 0.0) = false) :
    0 < (significant places x).digits := by
  have hn := Magnitude.numerator_pos hx
  have hd := Magnitude.denominator_pos (Magnitude.ofFloat x)
  have hlead := leadingExponent_le (d := (Magnitude.ofFloat x).denominator) hn
  simp only [significant]
  generalize (Magnitude.ofFloat x).numerator = n at *
  generalize (Magnitude.ofFloat x).denominator = d at *
  generalize leadingExponent n d = e at *
  have hdigits : 0 < nearest (n * Nat.pow 10 ((places : Int) - 1 - e).toNat)
      (d * Nat.pow 10 (-((places : Int) - 1 - e)).toNat) := by
    refine nearest_pos (Nat.mul_pos hd (Nat.pow_pos (by decide))) ?_
    calc d * 10 ^ (-((places : Int) - 1 - e)).toNat ≤ d * 10 ^ e.toNat :=
          Nat.mul_le_mul_left _ (Nat.pow_le_pow_right (by decide) (by omega))
      _ ≤ n * 10 ^ (-e).toNat := hlead
      _ ≤ n * 10 ^ ((places : Int) - 1 - e).toNat :=
          Nat.mul_le_mul_left _ (Nat.pow_le_pow_right (by decide) (by omega))
  split
  · next hten =>
    rw [hten]
    refine Nat.div_pos ?_ (by decide)
    exact Nat.le_self_pow (by omega) 10
  · exact hdigits

/-! ### The layout -/

lemma sign_cases (x : Float) : sign x = [] ∨ sign x = ['-'.toUInt8] := by
  rw [sign]
  split
  · exact .inr (by decide)
  · exact .inl rfl

lemma nonFinite?_eq_none {x : Float} (hx : x.isFinite = true) : nonFinite? x = none := by
  have hclass : x.toModel.unpack.isFinite = true → x.toModel.unpack.isNaN = false ∧ x.toModel.unpack.isInf = false := by
    cases x.toModel.unpack with
    | infinity => exact nofun
    | notANumber => exact nofun
    | zero => exact fun _ => ⟨rfl, rfl⟩
    | finite => exact fun _ => ⟨rfl, rfl⟩
  obtain ⟨hnan, hinf⟩ : x.isNaN = false ∧ x.isInf = false := hclass hx
  rw [nonFinite?, hnan, hinf]
  rfl

lemma mem_of_mem_dropTrailingZeros {t : Text} {c : UInt8} (h : c ∈ dropTrailingZeros t) : c ∈ t :=
  List.mem_reverse.mp ((List.dropWhile_suffix _).subset (List.mem_reverse.mp h))

lemma ofDigitChars_zeros (count : Nat) : Nat.ofDigitChars 10 (List.replicate count '0') 0 = 0 := by
  induction count with
  | zero => rfl
  | succ count ih => rwa [List.replicate_succ, Nat.ofDigitChars_cons]

lemma dropTrailingZeros_ofNat {n : Nat} (hn : 0 < n) : dropTrailingZeros (Text.ofNat n) ≠ [] := by
  intro hnil
  rw [dropTrailingZeros, List.reverse_eq_nil_iff, List.dropWhile_eq_nil_iff] at hnil
  have hzeros : ∀ c ∈ Nat.toDigits 10 n, c = '0' := fun c hc =>
    Byte.eq_zero_of_toUInt8 (Nat.isDigit_of_mem_toDigits (by decide) (by decide) hc)
      (by simpa using hnil c.toUInt8 (List.mem_reverse.mpr (List.mem_map_of_mem hc)))
  have hvalue : Nat.ofDigitChars 10 (Nat.toDigits 10 n) 0 = n := Nat.ofDigitChars_ten_toDigits
  rw [List.eq_replicate_of_mem hzeros, ofDigitChars_zeros] at hvalue
  omega

/-- A point stands only before digits. -/
lemma withPoint_eq (whole fraction : Text) (h : ∀ c ∈ fraction, Byte.isDigit c = true) :
    ∃ tail, Fraction tail ∧ withPoint whole fraction = whole ++ tail := by
  rw [withPoint]
  obtain _ | ⟨c, ds⟩ := fraction
  · exact ⟨[], .none, by simp⟩
  · refine ⟨_, .some (show Digits (c :: ds) from ⟨by simp, h⟩), ?_⟩
    simp [show Text.ofString "." = ['.'.toUInt8] by decide]

/-- Every finite double is written as a numeral. -/
theorem numeral_general {places : Nat} (hplaces : 0 < places) {x : Float} (hx : x.isFinite = true) :
    Numeral (general places x) := by
  have hsign := sign_cases x
  rw [general, nonFinite?_eq_none hx]
  dsimp only
  split
  · have hdigit : ("0" : Text) = Text.ofNat 0 := by decide
    simpa [hdigit] using Numeral.mk hsign (digits_ofNat 0) .none .none
  · next hzero =>
    have hpos := significant_pos hplaces (by simpa using hzero)
    generalize significant places x = s at *
    obtain ⟨hne, hdigits⟩ := digits_ofNat s.digits
    have hlead (count : Nat) : Digits ((Text.ofNat s.digits).take (count + 1)) :=
      ⟨by simpa using hne, fun c hc => hdigits c (List.mem_of_mem_take hc)⟩
    have htail (count : Nat) := withPoint_eq ((Text.ofNat s.digits).take count)
      (dropTrailingZeros ((Text.ofNat s.digits).drop count))
      fun c hc => hdigits c (List.mem_of_mem_drop (mem_of_mem_dropTrailingZeros hc))
    split
    · split
      · obtain ⟨tail, htail, heq⟩ := htail (s.exponent.toNat + 1)
        simpa [heq] using Numeral.mk hsign (hlead _) htail .none
      · have hfraction : Fraction ('.'.toUInt8 :: _) := .some (Digits.append
          (s := Text.replicate ((-s.exponent).toNat - 1) '0') (fun _ => digit_of_mem_zeros)
          ⟨dropTrailingZeros_ofNat hpos, fun c hc => hdigits c (mem_of_mem_dropTrailingZeros hc)⟩)
        have hpoint : ("0." : Text) = Text.ofNat 0 ++ ['.'.toUInt8] := by decide
        simpa [hpoint] using Numeral.mk hsign (digits_ofNat 0) hfraction .none
    · obtain ⟨tail, htail, heq⟩ := htail 1
      have hpower := Digits.append (s := Text.replicate (2 - (Text.ofNat s.exponent.natAbs).length) '0')
        (fun _ => digit_of_mem_zeros) (digits_ofNat s.exponent.natAbs)
      have he : ("e" : Text) = ['e'.toUInt8] := by decide
      rw [heq, he]
      split
      · have hminus : ("-" : Text) = ['-'.toUInt8] := by decide
        simpa [hminus] using Numeral.mk hsign (hlead 0) htail (.some (.inr rfl) hpower)
      · have hplus : ("+" : Text) = ['+'.toUInt8] := by decide
        simpa [hplus] using Numeral.mk hsign (hlead 0) htail (.some (.inl rfl) hpower)

end Rounded

end PlainScript
