import PlainScript.Proofs.Nearness
import PlainScript.Print.Literal
import Mathlib

/-! Doubles by their sign, mantissa and exponent. A decimal near a double is read as the double, and seventeen digits
of a number are near enough. -/
namespace PlainScript

open Float.Model (Format)
open Float.Model.UnpackedFloat

/-! ### Bits -/

section Bits

variable (b : BitVec Format.binary64.numBits)

lemma unpack_pack_unpack :
    unpack .binary64 (pack .binary64 (unpack .binary64 b)) = unpack .binary64 b := by
  rw [pack_unpack b]
  split
  next hnan =>
    obtain ⟨hexponent, hmantissa⟩ : unpackExponent b = -1#_ ∧ unpackMantissa b ≠ 0#_ := by simpa [isNaNBits] using hnan
    rw [unpack_packedNaN, unpack, if_pos hexponent, if_neg hmantissa]
  next => rfl

lemma abs_unpack : (unpack .binary64 b).abs = unpack .binary64
    (packComponents .binary64 .positive (unpackExponent b) (unpackMantissa b)) := by
  simp only [unpack, unpackMantissa_packComponents, unpackExponent_packComponents, unpackSign_packComponents,
    Sign.ofBitVec_toBitVec]
  split_ifs <;> rfl

end Bits

namespace Float

variable {x y : Float}

/-- A double is what it is unpacked to. -/
lemma eq_of_unpack (h : x.toModel.unpack = y.toModel.unpack) : x = y :=
  Float.toBits_inj.mp (UInt64.toBitVec_inj.mp ((unpack_inj_of_valid x.toModel.valid y.toModel.valid).mp h))

lemma unpack_abs (x : Float) : x.abs.toModel.unpack = x.toModel.unpack.abs := by
  have hunpack := abs_unpack x.toModel.toBits.toBitVec
  change unpack .binary64 (pack .binary64 (unpack .binary64 _).abs) = (unpack .binary64 _).abs
  rw [hunpack, unpack_pack_unpack]

variable {sign : Sign} {m : Nat} {e : Int} {hm : 0 < m}

lemma toNat_unpackExponent (x : Float) :
    (@unpackExponent .binary64 x.toModel.toBits.toBitVec).toNat = x.toBits.toNat / 2 ^ 52 % 2 ^ 11 := by
  rw [unpackExponent_def, BitVec.extractLsb'_toNat, Nat.shiftRight_eq_div_pow]
  rfl

lemma toNat_unpackMantissa (x : Float) :
    (@unpackMantissa .binary64 x.toModel.toBits.toBitVec).toNat = x.toBits.toNat % 2 ^ 52 := by
  rw [unpackMantissa_def, BitVec.extractLsb'_toNat, Nat.shiftRight_zero]
  rfl

lemma toNat_unpackSign (x : Float) :
    (@unpackSign .binary64 x.toModel.toBits.toBitVec).toNat = x.toBits.toNat / 2 ^ 63 := by
  rw [unpackSign_def, BitVec.extractLsb'_toNat, Nat.shiftRight_eq_div_pow]
  have := x.toBits.toNat_lt
  change x.toBits.toNat / 2 ^ 63 % 2 ^ 1 = _
  omega

lemma ofBitVec_eq_negative (b : BitVec 1) : Sign.ofBitVec b = .negative ↔ b.toNat = 1 := by
  have hlt := b.isLt
  rw [Sign.ofBitVec]
  split
  next h =>
    subst h
    simp
  next h =>
    have hne : b.toNat ≠ 0 := fun h0 => h (BitVec.eq_of_toNat_eq h0)
    simp only [true_iff]
    omega

lemma toNat_one_append (mantissa : BitVec 52) : (1#1 ++ mantissa).toNat = 2 ^ 52 + mantissa.toNat := by
  rw [BitVec.toNat_append, ← Nat.shiftLeft_add_eq_or_of_lt mantissa.isLt]
  rfl

lemma isNegative_of_unpack (h : x.toModel.unpack = .finite sign m e hm) :
    Rounded.isNegative x = true ↔ sign = .negative := by
  have hsign : Sign.ofBitVec (@unpackSign .binary64 x.toModel.toBits.toBitVec) = sign := by
    have hunpack : unpack .binary64 x.toModel.toBits.toBitVec = .finite sign m e hm := h
    rw [unpack] at hunpack
    dsimp only at hunpack
    split_ifs at hunpack <;> exact (Float.Model.UnpackedFloat.finite.inj hunpack).1
  rw [← hsign, ofBitVec_eq_negative, toNat_unpackSign, Rounded.isNegative, Nat.pow_eq, decide_eq_true_eq]

lemma magnitude_of_unpack (h : x.toModel.unpack = .finite sign m e hm) :
    Canonical m e ∧ Magnitude.ofFloat x = ⟨m, e⟩ := by
  have hexponent : (@unpackExponent .binary64 x.toModel.toBits.toBitVec).toNat =
    x.toBits.toNat / 4503599627370496 % 2048 := toNat_unpackExponent x
  have hmantissa := toNat_unpackMantissa x
  have hunpack : unpack .binary64 x.toModel.toBits.toBitVec = .finite sign m e hm := h
  have hbias : ((Format.binary64.exponentBias : Int) + Format.binary64.mantissaBitsWithoutImplicit) = 1075 := rfl
  have hpow : Nat.pow 2 52 = 4503599627370496 ∧ Nat.pow 2 11 = 2048 := by decide
  rw [unpack] at hunpack
  simp only [Magnitude.ofFloat, hpow]
  dsimp only at hunpack
  split_ifs at hunpack with htop hnan hbottom hzero
  · -- The exponent is zero, and the mantissa has no implicit bit.
    obtain ⟨rfl, rfl, rfl⟩ := Float.Model.UnpackedFloat.finite.inj hunpack
    have hbiased : x.toBits.toNat / 4503599627370496 % 2048 = 0 :=
      hexponent.symm.trans (congrArg BitVec.toNat hbottom)
    rw [if_pos hbiased, hbias, hbottom, hmantissa]
    exact ⟨⟨hmantissa ▸ hm, by omega, by decide, by decide, .inr rfl⟩, rfl⟩
  · obtain ⟨rfl, rfl, rfl⟩ := Float.Model.UnpackedFloat.finite.inj hunpack
    have hnonzero : x.toBits.toNat / 4503599627370496 % 2048 ≠ 0 := fun h0 =>
      hbottom (BitVec.eq_of_toNat_eq (hexponent.trans h0))
    have hnotop : x.toBits.toNat / 4503599627370496 % 2048 ≠ 2047 := fun h0 =>
      htop (BitVec.eq_of_toNat_eq (hexponent.trans h0))
    have hlead := toNat_one_append (@unpackMantissa .binary64 x.toModel.toBits.toBitVec)
    rw [hmantissa] at hlead
    rw [if_neg hnonzero, hbias, hexponent]
    refine ⟨⟨hm, hlead.trans_lt (by omega), by omega, by omega, .inl ?_⟩, congrArg₂ Magnitude.mk hlead.symm rfl⟩
    exact (Nat.le_add_right _ _).trans_eq hlead.symm

lemma unpack_zero : (0.0 : Float).toModel.unpack = .zero .positive := by rfl

lemma exists_finite (hfinite : x.isFinite = true) (hx : (x == 0.0) = false) :
    ∃ sign m e hm, x.toModel.unpack = .finite sign m e hm := by
  have hfinite' : x.toModel.unpack.isFinite = true := hfinite
  have hx' : x.toModel.unpack.beq (0.0 : Float).toModel.unpack = false := hx
  cases hunpack : x.toModel.unpack with
  | infinity => simp [hunpack, isFinite] at hfinite'
  | notANumber => simp [hunpack, isFinite] at hfinite'
  | zero sign =>
    rw [hunpack, unpack_zero] at hx'
    cases sign <;> exact absurd hx' (by decide)
  | finite sign m e hm => exact ⟨sign, m, e, hm, rfl⟩

lemma beq_iff (h : x.toModel.unpack = .finite sign m e hm) : (y == x) = true ↔ y = x := by
  have hbeq : (y == x) = y.toModel.unpack.beq x.toModel.unpack := rfl
  rw [hbeq, beq_iff_ne_notANumber_and_eq, h]
  constructor
  · rintro ⟨-, -, hsame | ⟨-, hzero⟩ | ⟨-, hzero⟩⟩
    · exact eq_of_unpack (hsame.trans h.symm)
    · cases hzero
    · cases hzero
  · rintro rfl
    exact ⟨by simp [h], by simp, .inl h⟩

lemma abs_unpack_finite (h : x.toModel.unpack = .finite sign m e hm) :
    x.abs.toModel.unpack = .finite .positive m e hm := by
  rw [unpack_abs, h]
  rfl

lemma Near.bounds {v : ℚ} (hm : Canonical m e) (h : Near m e v) : (10 : ℚ) ^ (-330 : Int) ≤ v ∧ v < 10 ^ 309 := by
  have hpow : (0 : ℚ) < 2 ^ e := zpow_pos two_pos e
  obtain ⟨hleft, hright⟩ := abs_lt.mp h.half
  have hlow : (2 : ℚ) ^ (-1074 : Int) ≤ 2 ^ e := zpow_le_zpow_right₀ one_le_two hm.low
  have hhigh : (2 : ℚ) ^ e ≤ 2 ^ (971 : Int) := zpow_le_zpow_right₀ one_le_two hm.high
  constructor
  · have hone : (1 : ℚ) ≤ m := by exact_mod_cast hm.pos
    have hscale := mul_le_mul_of_nonneg_right hone hpow.le
    have hsmall : (10 : ℚ) ^ (-330 : Int) ≤ 1 / 2 * 2 ^ (-1074 : Int) := by
      have hnat : 2 * 2 ^ 1074 ≤ 10 ^ 330 := by decide +kernel
      have hcast : (2 : ℚ) * 2 ^ 1074 ≤ 10 ^ 330 := by exact_mod_cast hnat
      rw [zpow_neg, zpow_neg, one_div, ← mul_inv]
      exact inv_anti₀ (by positivity) hcast
    linarith
  · have hlt : (m : ℚ) + 1 ≤ 2 ^ 53 := by exact_mod_cast hm.lt
    have hnat : 2 ^ 53 * 2 ^ 971 ≤ 10 ^ 309 := by decide +kernel
    calc v < (m + 1) * 2 ^ e := by linarith
      _ ≤ 2 ^ 53 * 2 ^ (971 : Int) := mul_le_mul hlt hhigh hpow.le (by positivity)
      _ ≤ 10 ^ 309 := by exact_mod_cast hnat

/-- A decimal that is near a double is read as the double. -/
lemma toFloat_eq {d : Decimal} (hlarge : 2 ^ 53 ≤ d.coefficient) (h : x.toModel.unpack = .finite .positive m e hm)
    (hnear : Near m e d.toRat) : d.toFloat = x := by
  have hpos : 0 < d.coefficient := by omega
  have hcanonical := (magnitude_of_unpack h).1
  obtain ⟨hlow, hhigh⟩ := hnear.bounds hcanonical
  have hten : (1 : ℚ) < 10 := by norm_num
  have hcount : 0 < Decimal.digitCount d.coefficient := Nat.length_toDigits_pos
  have hbelow : -330 < d.exponent + Decimal.digitCount d.coefficient := by
    have hlt : d.toRat < 10 ^ (d.exponent + Decimal.digitCount d.coefficient) := by
      have hcoefficient : (d.coefficient : ℚ) < 10 ^ Decimal.digitCount d.coefficient := by
        exact_mod_cast Decimal.lt_pow_digitCount d.coefficient
      rw [zpow_add₀ (by norm_num), mul_comm, zpow_natCast]
      exact mul_lt_mul_of_pos_right hcoefficient (zpow_pos (by norm_num) _)
    exact (zpow_lt_zpow_iff_right₀ hten).mp (hlow.trans_lt hlt)
  have habove : d.exponent + Decimal.digitCount d.coefficient - 1 < 309 := by
    have hle : (10 : ℚ) ^ (d.exponent + Decimal.digitCount d.coefficient - 1) ≤ d.toRat := by
      have hcoefficient : (10 : ℚ) ^ (Decimal.digitCount d.coefficient - 1) ≤ d.coefficient := by
        exact_mod_cast Decimal.pow_digitCount_le hpos
      rw [add_sub_assoc, zpow_add₀ (by norm_num), mul_comm, ← Int.natCast_one, ← Int.ofNat_sub hcount, zpow_natCast]
      exact mul_le_mul_of_nonneg_right hcoefficient (zpow_pos (by norm_num) _).le
    exact (zpow_lt_zpow_iff_right₀ hten).mp (hle.trans_lt hhigh)
  have hlog : Decimal.digitCount d.coefficient - 1 ≤ d.coefficient.log2 := by
    rw [Nat.le_log2 hpos.ne']
    exact (Nat.pow_le_pow_left (by decide) _).trans (Decimal.pow_digitCount_le hpos)
  have hexponent : (if decide (d.exponent < 0) = true then Int.negOfNat d.exponent.natAbs
      else Int.ofNat d.exponent.natAbs) = d.exponent := by
    simp only [decide_eq_true_eq]
    split_ifs with hneg
    · rw [Int.negOfNat_eq, Int.ofNat_eq_natCast, Int.ofNat_natAbs_of_nonpos hneg.le, neg_neg]
    · exact Int.natAbs_of_nonneg (not_lt.mp hneg)
  rw [Decimal.toFloat, if_neg hpos.ne', if_neg (by omega), if_neg (by omega), Float.ofScientific, dif_neg (by omega)]
  simp only [hexponent]
  rw [Float.Model.ofScientific, ofScientific_eq hpos hcanonical hnear (by omega) (by omega), ← h]
  exact eq_of_unpack (unpack_pack_unpack x.toModel.toBits.toBitVec)

lemma beq_zero_of_unpack (h : x.toModel.unpack = .finite sign m e hm) : (x == 0.0) = false := by
  change x.toModel.unpack.beq (0.0 : Float).toModel.unpack = false
  rw [h, unpack_zero]
  cases sign <;> rfl

/-- The sign of a number is the one that it is written with. -/
lemma sign_of_unpack (h : x.toModel.unpack = .finite sign m e hm) :
    (x < 0.0 ↔ sign = .negative) ∧ (0.0 < x ↔ sign = .positive) := by
  have hbelow : x < 0.0 ↔ (Float.Model.UnpackedFloat.finite sign m e hm).lt (.zero .positive) = true := by
    rw [← h, ← unpack_zero]
    exact decide_eq_true_iff
  have habove : 0.0 < x ↔ Float.Model.UnpackedFloat.lt (.zero .positive) (.finite sign m e hm) = true := by
    rw [← h, ← unpack_zero]
    exact decide_eq_true_iff
  rw [hbelow, habove]
  cases sign <;> simp [Float.Model.UnpackedFloat.lt, Float.Model.UnpackedFloat.compare]

/-- Seventeen digits are enough. -/
lemma near_seventeen (h : x.toModel.unpack = .finite sign m e hm) :
    Near m e ((Rounded.significant 17 x).toDecimal 17).toRat := by
  obtain ⟨hcanonical, hmagnitude⟩ := magnitude_of_unpack h
  obtain ⟨lead, hrounds⟩ := @Rounded.significant_rounds 17 (by decide) x (beq_zero_of_unpack h)
  have hpow : (0 : ℚ) < 2 ^ e := zpow_pos two_pos e
  have hlead := hrounds.lead_le
  have herror := hrounds.error
  rw [hmagnitude, Magnitude.toRat] at hlead herror
  have hunit : (10 : ℚ) ^ (lead - (((17 : Nat) : Int) - 1)) = 10 ^ lead / 10 ^ 16 := by
    rw [zpow_sub₀ (by norm_num)]
    norm_num
  have hbound {k : ℚ} (hk : (m : ℚ) ≤ k) :
      |((Rounded.significant 17 x).toDecimal 17).toRat - m * 2 ^ e| ≤ k / (2 * 10 ^ 16) * 2 ^ e := by
    have hscaled : (10 : ℚ) ^ lead ≤ k * 2 ^ e := hlead.trans (mul_le_mul_of_nonneg_right hk hpow.le)
    rw [hunit] at herror
    calc _ ≤ 1 / 2 * (10 ^ lead / 10 ^ 16) := herror
      _ = 10 ^ lead / (2 * 10 ^ 16) := by ring
      _ ≤ k * 2 ^ e / (2 * 10 ^ 16) := div_le_div_of_nonneg_right hscaled (by positivity)
      _ = k / (2 * 10 ^ 16) * 2 ^ e := by ring
  constructor
  · have hlt : (m : ℚ) ≤ 2 ^ 53 := by exact_mod_cast hcanonical.lt.le
    exact (hbound hlt).trans_lt (mul_lt_mul_of_pos_right (by norm_num) hpow)
  · intro hborder
    have hle : (m : ℚ) ≤ 2 ^ 52 := by exact_mod_cast hborder.le
    exact (hbound hle).trans_lt (mul_lt_mul_of_pos_right (by norm_num) hpow)

lemma readsBack_seventeen (h : x.toModel.unpack = .finite .positive m e hm) : Print.readsBack x 17 = true := by
  obtain ⟨lead, hrounds⟩ := @Rounded.significant_rounds 17 (by decide) x (beq_zero_of_unpack h)
  have hlarge : 2 ^ 53 ≤ (Rounded.significant 17 x).digits := le_trans (by decide) hrounds.low
  rw [Print.readsBack, toFloat_eq (d := (Rounded.significant 17 x).toDecimal 17) hlarge h (near_seventeen h)]
  exact (beq_iff h).mpr rfl

end Float

end PlainScript
