import PlainScript.Proofs.Significant
import Mathlib

/-! Rounding to a double. A number that is nearer to a double than half a step is rounded to it, whether it comes as
a product or as a quotient of a mantissa and a power of ten. -/
namespace PlainScript

open Float.Model (Format totalExponent)
open Float.Model.UnpackedFloat

namespace Float

/-- The numbers that a mantissa and its two residual bits leave open. -/
inductive Brackets : ExtendedMantissa → ℚ → Prop
  | exact (m : Nat) : Brackets ⟨m, false, false⟩ m
  | below {m : Nat} {y : ℚ} (hlow : m < y) (hhigh : y < m + 1 / 2) : Brackets ⟨m, false, true⟩ y
  | half (m : Nat) : Brackets ⟨m, true, false⟩ (m + 1 / 2)
  | above {m : Nat} {y : ℚ} (hlow : m + 1 / 2 < y) (hhigh : y < m + 1) : Brackets ⟨m, true, true⟩ y

namespace Brackets

variable {em : ExtendedMantissa} {y : ℚ}

/-- The residual bits tell whether something is left. -/
lemma residue (h : Brackets em y) :
    (em.roundBit || em.stickyBit) = false ∧ y = em.mantissa ∨
      (em.roundBit || em.stickyBit) = true ∧ em.mantissa < y ∧ y < em.mantissa + 1 := by
  cases h with
  | exact => exact .inl ⟨rfl, rfl⟩
  | below hlow hhigh => exact .inr ⟨rfl, hlow, by linarith⟩
  | half => exact .inr ⟨rfl, by norm_num, by norm_num⟩
  | above hlow hhigh => exact .inr ⟨rfl, by linarith, hhigh⟩

lemma bounds (h : Brackets em y) : em.mantissa ≤ y ∧ y < em.mantissa + 1 := by
  obtain ⟨-, rfl⟩ | ⟨-, hlow, hhigh⟩ := h.residue
  · exact ⟨le_rfl, lt_add_one _⟩
  · exact ⟨hlow.le, hhigh⟩

lemma shiftRightOne (h : Brackets em y) : Brackets em.shiftRightOne (y / 2) := by
  have hresidue := h.residue
  rw [ExtendedMantissa.shiftRightOne]
  obtain ⟨k, hk | hk⟩ := Nat.even_or_odd' em.mantissa
  · have hshift : em.mantissa / 2 = k ∧ (em.mantissa % 2 != 0) = false := by simp [hk]
    have hcast : (em.mantissa : ℚ) = 2 * k := by simp [hk]
    rw [hshift.1, hshift.2]
    obtain ⟨hbits, rfl⟩ | ⟨hbits, hlow, hhigh⟩ := hresidue
    · have heq : (em.mantissa : ℚ) / 2 = k := by linarith
      rw [hbits, heq]
      exact .exact k
    · rw [hbits]
      exact .below (by linarith) (by linarith)
  · have hshift : em.mantissa / 2 = k ∧ (em.mantissa % 2 != 0) = true := by
      rw [hk]
      exact ⟨by omega, by simp⟩
    have hcast : (em.mantissa : ℚ) = 2 * k + 1 := by simp [hk]
    rw [hshift.1, hshift.2]
    obtain ⟨hbits, rfl⟩ | ⟨hbits, hlow, hhigh⟩ := hresidue
    · have heq : (em.mantissa : ℚ) / 2 = k + 1 / 2 := by linarith
      rw [hbits, heq]
      exact .half k
    · rw [hbits]
      exact .above (by linarith) (by linarith)

lemma shiftRight (h : Brackets em y) (n : Nat) : Brackets (em >>> n) (y / 2 ^ n) := by
  change Brackets (n.repeat ExtendedMantissa.shiftRightOne em) _
  induction n with
  | zero => simpa [Nat.repeat] using h
  | succ n ih =>
    rw [pow_succ, ← div_div]
    exact ih.shiftRightOne

/-- A whole number nearer than a half is what the mantissa is rounded to. -/
lemma roundedMantissa_eq (h : Brackets em y) {m : Nat} (hnear : |y - m| < 1 / 2) : em.roundedMantissa = m := by
  obtain ⟨hlow, hhigh⟩ := abs_lt.mp hnear
  have hbetween {n : Nat} (hle : (n : ℚ) < m + 1) (hge : (m : ℚ) < n + 1) : n = m := by
    have hle' : n < m + 1 := by exact_mod_cast hle
    have hge' : m < n + 1 := by exact_mod_cast hge
    omega
  cases h with
  | exact n => exact hbetween (n := n) (by linarith) (by linarith)
  | @below n => exact hbetween (n := n) (by linarith) (by linarith)
  | half n =>
    have hlt : (n : ℚ) < m := by linarith
    have hgt : (m : ℚ) < n + 1 := by linarith
    have hlt' : n < m := by exact_mod_cast hlt
    have hgt' : m < n + 1 := by exact_mod_cast hgt
    omega
  | @above n => exact hbetween (n := n + 1) (by push_cast; linarith) (by push_cast; linarith)

end Brackets

/-- The quotient of two whole numbers with the accuracy that the remainder has. -/
lemma brackets_quotient (n : Nat) {d : Nat} (hd : 0 < d) :
    Brackets (.ofMantissaAndAccuracy (n / d) (accuracyOfFraction (n % d) d)) (n / d) := by
  have hpos : (0 : ℚ) < d := Nat.cast_pos.mpr hd
  have hsplit : (n : ℚ) = d * (n / d : Nat) + (n % d : Nat) := by exact_mod_cast (Nat.div_add_mod n d).symm
  have hmod := Nat.mod_lt n hd
  have hquotient : (n : ℚ) / d = (n / d : Nat) + (n % d : Nat) / d := by
    rw [div_eq_iff hpos.ne', add_mul, div_mul_cancel₀ _ hpos.ne', mul_comm]
    exact hsplit
  rw [hquotient, accuracyOfFraction]
  generalize n / d = q
  generalize n % d = r at *
  split
  next hzero =>
    rw [hzero, Nat.cast_zero, zero_div, add_zero]
    exact .exact q
  next hzero =>
    have hr : (0 : ℚ) < r / d := div_pos (by exact_mod_cast Nat.pos_of_ne_zero hzero) hpos
    obtain hcmp | hcmp | hcmp := lt_trichotomy (2 * r) d
    · rw [Nat.compare_eq_lt.mpr hcmp]
      have hhalf : (r : ℚ) / d < 1 / 2 := by
        rw [div_lt_div_iff₀ hpos two_pos]
        exact_mod_cast (mul_comm r 2).trans_lt (hcmp.trans_eq (one_mul d).symm)
      exact .below (by linarith) (by linarith)
    · rw [Nat.compare_eq_eq.mpr hcmp]
      have hhalf : (r : ℚ) / d = 1 / 2 := by
        rw [div_eq_div_iff hpos.ne' two_ne_zero]
        exact_mod_cast (mul_comm r 2).trans (hcmp.trans (one_mul d).symm)
      rw [hhalf]
      exact .half q
    · rw [Nat.compare_eq_gt.mpr hcmp]
      have hhalf : (1 / 2 : ℚ) < r / d := by
        rw [div_lt_div_iff₀ two_pos hpos]
        exact_mod_cast (one_mul d).trans_lt (hcmp.trans_eq (mul_comm 2 r))
      have hone : (r : ℚ) / d < 1 := (div_lt_one hpos).mpr (by exact_mod_cast hmod)
      exact .above (by linarith) (by linarith)

/-- The magnitudes of the finite doubles. -/
structure Canonical (m : Nat) (e : Int) : Prop where
  pos : 0 < m
  lt : m < 2 ^ 53
  low : -1074 ≤ e
  high : e ≤ 971
  normal : 2 ^ 52 ≤ m ∨ e = -1074

/-- The numbers that are rounded to a double wherever they come from. Below a power of two the doubles are denser. -/
structure Near (m : Nat) (e : Int) (v : ℚ) : Prop where
  half : |v - m * 2 ^ e| < 1 / 2 * 2 ^ e
  quarter : m = 2 ^ 52 → |v - m * 2 ^ e| < 1 / 4 * 2 ^ e

lemma abs_div_sub_lt {v d : ℚ} {m : Nat} {e : Int} (h : |v - m * 2 ^ e| < d * 2 ^ e) : |v / 2 ^ e - m| < d := by
  have hpow : (0 : ℚ) < 2 ^ e := zpow_pos two_pos e
  rwa [← mul_lt_mul_iff_left₀ hpow, ← abs_of_pos hpow, ← abs_mul, abs_of_pos hpow, sub_mul,
    div_mul_cancel₀ _ hpow.ne']

/-- With an exponent that is one less, what is near a power of two is near the double mantissa. -/
lemma Near.doubled {e : Int} {v : ℚ} (h : Near (2 ^ 52) e v) :
    |v - (2 ^ 53 : Nat) * 2 ^ (e - 1)| < 1 / 2 * 2 ^ (e - 1) := by
  have hhalf : (2 : ℚ) ^ e = 2 * 2 ^ (e - 1) := by
    rw [← zpow_one_add₀ two_ne_zero]
    congr 1
    omega
  have hsame : ((2 ^ 52 : Nat) : ℚ) * 2 ^ e = (2 ^ 53 : Nat) * 2 ^ (e - 1) := by
    rw [hhalf]
    push_cast
    ring
  have hquarter : (1 / 4 : ℚ) * 2 ^ e = 1 / 2 * 2 ^ (e - 1) := by
    rw [hhalf]
    ring
  rw [← hsame, ← hquarter]
  exact h.quarter rfl

lemma targetExponent_eq (m : Nat) (e : Int) :
    Format.binary64.targetExponent (totalExponent m e) = max (m.log2 + e - 52) (-1074) := by
  have hbits : Format.binary64.mantissaBits = 53 := rfl
  have hmin : Format.binary64.minExponent = -1074 := rfl
  rw [Format.targetExponent, totalExponent, hbits, hmin]
  congr 1
  omega

lemma shiftToTargetExponent_eq {m : Nat} {e target : Int} {accuracy : Accuracy}
    (htarget : max (m.log2 + e - 52) (-1074) = target) (hle : e ≤ target) :
    shiftToTargetExponent .binary64 m e accuracy =
      (ExtendedMantissa.ofMantissaAndAccuracy m accuracy >>> (target - e).toNat, target) := by
  rw [shiftToTargetExponent, targetExponent_eq, htarget, shiftToExponent, Int.toNat_of_nonneg (by omega),
    add_sub_cancel]

/-- Once a mantissa is small enough, no bit of it is dropped. -/
lemma shiftToTargetExponent_canonical {m : Nat} {e : Int} (h : Canonical m e) :
    shiftToTargetExponent .binary64 m e .exact = (⟨m, false, false⟩, e) := by
  have hlog : m.log2 < 53 := (Nat.log2_lt h.pos.ne').mpr h.lt
  have hnone : (max ((m.log2 : Int) + e - 52) (-1074) - e).toNat = 0 := by
    have := h.low
    omega
  rw [shiftToTargetExponent, targetExponent_eq, shiftToExponent, hnone]
  exact congrArg (Prod.mk _) (add_zero e)

/-- A mantissa of one bit too many is shifted once. -/
lemma shiftToTargetExponent_doubled {e : Int} (h : -1074 ≤ e) :
    shiftToTargetExponent .binary64 (2 ^ 53) (e - 1) .exact = (⟨2 ^ 52, false, false⟩, e) := by
  have htarget : max (((2 ^ 53).log2 : Int) + (e - 1) - 52) (-1074) = e := by
    rw [Nat.log2_two_pow]
    omega
  rw [shiftToTargetExponent_eq htarget (by omega), sub_sub_cancel]
  rfl

lemma log2_bounds {n : Nat} {e : Int} {y : ℚ} (hlow : (n : ℚ) ≤ y) (hhigh : y < n + 1) :
    (n ≠ 0 → (2 : ℚ) ^ (n.log2 + e) ≤ y * 2 ^ e) ∧ y * 2 ^ e < 2 ^ (n.log2 + e + 1) := by
  have htwo : (2 : ℚ) ≠ 0 := two_ne_zero
  have hpow : (0 : ℚ) < 2 ^ e := zpow_pos two_pos e
  constructor
  · intro hn
    have hle : ((2 ^ n.log2 : Nat) : ℚ) ≤ n := by exact_mod_cast Nat.log2_self_le hn
    rw [zpow_add₀ htwo, zpow_natCast]
    push_cast at hle
    exact mul_le_mul_of_nonneg_right (hle.trans hlow) hpow.le
  · have hlt : ((n + 1 : Nat) : ℚ) ≤ (2 ^ (n.log2 + 1) : Nat) := by exact_mod_cast Nat.lt_log2_self
    rw [add_right_comm, zpow_add₀ htwo]
    push_cast at hlt
    exact mul_lt_mul_of_pos_right (hhigh.trans_le hlt) hpow

/-- The exponent of a double is the one that a number near it is shifted to. Just below a power of two it can be
the exponent before. -/
lemma target_cases {n m : Nat} {e q : Int} {y : ℚ} (hlow : (n : ℚ) ≤ y) (hhigh : y < n + 1)
    (hbits : 52 ≤ n.log2 ∨ e ≤ -1074) (hm : Canonical m q) (hnear : Near m q (y * 2 ^ e)) :
    max (n.log2 + e - 52) (-1074) = q ∨ m = 2 ^ 52 ∧ max (n.log2 + e - 52) (-1074) = q - 1 := by
  have hpow : (0 : ℚ) < 2 ^ q := zpow_pos two_pos q
  obtain ⟨hbelow, habove⟩ := log2_bounds (e := e) hlow hhigh
  obtain ⟨hleft, hright⟩ := abs_lt.mp hnear.half
  have hscale (k : Nat) : (2 : ℚ) ^ ((k : Int) + q) = 2 ^ k * 2 ^ q := by
    rw [zpow_add₀ two_ne_zero, zpow_natCast]
  -- Without any bit the mantissa is zero, and the exponent is as small as it can be.
  have hle : n.log2 + e < 53 + q ∨ n.log2 + e - 52 ≤ -1074 := by
    obtain rfl | hn := eq_or_ne n 0
    · rw [Nat.log2_zero] at hbits ⊢
      omega
    · refine .inl ((zpow_lt_zpow_iff_right₀ (one_lt_two (α := ℚ))).mp ((hbelow hn).trans_lt ?_))
      have hlt : (m : ℚ) + 1 ≤ 2 ^ 53 := by exact_mod_cast hm.lt
      calc y * 2 ^ e < (m + 1) * 2 ^ q := by linarith
        _ ≤ 2 ^ 53 * 2 ^ q := mul_le_mul_of_nonneg_right hlt hpow.le
        _ = 2 ^ (53 + q) := (hscale 53).symm
  have hge {k : Nat} (hk : (2 : ℚ) ^ k * 2 ^ q ≤ y * 2 ^ e) : k + q < n.log2 + e + 1 :=
    (zpow_lt_zpow_iff_right₀ (one_lt_two (α := ℚ))).mp ((hscale k).trans_lt (hk.trans_lt habove))
  have hlow' := hm.low
  obtain hnormal | hq := hm.normal
  · obtain heq | hgt := hnormal.eq_or_lt
    · have hcast : (m : ℚ) = 2 ^ 52 := by exact_mod_cast heq.symm
      have hlast : (2 : ℚ) ^ 51 * 2 ^ q ≤ y * 2 ^ e := by
        rw [hcast] at hleft
        linarith
      have hm' : m = 2 ^ 52 := heq.symm
      have := hge hlast
      omega
    · have hcast : (2 : ℚ) ^ 52 + 1 ≤ m := by exact_mod_cast hgt
      have hfirst : (2 : ℚ) ^ 52 * 2 ^ q ≤ y * 2 ^ e := by
        have := mul_le_mul_of_nonneg_right hcast hpow.le
        linarith
      have := hge hfirst
      omega
  · omega

lemma mantissa_ofMantissaAndAccuracy (n : Nat) (accuracy : Accuracy) :
    (ExtendedMantissa.ofMantissaAndAccuracy n accuracy).mantissa = n := by
  obtain _ | (_ | _ | _) := accuracy <;> rfl

lemma roundWithAccuracy_of_shifts {sign : Sign} {n m : Nat} {e t q : Int} {accuracy : Accuracy}
    {em last : ExtendedMantissa} (hfirst : shiftToTargetExponent .binary64 n e accuracy = (em, t))
    (hsecond : shiftToTargetExponent .binary64 em.roundedMantissa t .exact = (last, q)) (hlast : last.mantissa = m)
    (hm : 0 < m) : roundWithAccuracy .binary64 sign n e accuracy = .finite sign m q hm := by
  subst hlast
  simp only [roundWithAccuracy, hfirst, hsecond]
  exact dif_neg hm.ne'

/-- A number that is near enough to a double is rounded to it. -/
lemma roundWithAccuracy_eq {sign : Sign} {n : Nat} {e : Int} {accuracy : Accuracy} {y : ℚ}
    (hy : Brackets (.ofMantissaAndAccuracy n accuracy) y) (hbits : 52 ≤ n.log2 ∨ e ≤ -1074) {m : Nat} {q : Int}
    (hm : Canonical m q) (hnear : Near m q (y * 2 ^ e)) :
    roundWithAccuracy .binary64 sign n e accuracy = .finite sign m q hm.pos := by
  have htwo : (2 : ℚ) ≠ 0 := two_ne_zero
  obtain ⟨hlow, hhigh⟩ := hy.bounds
  rw [mantissa_ofMantissaAndAccuracy] at hlow hhigh
  have hcases := target_cases hlow hhigh hbits hm hnear
  generalize htarget : max ((n.log2 : Int) + e - 52) (-1074) = target at hcases
  have hle : e ≤ target := by omega
  have hshifted := hy.shiftRight (target - e).toNat
  have hvalue : y / 2 ^ (target - e).toNat = y * 2 ^ e / 2 ^ target := by
    rw [← zpow_natCast, Int.toNat_of_nonneg (by omega), zpow_sub₀ htwo]
    field_simp
  rw [hvalue] at hshifted
  have hfirst := @shiftToTargetExponent_eq _ _ _ accuracy htarget hle
  generalize ExtendedMantissa.ofMantissaAndAccuracy n accuracy >>> (target - e).toNat = em at hshifted hfirst
  obtain rfl | ⟨rfl, rfl⟩ := hcases
  · have hsecond : shiftToTargetExponent .binary64 em.roundedMantissa target .exact =
        (⟨m, false, false⟩, target) := by
      rw [hshifted.roundedMantissa_eq (abs_div_sub_lt hnear.half), shiftToTargetExponent_canonical hm]
    exact roundWithAccuracy_of_shifts hfirst hsecond rfl hm.pos
  · -- The mantissa is rounded up to the next power of two, and shifted once more.
    have hsecond : shiftToTargetExponent .binary64 em.roundedMantissa (q - 1) .exact =
        (⟨2 ^ 52, false, false⟩, q) := by
      rw [hshifted.roundedMantissa_eq (abs_div_sub_lt hnear.doubled), shiftToTargetExponent_doubled hm.low]
    exact roundWithAccuracy_of_shifts hfirst hsecond rfl hm.pos

lemma brackets_exact (n : Nat) : Brackets (.ofMantissaAndAccuracy n .exact) n := .exact n

section Scientific

variable {d : Nat} {e : Int} {m : Nat} {q : Int}

lemma round_product (hd : 0 < d) (hm : Canonical m q) (hnear : Near m q (d * 10 ^ e)) (he : 0 ≤ e) :
    roundWithAccuracy .binary64 .positive (d <<< 53 * 10 ^ e.toNat) (-53) .exact = .finite .positive m q hm.pos := by
  have hvalue : ((d <<< 53 * 10 ^ e.toNat : Nat) : ℚ) * 2 ^ (-53 : Int) = d * 10 ^ e := by
    lift e to Nat using he
    rw [Nat.shiftLeft_eq, Int.toNat_natCast, zpow_natCast, zpow_neg]
    push_cast
    field_simp
  have hbits : 52 ≤ (d <<< 53 * 10 ^ e.toNat).log2 := by
    have hpow : 0 < 10 ^ e.toNat := Nat.pow_pos (by decide)
    have hle : 2 ^ 52 ≤ d <<< 53 * 10 ^ e.toNat := by
      rw [Nat.shiftLeft_eq]
      calc 2 ^ 52 ≤ 1 * 2 ^ 53 * 1 := by decide
        _ ≤ d * 2 ^ 53 * 10 ^ e.toNat := Nat.mul_le_mul (Nat.mul_le_mul_right _ hd) hpow
    exact (Nat.le_log2 (by omega)).mpr hle
  rw [← hvalue] at hnear
  exact roundWithAccuracy_eq (brackets_exact _) (.inl hbits) hm hnear

lemma round_quotient (hd : 0 < d) (hm : Canonical m q) (hnear : Near m q (d * 10 ^ e)) (he : e < 0) :
    div .binary64 (.finite .positive d 0 hd) (.finite .positive (10 ^ (-e).toNat) 0 (Nat.pow_pos (by decide))) =
      .finite .positive m q hm.pos := by
  have hpow : 0 < 10 ^ (-e).toNat := Nat.pow_pos (by decide)
  have hten : (10 : ℚ) ^ e = ((10 ^ (-e).toNat : Nat) : ℚ)⁻¹ := by
    push_cast
    rw [← zpow_natCast, Int.toNat_of_nonneg (by omega), zpow_neg, inv_inv]
  rw [hten] at hnear
  have htarget : Format.binary64.targetExponent (totalExponent d 0 - totalExponent (10 ^ (-e).toNat) 0) =
      max (d.log2 - (10 ^ (-e).toNat).log2 - 53 : Int) (-1074) := by
    have hbits : Format.binary64.mantissaBits = 53 := rfl
    have hmin : Format.binary64.minExponent = -1074 := rfl
    rw [Format.targetExponent, totalExponent, totalExponent, hbits, hmin]
    congr 1
    omega
  simp only [div, divCore, htarget, sub_zero]
  generalize 10 ^ (-e).toNat = p at *
  generalize hshift : min 0 (max (d.log2 - p.log2 - 53 : Int) (-1074)) = t
  have ht : t ≤ 0 := by omega
  rw [show (0 - t).toNat = (-t).toNat by rw [zero_sub]]
  have hvalue : ((d <<< (-t).toNat : Nat) : ℚ) / p * 2 ^ t = d * (p : ℚ)⁻¹ := by
    have hback : ((2 ^ (-t).toNat : Nat) : ℚ) * 2 ^ t = 1 := by
      push_cast
      rw [← zpow_natCast, Int.toNat_of_nonneg (by omega), ← zpow_add₀ two_ne_zero, neg_add_cancel, zpow_zero]
    rw [Nat.shiftLeft_eq, Nat.cast_mul, div_mul_eq_mul_div, mul_assoc, hback, mul_one, div_eq_mul_inv]
  have hbits : 52 ≤ (d <<< (-t).toNat / p).log2 ∨ t ≤ -1074 := by
    obtain hsmall | hlarge := le_or_gt t (-1074)
    · exact .inr hsmall
    -- The dividend was shifted far enough to leave a full mantissa.
    have hshift' : p.log2 + 1 + 52 ≤ d.log2 + (-t).toNat := by omega
    have hle : 2 ^ 52 ≤ d <<< (-t).toNat / p := by
      rw [Nat.le_div_iff_mul_le hpow, Nat.shiftLeft_eq]
      calc 2 ^ 52 * p ≤ 2 ^ 52 * 2 ^ (p.log2 + 1) := Nat.mul_le_mul_left _ Nat.lt_log2_self.le
        _ = 2 ^ (p.log2 + 1 + 52) := by rw [← pow_add, add_comm]
        _ ≤ 2 ^ (d.log2 + (-t).toNat) := Nat.pow_le_pow_right (by decide) hshift'
        _ = 2 ^ d.log2 * 2 ^ (-t).toNat := pow_add _ _ _
        _ ≤ d * 2 ^ (-t).toNat := Nat.mul_le_mul_right _ (Nat.log2_self_le hd.ne')
    exact .inl ((Nat.le_log2 (by omega)).mpr hle)
  rw [← hvalue] at hnear
  exact roundWithAccuracy_eq (brackets_quotient _ hpow) hbits hm hnear

lemma ofScientific_eq (hd : 0 < d) (hm : Canonical m q) (hnear : Near m q (d * 10 ^ e))
    (hlow : -(2 ^ 11 + (d.log2 : Int)) ≤ e) (hhigh : e ≤ 2 ^ 11) :
    ofScientific .binary64 d e = .finite .positive m q hm.pos := by
  rw [ofScientific, dif_neg hd.ne', if_neg (not_lt.mpr hhigh), if_neg (not_lt.mpr hlow)]
  split_ifs with he
  · exact round_product hd hm hnear he
  · exact round_quotient hd hm hnear (not_le.mp he)

end Scientific

end Float

end PlainScript
