import PlainScript.Proofs.Numerals
import Mathlib.Algebra.Order.Field.Power
import Mathlib.Algebra.Order.Ring.Unbundled.Rat
import Mathlib.Data.Rat.Cast.Lemmas
import Mathlib.Tactic.FieldSimp
import Mathlib.Tactic.Linarith
import Mathlib.Tactic.Positivity
import Mathlib.Tactic.Ring

/-! Rounding to significant digits. The rounded number has just as many digits as were asked for, and it is not
farther from the number than half a unit of the last of them. -/
namespace PlainScript

/-- The number itself. -/
def Decimal.toRat (d : Decimal) : ℚ := d.coefficient * (10 : ℚ) ^ d.exponent

def Magnitude.toRat (m : Magnitude) : ℚ := m.significand * (2 : ℚ) ^ m.exponent

/-- A power is a fraction of two powers one of which is one. -/
lemma pow_div_pow_neg (b : ℚ) (e : Int) : b ^ e.toNat / b ^ (-e).toNat = b ^ e := by
  obtain he | he := le_total 0 e
  · rw [Int.toNat_of_nonpos (Int.neg_nonpos_of_nonneg he), pow_zero, div_one, ← zpow_natCast, Int.toNat_of_nonneg he]
  · rw [Int.toNat_of_nonpos he, pow_zero, one_div, ← zpow_natCast, Int.toNat_of_nonneg (Int.neg_nonneg_of_nonpos he),
      zpow_neg, inv_inv]

lemma Magnitude.toRat_eq (m : Magnitude) : m.toRat = m.numerator / m.denominator := by
  have hpow := pow_div_pow_neg 2 m.exponent
  rw [toRat, numerator, denominator, ← hpow, mul_div_assoc', Nat.pow_eq, Nat.pow_eq]
  push_cast
  rfl

namespace Rounded

lemma nearest_error (n : Nat) {d : Nat} (hd : 0 < d) : |(nearest n d : ℚ) - n / d| ≤ 1 / 2 := by
  have hpos : (0 : ℚ) < d := Nat.cast_pos.mpr hd
  have hmod := Nat.mod_lt n hd
  have hsplit : (n : ℚ) = d * (n / d : Nat) + (n % d : Nat) := by exact_mod_cast (Nat.div_add_mod n d).symm
  have hclose {q : Nat} (hlow : (n : ℚ) ≤ (q + 1 / 2) * d) (hhigh : (q - 1 / 2) * d ≤ (n : ℚ)) :
      |(q : ℚ) - n / d| ≤ 1 / 2 := by
    rw [abs_le]
    constructor
    · linarith [(div_le_iff₀ hpos).mpr hlow]
    · linarith [(le_div_iff₀ hpos).mpr hhigh]
  have hdown (h : 2 * (n % d) ≤ d) : |((n / d : Nat) : ℚ) - n / d| ≤ 1 / 2 := by
    have h' : (2 : ℚ) * (n % d : Nat) ≤ d := by exact_mod_cast h
    have hnonneg : (0 : ℚ) ≤ (n % d : Nat) := Nat.cast_nonneg _
    apply hclose
    · linarith
    · linarith
  have hup (h : d ≤ 2 * (n % d)) : |((n / d + 1 : Nat) : ℚ) - n / d| ≤ 1 / 2 := by
    have h' : (d : ℚ) ≤ 2 * (n % d : Nat) := by exact_mod_cast h
    have hlt : ((n % d : Nat) : ℚ) ≤ d := by exact_mod_cast hmod.le
    apply hclose
    · push_cast
      linarith
    · push_cast
      linarith
  rw [nearest]
  split_ifs with hlt hgt heven
  · exact hdown hlt.le
  · exact hup hgt.le
  · exact hdown (by omega)
  · exact hup (by omega)

/-- The leading exponent tells the power of ten below the number and the one above it. -/
lemma leadingExponent_spec {n d : Nat} (hn : 0 < n) (hd : 0 < d) :
    (10 : ℚ) ^ leadingExponent n d ≤ n / d ∧ (n : ℚ) / d < 10 ^ (leadingExponent n d + 1) := by
  have hpos : (0 : ℚ) < d := Nat.cast_pos.mpr hd
  have hten : (10 : ℚ) ≠ 0 := by norm_num
  constructor
  · have hle := leadingExponent_le (d := d) hn
    rw [← pow_div_pow_neg, div_le_div_iff₀ (by positivity) hpos]
    exact_mod_cast (mul_comm _ _).trans_le hle
  · rw [leadingExponent]
    set guess : Int := (Decimal.digitCount n : Int) - Decimal.digitCount d with hguess
    split
    next =>
      have hlow := Decimal.pow_digitCount_le hd
      have hcount : 0 < Decimal.digitCount d := Nat.length_toDigits_pos
      have hlow' : (10 : ℚ) ^ ((Decimal.digitCount d : Int) - 1) ≤ d := by
        rw [← Int.natCast_one, ← Int.ofNat_sub hcount, zpow_natCast]
        exact_mod_cast hlow
      have hhigh : (n : ℚ) < 10 ^ (Decimal.digitCount n : Int) := by
        rw [zpow_natCast]
        exact_mod_cast Decimal.lt_pow_digitCount n
      rw [div_lt_iff₀ hpos]
      calc (n : ℚ) < 10 ^ (Decimal.digitCount n : Int) := hhigh
        _ = 10 ^ (guess + 1) * 10 ^ ((Decimal.digitCount d : Int) - 1) := by
          rw [← zpow_add₀ hten]
          congr 1
          omega
        _ ≤ 10 ^ (guess + 1) * d := mul_le_mul_of_nonneg_left hlow' (by positivity)
    next hgt =>
      have hlt := not_le.mp hgt
      have hpow : (0 : ℚ) < 10 ^ (-guess).toNat := by positivity
      rw [sub_add_cancel, ← pow_div_pow_neg, div_lt_div_iff₀ hpos hpow]
      exact_mod_cast hlt.trans_eq (mul_comm _ _)

lemma div_scaled (n d : Nat) (shift : Int) :
    ((n * Nat.pow 10 shift.toNat : Nat) : ℚ) / (d * Nat.pow 10 (-shift).toNat : Nat) = n / d * 10 ^ shift := by
  rw [← pow_div_pow_neg, div_mul_div_comm, Nat.pow_eq, Nat.pow_eq]
  push_cast
  rfl

/-- What is between two powers of ten is rounded to something between them. -/
lemma nearest_bounds {n d places : Nat} (hd : 0 < d) (hlow : (10 : ℚ) ^ (places - 1) ≤ n / d)
    (hhigh : (n : ℚ) / d < 10 ^ places) : 10 ^ (places - 1) ≤ nearest n d ∧ nearest n d ≤ 10 ^ places := by
  obtain ⟨hbelow, habove⟩ := abs_le.mp (nearest_error n hd)
  constructor
  · have hlt : ((10 ^ (places - 1) : Nat) : ℚ) < (nearest n d : ℚ) + 1 := by
      push_cast
      linarith
    exact Nat.lt_succ_iff.mp (by exact_mod_cast hlt)
  · have hlt : (nearest n d : ℚ) < ((10 ^ places : Nat) : ℚ) + 1 := by
      push_cast
      linarith
    exact Nat.lt_succ_iff.mp (by exact_mod_cast hlt)

/-- What the digits stand for, and what they come from. -/
structure Significant.Rounds (s : Significant) (places : Nat) (v : ℚ) (lead : Int) : Prop where
  low : 10 ^ (places - 1) ≤ s.digits
  high : s.digits < 10 ^ places
  lead_le : (10 : ℚ) ^ lead ≤ v
  lt_lead : v < 10 ^ (lead + 1)
  exponent : s.exponent = lead ∨ s.exponent = lead + 1
  error : |(s.toDecimal places).toRat - v| ≤ 1 / 2 * 10 ^ (lead - ((places : Int) - 1))

/-- A tenth of the digits with an exponent that is one more stand for the same number. -/
lemma Significant.toRat_tenth {digits places : Nat} (lead : Int) (hplaces : 0 < places) (h : digits = 10 ^ places) :
    (Significant.toDecimal ⟨digits / 10, lead + 1⟩ places).toRat = digits * 10 ^ (lead - ((places : Int) - 1)) := by
  have hten : (10 : ℚ) ≠ 0 := by norm_num
  have htenth : digits / 10 = 10 ^ (places - 1) := by
    rw [h, ← Nat.pow_div hplaces (by decide), pow_one]
  rw [toDecimal, Decimal.toRat, htenth, h]
  push_cast
  rw [← zpow_natCast, ← zpow_natCast, ← zpow_add₀ hten, ← zpow_add₀ hten]
  congr 1
  omega

lemma unscaled_error {digits v : ℚ} {shift unit : Int} (h : |digits - v * 10 ^ shift| ≤ 1 / 2) (hunit : -shift = unit) :
    |digits * 10 ^ unit - v| ≤ 1 / 2 * 10 ^ unit := by
  subst hunit
  have hpos : (0 : ℚ) < 10 ^ (-shift) := zpow_pos (by norm_num) _
  have hsplit : digits * 10 ^ (-shift) - v = (digits - v * 10 ^ shift) * 10 ^ (-shift) := by
    rw [sub_mul, mul_assoc, ← zpow_add₀ (by norm_num), add_neg_cancel, zpow_zero, mul_one]
  rw [hsplit, abs_mul, abs_of_pos hpos]
  exact mul_le_mul_of_nonneg_right h hpos.le

theorem significant_rounds {places : Nat} (hplaces : 0 < places) {x : Float} (hx : (x == 0.0) = false) :
    ∃ lead, (significant places x).Rounds places (Magnitude.ofFloat x).toRat lead := by
  have hn := Magnitude.numerator_pos hx
  have hd := Magnitude.denominator_pos (Magnitude.ofFloat x)
  obtain ⟨hlow, hhigh⟩ := leadingExponent_spec hn hd
  rw [Magnitude.toRat_eq]
  simp only [significant]
  generalize (Magnitude.ofFloat x).numerator = n at *
  generalize (Magnitude.ofFloat x).denominator = d at *
  generalize leadingExponent n d = lead at *
  set shift : Int := (places : Int) - 1 - lead with hshift
  have hten : (10 : ℚ) ≠ 0 := by norm_num
  have hscale : (0 : ℚ) < 10 ^ shift := zpow_pos (by norm_num) shift
  have hd' : 0 < d * Nat.pow 10 (-shift).toNat := Nat.mul_pos hd (Nat.pow_pos (by decide))
  have hvalue := div_scaled n d shift
  have hfirst : (10 : ℚ) ^ (places - 1) = 10 ^ lead * 10 ^ shift := by
    rw [← zpow_add₀ hten, ← zpow_natCast]
    congr 1
    omega
  have hlast : (10 : ℚ) ^ places = 10 ^ (lead + 1) * 10 ^ shift := by
    rw [← zpow_add₀ hten, ← zpow_natCast]
    congr 1
    omega
  have hbounds := @nearest_bounds _ _ places hd'
    (by rw [hvalue, hfirst]; exact mul_le_mul_of_nonneg_right hlow hscale.le)
    (by rw [hvalue, hlast]; exact mul_lt_mul_of_pos_right hhigh hscale)
  have herror := nearest_error (n * Nat.pow 10 shift.toNat) hd'
  rw [hvalue] at herror
  generalize nearest (n * Nat.pow 10 shift.toNat) (d * Nat.pow 10 (-shift).toNat) = digits at *
  have hunit := unscaled_error herror (show -shift = lead - ((places : Int) - 1) by omega)
  refine ⟨lead, ?_⟩
  split
  next htop =>
    rw [Nat.pow_eq] at htop
    have htenth : digits / 10 = 10 ^ (places - 1) := by
      rw [htop, ← Nat.pow_div hplaces (by decide), pow_one]
    refine ⟨htenth.ge, ?_, hlow, hhigh, .inr rfl, ?_⟩
    · rw [htenth]
      exact Nat.pow_lt_pow_right (by decide) (Nat.sub_lt hplaces Nat.one_pos)
    · rw [Significant.toRat_tenth lead hplaces htop]
      exact hunit
  next htop =>
    exact ⟨hbounds.1, lt_of_le_of_ne hbounds.2 htop, hlow, hhigh, .inl rfl, hunit⟩

end Rounded

end PlainScript
