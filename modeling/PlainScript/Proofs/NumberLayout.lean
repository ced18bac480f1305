import PlainScript.Proofs.Significant
import PlainScript.Print.Literal

/-! The layouts of a number. Wherever the point is placed and whatever the exponent is, a text denotes what its
digits stand for, so that no layout changes the number. -/
namespace PlainScript

namespace Decimal

lemma digitsToNat_append (s t : Text) : digitsToNat (s ++ t) = digitsToNat s * 10 ^ t.length + digitsToNat t := by
  induction t using List.reverseRecOn with
  | nil => simp [digitsToNat]
  | append_singleton t c ih =>
    simp only [digitsToNat, ← List.append_assoc, List.foldl_append, List.foldl_cons, List.foldl_nil,
      List.length_append, List.length_singleton] at ih ⊢
    rw [ih, pow_succ]
    ring

lemma digitsToNat_zeros (count : Nat) : digitsToNat (Text.replicate count '0') = 0 := by
  induction count with
  | zero => rfl
  | succ count ih =>
    rw [Text.replicate, List.replicate_succ', digitsToNat_append]
    simpa [Text.replicate] using ⟨ih, rfl⟩

lemma digitsToNat_ofNat (n : Nat) : digitsToNat (Text.ofNat n) = n := by
  have hstep (ds : List Char) (hds : ∀ c ∈ ds, c.isDigit = true) (start : Nat) :
      (ds.map Char.toUInt8).foldl (fun n c => n * 10 + (c.toNat - 48)) start = Nat.ofDigitChars 10 ds start := by
    induction ds generalizing start with
    | nil => simp
    | cons c ds ih =>
      have hc := (Byte.toNat_of_isDigit (hds c (by simp))).1
      rw [List.map_cons, List.foldl_cons, Nat.ofDigitChars_cons, hc, ih (fun d hd => hds d (by simp [hd])), mul_comm]
      rfl
  rw [digitsToNat, Text.ofNat, hstep _ fun c hc => Nat.isDigit_of_mem_toDigits (by decide) (by decide) hc]
  exact Nat.ofDigitChars_ten_toDigits

lemma digitsToNat_lt {t : Text} (h : ∀ c ∈ t, Byte.isDigit c = true) : digitsToNat t < 10 ^ t.length := by
  induction t using List.reverseRecOn with
  | nil => decide
  | append_singleton t c ih =>
    have hc : c.toNat ≤ 57 := by
      have hdigit := h c (by simp)
      rw [Byte.isDigit, Bool.and_eq_true, decide_eq_true_iff, decide_eq_true_iff, UInt8.le_iff_toNat_le] at hdigit
      exact hdigit.2
    have hone : digitsToNat [c] = c.toNat - 48 := by simp [digitsToNat]
    have := ih fun d hd => h d (by simp [hd])
    rw [digitsToNat_append, hone, List.length_append, List.length_singleton, pow_one, pow_succ]
    omega

/-- The first digit of a number is not zero. -/
lemma head_ofNat {n : Nat} (hn : 0 < n) : (Text.ofNat n).head? ≠ some '0'.toUInt8 := by
  intro hzero
  obtain ⟨rest, hrest⟩ := List.head?_eq_some_iff.mp hzero
  have hdigits := (digits_ofNat n).2
  rw [hrest] at hdigits
  have hlt := digitsToNat_lt (t := rest) fun c hc => hdigits c (by simp [hc])
  have hvalue : digitsToNat rest = n := by
    rw [← digitsToNat_ofNat n, hrest, ← List.singleton_append, digitsToNat_append]
    have : digitsToNat ['0'.toUInt8] = 0 := by decide
    rw [this, Nat.zero_mul, Nat.zero_add]
  have hcount : digitCount n = rest.length + 1 := by
    rw [digitCount, ← List.length_map Char.toUInt8]
    exact congrArg List.length hrest
  have hle := pow_digitCount_le hn
  rw [hcount, Nat.add_sub_cancel] at hle
  omega

/-- What a text denotes exactly, a minus sign in front included. -/
def valueOf (t : Text) : ℚ :=
  match t with
  | [] => 0
  | c :: rest => if c == '-'.toUInt8 then -(ofText rest).toRat else (ofText t).toRat

/-- A numeral without a sign, and its coefficient and power of ten. A zero in front is followed by no digit. -/
inductive Unsigned : Text → Decimal → Prop
  | mk {whole fraction exponent : Text} (hwhole : Digits whole)
    (hzero : whole.head? = some '0'.toUInt8 → whole.length = 1) (hfraction : Fraction fraction)
    (hexponent : Exponent exponent) :
    Unsigned (whole ++ (fraction ++ exponent))
      ⟨digitsToNat (whole ++ fraction.tail), readExponent exponent - fraction.tail.length⟩

lemma takeWhile_eq_left {p : UInt8 → Bool} {ds rest : Text} (hds : ∀ c ∈ ds, p c = true)
    (hrest : ∀ c ∈ rest.head?, p c = false) : (ds ++ rest).takeWhile p = ds := by
  rw [List.takeWhile_append_of_pos hds]
  obtain _ | ⟨c, rest⟩ := rest
  · simp
  · rw [List.takeWhile_cons_of_neg (by simp [hrest c rfl]), List.append_nil]

lemma head_exponent {e : Text} (he : Exponent e) : ∀ c ∈ e.head?, c = 'e'.toUInt8 := by
  cases he with
  | none => simp
  | some => simp

lemma head_fraction {f e : Text} (hf : Fraction f) (he : Exponent e) :
    ∀ c ∈ (f ++ e).head?, c = '.'.toUInt8 ∨ c = 'e'.toUInt8 := by
  cases hf with
  | none => exact fun c hc => .inr (head_exponent he c hc)
  | some => simp

/-- Digits end at the point and at the exponent. -/
lemma isDigit_head_fraction {f e : Text} (hf : Fraction f) (he : Exponent e) :
    ∀ c ∈ (f ++ e).head?, Byte.isDigit c = false := by
  intro c hc
  obtain rfl | rfl := head_fraction hf he c hc <;> decide

lemma ofText_eq {t : Text} {d : Decimal} (h : Unsigned t d) : ofText t = d := by
  cases h with
  | @mk whole fraction exponent hwhole _ hfraction hexponent =>
    simp only [ofText, takeWhile_eq_left hwhole.2 (isDigit_head_fraction hfraction hexponent), List.drop_left]
    cases hfraction with
    | none =>
      have hpoint : exponent.head? ≠ some '.'.toUInt8 := fun h => absurd (head_exponent hexponent _ h) (by decide)
      simp [hpoint]
    | @some ds h =>
      have htake := takeWhile_eq_left h.2 (isDigit_head_fraction .none hexponent)
      rw [List.nil_append] at htake
      simp [htake]

lemma Unsigned.head {t : Text} {d : Decimal} (h : Unsigned t d) : ∃ c rest, t = c :: rest ∧ Byte.isDigit c = true := by
  cases h with
  | @mk whole _ _ hwhole =>
    obtain ⟨c, rest, rfl⟩ := List.exists_cons_of_ne_nil hwhole.1
    exact ⟨c, _, rfl, hwhole.2 c (by simp)⟩

lemma Unsigned.numeral {t sign : Text} {d : Decimal} (h : Unsigned t d) (hsign : sign = [] ∨ sign = ['-'.toUInt8]) :
    Numeral (sign ++ t) := by
  cases h with
  | mk hwhole _ hfraction hexponent =>
    simpa using Numeral.mk hsign hwhole hfraction hexponent

lemma Unsigned.readFloat_eq {t : Text} {d : Decimal} (h : Unsigned t d) : readFloat t = d.toFloat := by
  have hvalue := ofText_eq h
  obtain ⟨c, rest, rfl, hc⟩ := h.head
  have hminus : (c == '-'.toUInt8) = false := beq_false_of_ne fun heq => absurd (heq ▸ hc) (by decide)
  simp [readFloat, hminus, hvalue]

lemma Unsigned.valueOf_eq {t : Text} {d : Decimal} (h : Unsigned t d) :
    valueOf t = d.toRat ∧ valueOf ('-'.toUInt8 :: t) = -d.toRat := by
  have hvalue := ofText_eq h
  obtain ⟨c, rest, rfl, hc⟩ := h.head
  have hminus : (c == '-'.toUInt8) = false := beq_false_of_ne fun heq => absurd (heq ▸ hc) (by decide)
  simp [valueOf, hminus, hvalue]

/-- An exponent of any sign, with some zeros in front or none. -/
lemma exponent_of_power {e : Int} {power : Text} (hpower : Digits power) (hvalue : digitsToNat power = e.natAbs) :
    Exponent ("e" ++ (Text.ofString (if e < 0 then "-" else "+") ++ power)) ∧
      readExponent ("e" ++ (Text.ofString (if e < 0 then "-" else "+") ++ power)) = e := by
  have hmark : ("e" : Text) = ['e'.toUInt8] := by decide
  have hminus : ("-" : Text) = ['-'.toUInt8] := by decide
  have hplus : ("+" : Text) = ['+'.toUInt8] := by decide
  have hsame : ('+'.toUInt8 == '-'.toUInt8) = false := by decide
  have htake : power.takeWhile Byte.isDigit = power := List.takeWhile_eq_self_iff.mpr hpower.2
  rw [hmark]
  split
  next hneg =>
    rw [hminus]
    refine ⟨.some (.inr rfl) hpower, ?_⟩
    simp [readExponent, htake, hvalue, abs_of_neg hneg]
  next hneg =>
    rw [hplus]
    refine ⟨.some (.inl rfl) hpower, ?_⟩
    simpa [readExponent, htake, hvalue, hsame] using not_lt.mp hneg

section Layouts

variable {ds : Text} (hds : Digits ds)
include hds

/-- One digit in front of the point, and an exponent. -/
lemma unsigned_exponent {e : Int} {power : Text} (hpower : Digits power) (hvalue : digitsToNat power = e.natAbs) :
    Unsigned (Rounded.withPoint (ds.take 1) (ds.drop 1) ++
      ("e" ++ (Text.ofString (if e < 0 then "-" else "+") ++ power))) ⟨digitsToNat ds, e + 1 - ds.length⟩ := by
  obtain ⟨hexponent, hread⟩ := exponent_of_power hpower hvalue
  generalize ("e" ++ (Text.ofString (if e < 0 then "-" else "+") ++ power) : Text) = last at *
  obtain ⟨c, rest, rfl⟩ := List.exists_cons_of_ne_nil hds.1
  have hc : Digits [c] := ⟨by simp, by simpa using hds.2 c (by simp)⟩
  have hrest : ∀ d ∈ rest, Byte.isDigit d = true := fun d hd => hds.2 d (by simp [hd])
  obtain _ | ⟨d, rest⟩ := rest
  · have h := Unsigned.mk hc (fun _ => rfl) .none hexponent
    rw [hread] at h
    simpa [Rounded.withPoint] using h
  · have h := Unsigned.mk hc (fun _ => rfl) (.some ⟨by simp, hrest⟩) hexponent
    have hpoint : ("." : Text) = ['.'.toUInt8] := by decide
    have hlength : e + 1 - (c :: d :: rest).length = e - ('.'.toUInt8 :: d :: rest).tail.length := by
      simp only [List.length_cons, List.tail_cons]
      omega
    rw [hread] at h
    rw [hlength]
    simpa [Rounded.withPoint, hpoint] using h

lemma unsigned_behind (count : Nat) :
    Unsigned ("0." ++ Text.replicate count '0' ++ ds) ⟨digitsToNat ds, -count - ds.length⟩ := by
  have hpoint : ("0." : Text) = ['0'.toUInt8, '.'.toUInt8] := by decide
  have hzeros : Digits (Text.replicate count '0' ++ ds) := Digits.append (fun _ => digit_of_mem_zeros) hds
  have hwhole : Digits ['0'.toUInt8] := digits_ofNat 0
  have h := Unsigned.mk hwhole (fun _ => rfl) (.some hzeros) .none
  have hvalue : digitsToNat (['0'.toUInt8] ++ (Text.replicate count '0' ++ ds)) = digitsToNat ds := by
    have hzero : digitsToNat ['0'.toUInt8] = 0 := by decide
    rw [digitsToNat_append, digitsToNat_append, digitsToNat_zeros, hzero]
    omega
  have hexponent : readExponent [] - (Text.replicate count '0' ++ ds).length = -(count : Int) - ds.length := by
    rw [readExponent, List.length_append, Text.replicate, List.length_replicate]
    omega
  rw [List.tail_cons, hvalue, hexponent] at h
  simpa [hpoint] using h

variable (hlead : ds.head? ≠ some '0'.toUInt8)
include hlead

lemma unsigned_padded (count : Nat) :
    Unsigned (ds ++ Text.replicate count '0') ⟨digitsToNat ds * 10 ^ count, 0⟩ := by
  have hwhole : Digits (ds ++ Text.replicate count '0') :=
    ⟨by simp [hds.1], fun c hc => (List.mem_append.mp hc).elim (hds.2 c) digit_of_mem_zeros⟩
  have hhead : (ds ++ Text.replicate count '0').head? = ds.head? := List.head?_append_of_ne_nil _ hds.1
  have h := Unsigned.mk hwhole (fun hzero => absurd (hhead.symm.trans hzero) hlead) .none .none
  have hvalue : digitsToNat (ds ++ Text.replicate count '0') = digitsToNat ds * 10 ^ count := by
    rw [digitsToNat_append, digitsToNat_zeros, Text.replicate, List.length_replicate, Nat.add_zero]
  simpa [readExponent, hvalue] using h

lemma unsigned_inside {whole : Nat} (hpos : 0 < whole) (hlt : whole < ds.length) :
    Unsigned (ds.take whole ++ "." ++ ds.drop whole) ⟨digitsToNat ds, whole - ds.length⟩ := by
  have hpoint : ("." : Text) = ['.'.toUInt8] := by decide
  have hwhole : Digits (ds.take whole) :=
    ⟨by simp [hds.1, hpos.ne'], fun c hc => hds.2 c (List.mem_of_mem_take hc)⟩
  have hfraction : Digits (ds.drop whole) := ⟨by simpa using hlt, fun c hc => hds.2 c (List.mem_of_mem_drop hc)⟩
  have hhead : (ds.take whole).head? = ds.head? := by rw [List.head?_take, if_neg hpos.ne']
  have h := Unsigned.mk hwhole (fun hzero => absurd (hhead.symm.trans hzero) hlead) (.some hfraction) .none
  have hexponent : readExponent [] - (ds.drop whole).length = (whole : Int) - ds.length := by
    rw [readExponent, List.length_drop]
    omega
  rw [List.tail_cons, List.take_append_drop, hexponent] at h
  simpa [hpoint] using h

/-- No layout changes the number. -/
lemma unsigned_layout (e : Int) : ∃ d, Unsigned (Print.ShortDigits.layout ⟨ds, e⟩) d ∧
    d.toRat = digitsToNat ds * 10 ^ (e + 1 - ds.length) := by
  simp only [Print.ShortDigits.layout, Bool.and_eq_true, decide_eq_true_eq]
  split
  next hpadded =>
    refine ⟨_, unsigned_padded hds hlead _, ?_⟩
    rw [toRat, zpow_zero, mul_one, Nat.cast_mul, Nat.cast_pow, ← zpow_natCast]
    congr 2
    omega
  next hpadded =>
    split
    next hinside =>
      have hwhole : ((e + 1).toNat : Int) = e + 1 := Int.toNat_of_nonneg hinside.1.le
      refine ⟨_, @unsigned_inside _ hds hlead (e + 1).toNat (by omega) (by omega), ?_⟩
      rw [toRat, hwhole]
    next hinside =>
      split
      next hbehind =>
        refine ⟨_, unsigned_behind hds _, ?_⟩
        have hzeros : -((-(e + 1)).toNat : Int) = e + 1 := by omega
        rw [toRat, hzeros]
      next hbehind =>
        refine ⟨⟨digitsToNat ds, e + 1 - ds.length⟩, ?_, rfl⟩
        simpa using unsigned_exponent hds (digits_ofNat e.natAbs) (digitsToNat_ofNat _)

end Layouts

end Decimal

namespace Rounded

/-- The magnitude of a number with one digit in front of the point, the others behind it, and at least two digits
of an exponent. -/
def scientific (places : Nat) (x : Float) : Text :=
  let s := significant places x
  let digits := Text.ofNat s.digits
  let power := Text.ofNat s.exponent.natAbs
  withPoint (digits.take 1) (digits.drop 1) ++ "e" ++ (if s.exponent < 0 then "-" else "+")
    ++ Text.replicate (2 - power.length) '0' ++ power

example : scientific 3 0.0001 = ("1.00e-04" : Text) := by decide +kernel

lemma dropTrailingZeros_append (ds : Text) : ∃ count, dropTrailingZeros ds ++ Text.replicate count '0' = ds := by
  have hzeros : ∀ c ∈ (ds.reverse.takeWhile (· == '0'.toUInt8)).reverse, c = '0'.toUInt8 := by
    intro c hc
    have hzero : (c == '0'.toUInt8) = true :=
      List.mem_takeWhile_imp (p := (· == '0'.toUInt8)) (List.mem_reverse.mp hc)
    exact eq_of_beq hzero
  refine ⟨(ds.reverse.takeWhile (· == '0'.toUInt8)).reverse.length, ?_⟩
  rw [Text.replicate, ← List.eq_replicate_of_mem hzeros, dropTrailingZeros, ← List.reverse_append,
    List.takeWhile_append_dropWhile, List.reverse_reverse]

section Digits

variable {x : Float} {places : Nat} (hplaces : 0 < places) (hx : (x == 0.0) = false)
include hplaces hx

lemma length_significant : (Text.ofNat (significant places x).digits).length = places := by
  obtain ⟨lead, h⟩ := significant_rounds hplaces hx
  have hpos := significant_pos hplaces hx
  have hcount : (Text.ofNat (significant places x).digits).length = Decimal.digitCount (significant places x).digits :=
    List.length_map _
  have hbelow := h.low.trans_lt (Decimal.lt_pow_digitCount _)
  have habove := (Decimal.pow_digitCount_le hpos).trans_lt h.high
  rw [Nat.pow_lt_pow_iff_right (by decide)] at hbelow habove
  have hone : 0 < Decimal.digitCount (significant places x).digits := Nat.length_toDigits_pos
  omega

lemma unsigned_scientific : Decimal.Unsigned (scientific places x) ((significant places x).toDecimal places) := by
  have hlength := length_significant hplaces hx
  rw [scientific]
  generalize significant places x = s at *
  have hpower : Digits (Text.replicate (2 - (Text.ofNat s.exponent.natAbs).length) '0' ++
      Text.ofNat s.exponent.natAbs) :=
    Digits.append (fun _ => digit_of_mem_zeros) (digits_ofNat _)
  have hvalue : Decimal.digitsToNat (Text.replicate (2 - (Text.ofNat s.exponent.natAbs).length) '0' ++
      Text.ofNat s.exponent.natAbs) = s.exponent.natAbs := by
    rw [Decimal.digitsToNat_append, Decimal.digitsToNat_zeros, Decimal.digitsToNat_ofNat, Nat.zero_mul, Nat.zero_add]
  have h := Decimal.unsigned_exponent (digits_ofNat s.digits) hpower hvalue
  have hexponent : s.exponent + 1 - places = s.exponent - ((places : Int) - 1) := by omega
  rw [Decimal.digitsToNat_ofNat, hlength, hexponent] at h
  rw [Significant.toDecimal]
  simpa using h

lemma unsigned_dropped : ∃ d, Decimal.Unsigned (Print.ShortDigits.layout
      ⟨dropTrailingZeros (Text.ofNat (significant places x).digits), (significant places x).exponent⟩) d ∧
    d.toRat = ((significant places x).toDecimal places).toRat := by
  have hlength := length_significant hplaces hx
  have hpos := significant_pos hplaces hx
  generalize significant places x = s at *
  obtain ⟨count, hcount⟩ := dropTrailingZeros_append (Text.ofNat s.digits)
  have hne := dropTrailingZeros_ofNat hpos
  have hds : Digits (dropTrailingZeros (Text.ofNat s.digits)) :=
    ⟨hne, fun c hc => (digits_ofNat s.digits).2 c (mem_of_mem_dropTrailingZeros hc)⟩
  have hlead : (dropTrailingZeros (Text.ofNat s.digits)).head? ≠ some '0'.toUInt8 := by
    have hhead := Decimal.head_ofNat hpos
    rwa [← hcount, List.head?_append_of_ne_nil _ hne] at hhead
  generalize dropTrailingZeros (Text.ofNat s.digits) = kept at *
  obtain ⟨d, hd, hvalue⟩ := Decimal.unsigned_layout hds hlead s.exponent
  refine ⟨d, hd, ?_⟩
  have hdigits : Decimal.digitsToNat kept * 10 ^ count = s.digits := by
    have h := congrArg Decimal.digitsToNat hcount
    rwa [Decimal.digitsToNat_append, Decimal.digitsToNat_zeros, Text.replicate, List.length_replicate, Nat.add_zero,
      Decimal.digitsToNat_ofNat] at h
  have hplaces' : kept.length + count = places := by
    rw [← hlength, ← congrArg List.length hcount, List.length_append, Text.replicate, List.length_replicate]
  have hexponent : s.exponent + 1 - (kept.length : Int) = count + (s.exponent - ((places : Int) - 1)) := by omega
  have hcoefficient : (Decimal.digitsToNat kept : ℚ) * 10 ^ count = s.digits := by exact_mod_cast hdigits
  rw [hvalue, hexponent, zpow_add₀ (by norm_num), zpow_natCast, ← mul_assoc, hcoefficient]
  rfl

end Digits

end Rounded

end PlainScript
