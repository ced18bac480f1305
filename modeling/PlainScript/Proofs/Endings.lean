import PlainScript.Proofs.Escapes

/-! Where literals end. A number, a string, a template and a regular expression are read the same in front of any text
that does not carry them on, so none of them looks further than one byte behind its end. -/
namespace PlainScript.Scan

/-- Behind a token the text goes on as before, or with a byte that ends the token. -/
def GoesOn (ends : UInt8 → Prop) (rest after : Text) : Prop := ∀ c ∈ after.head?, ends c ∨ rest.head? = some c

variable {ends : UInt8 → Prop} {p : UInt8 → Bool} {t rest after : Text} {n : Nat} {kind : TokenKind}

namespace GoesOn

variable (h : GoesOn ends rest after) (hp : ∀ c, p c = true → ¬ ends c)
include h hp

/-- A run that does not reach beyond a text ends there in both cases. -/
lemma takeWhile_eq (hle : ((t ++ rest).takeWhile p).length ≤ t.length) :
    (t ++ after).takeWhile p = (t ++ rest).takeWhile p := by
  induction t with
  | nil =>
    have hrest : rest.takeWhile p = [] := List.eq_nil_of_length_eq_zero (Nat.le_zero.mp hle)
    rw [List.nil_append, List.nil_append, hrest]
    cases after with
    | nil => rfl
    | cons c after =>
      apply List.takeWhile_cons_of_neg
      intro hc
      obtain hend | hhead := h c rfl
      · exact hp c hc hend
      · obtain ⟨more, rfl⟩ := List.head?_eq_some_iff.mp hhead
        rw [List.takeWhile_cons_of_pos hc] at hrest
        cases hrest
  | cons c t ih =>
    rw [List.cons_append, List.cons_append] at *
    by_cases hc : p c = true
    · rw [List.takeWhile_cons_of_pos hc] at hle
      rw [List.takeWhile_cons_of_pos hc, List.takeWhile_cons_of_pos hc, ih (Nat.le_of_succ_le_succ hle)]
    · rw [List.takeWhile_cons_of_neg hc, List.takeWhile_cons_of_neg hc]

lemma beginsWith_eq_false (hfalse : beginsWith (t ++ rest) p = false) : beginsWith (t ++ after) p = false := by
  cases t with
  | nil =>
    cases after with
    | nil => rfl
    | cons c after =>
      obtain hend | hhead := h c rfl
      · simpa [beginsWith] using fun hc => hp c hc hend
      · simpa [beginsWith, hhead] using hfalse
  | cons c t => exact hfalse

end GoesOn

lemma beginsWith_append (hne : t ≠ []) (s : Text) : beginsWith (t ++ s) p = beginsWith t p := by
  cases t with
  | nil => exact absurd rfl hne
  | cons c t => rfl

lemma length_takeWhile_le {q : UInt8 → Bool} {s : Text} (h : ∀ c ∈ s.takeWhile p, q c = true) :
    (s.takeWhile p).length ≤ (s.takeWhile q).length := by
  have hsplit : s.takeWhile q = s.takeWhile p ++ (s.dropWhile p).takeWhile q := by
    rw [← List.takeWhile_append_of_pos h, List.takeWhile_append_dropWhile]
  rw [hsplit, List.length_append]
  omega

/-! ### Numbers -/

/-- What cannot stand in a number. -/
def EndsNumber (c : UInt8) : Prop := isNamePart c = false ∧ c ≠ '.'.toUInt8

lemma not_endsNumber : ∀ c, c = '.'.toUInt8 ∨ isNamePart c = true → ¬ EndsNumber c := by
  rintro c (rfl | hc) ⟨hpart, hpoint⟩
  · exact hpoint rfl
  · exact absurd hc (by simp [hpart])

lemma not_endsNumber_digit : ∀ c, Byte.isDigit c = true → ¬ EndsNumber c := by
  intro c hc
  apply not_endsNumber
  simp [isNamePart, hc]

lemma not_endsNumber_letter {lower upper : Char}
    (hpart : isNamePart lower.toUInt8 = true ∧ isNamePart upper.toUInt8 = true) :
    ∀ c, (c == lower.toUInt8 || c == upper.toUInt8) = true → ¬ EndsNumber c := by
  intro c hc
  apply not_endsNumber
  obtain hc | hc := Bool.or_eq_true_iff.mp hc
  · exact .inr (eq_of_beq hc ▸ hpart.1)
  · exact .inr (eq_of_beq hc ▸ hpart.2)

lemma isNamePart_of_digitBelow : ∀ c, (c == underscore || digitBelow 16 c) = true → isNamePart c = true :=
  Byte.forall_of_lt (by decide +kernel)

lemma basedDigits_size {base lead : Nat} {s : Text} {v : Float} (h : basedDigits base lead s = .ok (v, n)) :
    lead < n ∧ lead + ((s.drop lead).takeWhile fun c => c == underscore || digitBelow base c).length = n := by
  rw [basedDigits] at h
  split at h
  · cases h
  next hdigits =>
    obtain ⟨-, rfl⟩ := Prod.mk.inj (Except.ok.inj h)
    refine ⟨?_, rfl⟩
    apply Nat.lt_add_of_pos_right
    apply List.length_pos_iff.mpr
    intro hnil
    rw [hnil] at hdigits
    exact hdigits rfl

lemma digitRun_le {s : Text} {v : Float} (h : decimal s = .ok (v, n)) : (digitRun s).length ≤ n := by
  rw [decimal] at h
  split at h
  · cases h
  · obtain ⟨-, rfl⟩ := Prod.mk.inj (Except.ok.inj h)
    omega

/-- A zero and behind it the letter of a base. -/
def zeroAnd (lower upper : Char) (s : Text) : Bool :=
  beginsWith s (· == '0'.toUInt8) && beginsWith s.tail fun c => c == lower.toUInt8 || c == upper.toUInt8

lemma numberValue_eq (s : Text) : numberValue s =
    if zeroAnd 'x' 'X' s then basedDigits 16 2 s
    else if zeroAnd 'o' 'O' s then basedDigits 8 2 s
    else if zeroAnd 'b' 'B' s then basedDigits 2 2 s
    else if isBareOctal s then basedDigits 8 1 s
    else decimal s := rfl

section Numbers

variable (h : GoesOn EndsNumber rest after) {v : Float}
include h

lemma basedDigits_append {base lead : Nat} (hbase : base ≤ 16) (hread : basedDigits base lead (t ++ rest) = .ok (v, n))
    (hn : n ≤ t.length) : basedDigits base lead (t ++ after) = .ok (v, n) := by
  have hpart : ∀ c, (c == underscore || digitBelow base c) = true → ¬ EndsNumber c := by
    intro c hc
    apply not_endsNumber
    apply Or.inr
    apply isNamePart_of_digitBelow
    simp only [digitBelow, Bool.or_eq_true, Option.any_eq_true, decide_eq_true_eq] at hc ⊢
    exact hc.imp_right fun ⟨d, hd, hlt⟩ => ⟨d, hd, Nat.lt_of_lt_of_le hlt hbase⟩
  obtain ⟨hlead, hsize⟩ := basedDigits_size hread
  have hrun : ((t ++ after).drop lead).takeWhile (fun c => c == underscore || digitBelow base c) =
      ((t ++ rest).drop lead).takeWhile fun c => c == underscore || digitBelow base c := by
    rw [List.drop_append_of_le_length (by omega)] at hsize ⊢
    rw [List.drop_append_of_le_length (by omega)]
    apply h.takeWhile_eq hpart
    rw [List.length_drop]
    omega
  rw [basedDigits] at hread ⊢
  rw [hrun]
  exact hread

lemma exponentLength_append (hread : exponentLength (t ++ rest) = .ok n) (hn : n ≤ t.length) :
    exponentLength (t ++ after) = .ok n := by
  rw [exponentLength] at hread ⊢
  dsimp only at hread ⊢
  generalize hlead : (if beginsWith (t ++ rest).tail (fun c => c == '+'.toUInt8 || c == '-'.toUInt8) then 2 else 1) =
    lead at hread
  split at hread
  next he =>
    split at hread
    · cases hread
    next hdigits =>
      -- A letter and a digit at least: both of them stand in the part that is kept.
      have hsize := Except.ok.inj hread
      have hpos := List.length_pos_iff.mpr (mt List.isEmpty_iff.mpr hdigits)
      have hone : 1 ≤ lead := by rw [← hlead]; split <;> omega
      have htwo : 2 ≤ t.length := by omega
      obtain ⟨c, t, rfl⟩ := List.exists_cons_of_length_pos (Nat.lt_of_lt_of_le Nat.two_pos htwo)
      obtain ⟨d, t, rfl⟩ := List.exists_cons_of_length_pos (Nat.lt_of_succ_lt_succ htwo)
      have hle : lead ≤ (c :: d :: t).length := by omega
      have hrun : ((c :: d :: t ++ after).drop lead).takeWhile Byte.isDigit =
          ((c :: d :: t ++ rest).drop lead).takeWhile Byte.isDigit := by
        rw [List.drop_append_of_le_length hle] at hsize ⊢
        rw [List.drop_append_of_le_length hle]
        apply h.takeWhile_eq not_endsNumber_digit
        rw [List.length_drop]
        omega
      rw [show (if beginsWith (c :: d :: t ++ after).tail _ then 2 else 1) = lead from hlead, hrun, if_neg hdigits, hsize]
      exact if_pos he
  next he =>
    obtain rfl := Except.ok.inj hread
    rw [if_neg]
    rw [Bool.not_eq_true] at he ⊢
    exact h.beginsWith_eq_false (not_endsNumber_letter (by decide)) he

lemma digitRun_append (hle : (digitRun (t ++ rest)).length ≤ t.length) : digitRun (t ++ after) = digitRun (t ++ rest) := by
  apply h.takeWhile_eq _ hle
  intro c hc
  apply not_endsNumber
  apply Or.inr
  revert c
  exact Byte.forall_of_lt (by decide +kernel)

lemma decimal_append (hread : decimal (t ++ rest) = .ok (v, n)) (hn : n ≤ t.length) :
    decimal (t ++ after) = .ok (v, n) := by
  have hpoint : ∀ c, (c == '.'.toUInt8) = true → ¬ EndsNumber c := fun c hc => not_endsNumber c (.inl (eq_of_beq hc))
  rw [decimal] at hread ⊢
  generalize hwhole : (digitRun (t ++ rest)).length = whole at hread
  generalize hfraction : (if beginsWith ((t ++ rest).drop whole) (· == '.'.toUInt8) then
    1 + (digitRun ((t ++ rest).drop (whole + 1))).length else 0) = fraction at hread
  dsimp only at hread
  split at hread
  · cases hread
  next k hk =>
    obtain ⟨hvalue, hsize⟩ := Prod.mk.inj (Except.ok.inj hread)
    have hwhole' : (digitRun (t ++ after)).length = whole := by
      rw [digitRun_append h (by omega), hwhole]
    have hfraction' : (if beginsWith ((t ++ after).drop whole) (· == '.'.toUInt8) then
        1 + (digitRun ((t ++ after).drop (whole + 1))).length else 0) = fraction := by
      rw [List.drop_append_of_le_length (by omega)] at hfraction ⊢
      split at hfraction
      next hdot =>
        have hlt : whole < t.length := by omega
        have hne : t.drop whole ≠ [] := by simpa using hlt
        rw [beginsWith_append hne] at hdot ⊢
        rw [List.drop_append_of_le_length hlt] at hfraction ⊢
        rw [if_pos hdot, digitRun_append h (by rw [List.length_drop]; omega)]
        exact hfraction
      next hdot =>
        rw [Bool.not_eq_true] at hdot
        rw [h.beginsWith_eq_false hpoint hdot]
        exact hfraction
    have hk' : exponentLength ((t ++ after).drop (whole + fraction)) = .ok k := by
      rw [List.drop_append_of_le_length (by omega)] at hk ⊢
      exact exponentLength_append h hk (by rw [List.length_drop]; omega)
    have htake : (t ++ after).take n = (t ++ rest).take n := by
      rw [List.take_append_of_le_length hn, List.take_append_of_le_length hn]
    simp only [hwhole', hfraction', hk', hsize, htake]
    rw [← hvalue, hsize]

/-- Whether a number is a bare octal one is told by its digits alone. -/
lemma isBareOctal_append (hne : t ≠ [])
    (hdigits : beginsWith t (· == '0'.toUInt8) = true → ((t ++ rest).tail.takeWhile Byte.isDigit).length < t.length) :
    isBareOctal (t ++ after) = isBareOctal (t ++ rest) := by
  obtain ⟨c, t, rfl⟩ := List.exists_cons_of_ne_nil hne
  simp only [isBareOctal, beginsWith_append hne]
  cases hzero : beginsWith (c :: t) (· == '0'.toUInt8) with
  | false => rfl
  | true =>
    have hrun : (t ++ after).takeWhile Byte.isDigit = (t ++ rest).takeWhile Byte.isDigit := by
      exact h.takeWhile_eq not_endsNumber_digit (Nat.le_of_lt_succ (hdigits hzero))
    simp only [List.cons_append, List.tail_cons, hrun]

/-- The letter of a base belongs to the number. -/
lemma zeroAnd_append {lower upper : Char} (hpart : isNamePart lower.toUInt8 = true ∧ isNamePart upper.toUInt8 = true)
    (hne : t ≠ []) (hlong : zeroAnd lower upper (t ++ rest) = true → 1 < t.length) :
    zeroAnd lower upper (t ++ after) = zeroAnd lower upper (t ++ rest) := by
  match t with
  | [] => exact absurd rfl hne
  | c :: d :: t => rfl
  | [c] =>
    cases hc : c == '0'.toUInt8 with
    | false => simp [zeroAnd, beginsWith, hc]
    | true =>
      have hletter := not_endsNumber_letter hpart
      have hfalse : zeroAnd lower upper ([c] ++ rest) = false := by
        rw [← Bool.not_eq_true]
        exact fun htrue => absurd (hlong htrue) (by simp)
      have hrest : beginsWith ([] ++ rest) (fun d => d == lower.toUInt8 || d == upper.toUInt8) = false := by
        simpa [zeroAnd, beginsWith, hc] using hfalse
      rw [hfalse]
      simpa [zeroAnd] using fun _ => h.beginsWith_eq_false hletter hrest

omit h in
/-- Digits behind a zero are a part of the number. -/
lemma length_digits_lt (hread : (if isBareOctal (t ++ rest) then basedDigits 8 1 (t ++ rest) else decimal (t ++ rest)) =
    .ok (v, n)) (hn : n ≤ t.length) (hne : t ≠ []) (hzero : beginsWith t (· == '0'.toUInt8) = true) :
    ((t ++ rest).tail.takeWhile Byte.isDigit).length < t.length := by
  split at hread
  next hoctal =>
    obtain ⟨-, hsize⟩ := basedDigits_size hread
    rw [List.drop_one] at hsize
    have hall : ∀ c ∈ (t ++ rest).tail.takeWhile Byte.isDigit, (c == underscore || digitBelow 8 c) = true := by
      intro c hc
      have hoctal := List.all_eq_true.mp (Bool.and_eq_true_iff.mp hoctal).2 c hc
      have hall : ∀ c, Byte.isOctal c = true → (c == underscore || digitBelow 8 c) = true :=
        Byte.forall_of_lt (by decide +kernel)
      exact hall c hoctal
    have hle := length_takeWhile_le hall
    omega
  next =>
    have hle := digitRun_le hread
    obtain ⟨c, t, rfl⟩ := List.exists_cons_of_ne_nil hne
    have hall : ∀ d ∈ (t ++ rest).takeWhile Byte.isDigit, (Byte.isDigit d || d == underscore) = true := by
      intro d hd
      simp [List.mem_takeWhile_imp hd]
    have hrun := length_takeWhile_le hall
    have hc : (Byte.isDigit c || c == underscore) = true := by
      rw [eq_of_beq (show (c == '0'.toUInt8) = true from hzero)]
      decide
    have hdigits : (digitRun (c :: t ++ rest)).length = (digitRun (t ++ rest)).length + 1 := by
      rw [List.cons_append, digitRun, List.takeWhile_cons_of_pos (p := fun c => Byte.isDigit c || c == underscore) hc]
      rfl
    have hle : ((t ++ rest).takeWhile Byte.isDigit).length ≤ (digitRun (t ++ rest)).length := hrun
    rw [List.cons_append, List.tail_cons]
    omega

/-- Where a base may be named, it is named in front of both texts or of none. -/
lemma based_append {lower upper : Char} {base : Nat} {other other' : Scan Float} (hbase : base ≤ 16)
    (hpart : isNamePart lower.toUInt8 = true ∧ isNamePart upper.toUInt8 = true) (hne : t ≠ []) (hn : n ≤ t.length)
    (hread : (if zeroAnd lower upper (t ++ rest) then basedDigits base 2 (t ++ rest) else other) = .ok (v, n))
    (hother : other = .ok (v, n) → other' = .ok (v, n)) :
    (if zeroAnd lower upper (t ++ after) then basedDigits base 2 (t ++ after) else other') = .ok (v, n) := by
  split at hread
  next hnamed =>
    have hlong := (basedDigits_size hread).1
    rw [zeroAnd_append h hpart hne fun _ => by omega, if_pos hnamed]
    exact basedDigits_append h hbase hread hn
  next hnamed =>
    rw [zeroAnd_append h hpart hne fun htrue => absurd htrue hnamed, if_neg hnamed]
    exact hother hread

lemma numberValue_append (hne : t ≠ []) (hread : numberValue (t ++ rest) = .ok (v, n)) (hn : n ≤ t.length) :
    numberValue (t ++ after) = .ok (v, n) := by
  rw [numberValue_eq] at hread ⊢
  apply based_append h (by decide) (by decide) hne hn hread
  intro hread
  apply based_append h (by decide) (by decide) hne hn hread
  intro hread
  apply based_append h (by decide) (by decide) hne hn hread
  intro hread
  rw [isBareOctal_append h hne (length_digits_lt hread hn hne)]
  split at hread
  next hoctal =>
    rw [if_pos hoctal]
    exact basedDigits_append h (by decide) hread hn
  next hoctal =>
    rw [if_neg hoctal]
    exact decimal_append h hread hn

/-- A number is read as far in front of any text that it does not run into. -/
lemma number_append (hne : t ≠ []) (hread : number (t ++ rest) = .ok (kind, t.length)) :
    number (t ++ after) = .ok (kind, t.length) := by
  have hsuffix : ∀ c, (c == 'n'.toUInt8) = true → ¬ EndsNumber c := by
    intro c hc
    rw [eq_of_beq hc]
    exact not_endsNumber _ (.inr (by decide))
  have hname : ∀ c, isNameStart c = true → ¬ EndsNumber c := fun c hc => not_endsNumber c (.inr (isNamePart_of_start hc))
  rw [number] at hread ⊢
  split at hread
  · cases hread
  next v size hvalue =>
    dsimp only at hread
    generalize hbig : beginsWith ((t ++ rest).drop size) (· == 'n'.toUInt8) = isBigInt at hread
    generalize htotal : (if isBigInt then size + 1 else size) = total at hread
    split at hread
    · cases hread
    next hstart =>
      obtain ⟨rfl, rfl⟩ := Prod.mk.inj (Except.ok.inj hread)
      have hsize : size ≤ t.length := by rw [← htotal]; split <;> omega
      have hbig' : beginsWith ((t ++ after).drop size) (· == 'n'.toUInt8) = isBigInt := by
        rw [List.drop_append_of_le_length hsize] at hbig ⊢
        cases isBigInt with
        | false => exact h.beginsWith_eq_false hsuffix hbig
        | true =>
          have hrest : t.drop size ≠ [] := by
            have htotal : size + 1 = t.length := htotal
            rw [Ne, List.drop_eq_nil_iff]
            omega
          rwa [beginsWith_append hrest] at hbig ⊢
      have hstart' : beginsWith ((t ++ after).drop t.length) isNameStart = false := by
        rw [Bool.not_eq_true, List.drop_left] at hstart
        rw [List.drop_left]
        exact h.beginsWith_eq_false (t := []) hname hstart
      simp only [numberValue_append h hne hvalue hsize, hbig', htotal, hstart', Bool.false_eq_true, if_false]

end Numbers


/-! ### Strings and templates -/

variable {e quote : UInt8} {s taken value v digits : Text}

/-- An escape is the same in front of another text that begins with the same character and with no half of a pair. -/
lemma Escapes.append (h : Escapes e taken rest value) (hhead : after.head? = rest.head?)
    (hlow : lowSurrogate? rest = none → lowSurrogate? after = none) : Escapes e taken after value := by
  cases h with
  | letter h => exact .letter h
  | lineFeed => exact .lineFeed
  | carriageReturn h => exact .carriageReturn (hhead ▸ h)
  | returnLineFeed => exact .returnLineFeed
  | byte hhex hlength => exact .byte hhex hlength
  | octal he h =>
    apply Escapes.octal he
    rw [octalEscape_iff_head] at h ⊢
    rwa [hhead]
  | other hletter hoctal hmark => exact .other hletter hoctal hmark
  | codePoint h =>
    apply Escapes.codePoint
    cases h with
    | braced hhex hlength hle => exact .braced hhex hlength hle
    | single hhex hlength hlone => exact .single hhex hlength fun hhigh => hlow (hlone hhigh)
    | pair hhex hlength hhigh hlow => exact .pair hhex hlength hhigh hlow

/-- An escape of four digits stands in the string from its backslash to its last digit. -/
lemma six_le_of_quotedBody (hquote : ('\\'.toUInt8 == quote) = false) (hhex : digits.IsHex) (hlength : digits.length = 4)
    (h : quotedBody quote ('\\'.toUInt8 :: 'u'.toUInt8 :: (digits ++ s)) = .ok (v, n)) : 6 ≤ n := by
  rw [quotedBody, if_neg (by decide), if_neg (by simp [hquote]), if_pos (by decide)] at h
  split at h
  · cases h
  next value m hescape =>
    split at h
    · cases h
    next hshift =>
      obtain ⟨k, -, rfl⟩ := shift_eq_ok hshift
      obtain ⟨-, rfl⟩ := Prod.mk.inj (Except.ok.inj h)
      obtain ⟨taken, after, hsplit, rfl, hescapes⟩ := escape_eq_ok hescape
      obtain ⟨c, digits, rfl⟩ := List.exists_cons_of_length_eq_add_one hlength
      cases hescapes with
      | letter hletter =>
        have hnone : letterEscape? 'u'.toUInt8 = none := by decide
        cases hnone.symm.trans hletter
      | other _ _ hmark => exact absurd hmark (by decide)
      | octal he => exact absurd he (by decide)
      | codePoint hpoint =>
        cases hpoint with
        | braced =>
          obtain ⟨rfl, -⟩ := List.cons.inj hsplit
          exact absurd (hhex _ (List.mem_cons_self ..)) (by decide)
        | single _ hfour => omega
        | pair _ hfour =>
          rw [List.length_append]
          omega

/-- What is shorter than a part of a text, and begins the text as well, begins the part. -/
lemma exists_append_of_le {t rest s more : Text} (h : t ++ rest = s ++ more) (hle : s.length ≤ t.length) :
    ∃ u, t = s ++ u ∧ more = u ++ rest := by
  obtain ⟨u, rfl⟩ := List.prefix_of_prefix_length_le (h ▸ List.prefix_append s more) (List.prefix_append t rest) hle
  rw [List.append_assoc] at h
  exact ⟨u, rfl, (List.append_cancel_left h).symm⟩

/-- Strings end with their quote, whatever stands behind it. -/
lemma quotedBody_append (hquote : ('\\'.toUInt8 == quote) = false) (h : quotedBody quote (t ++ rest) = .ok (v, t.length))
    (after : Text) : quotedBody quote (t ++ after) = .ok (v, t.length) := by
  generalize hs : t ++ rest = s at h
  fun_induction quotedBody quote s generalizing t v with
  | case1 | case2 | case4 | case5 | case6 | case8 => cases h
  | case3 c s hfeed hclose =>
    obtain ⟨rfl, hlength⟩ := Prod.mk.inj (Except.ok.inj h)
    obtain ⟨u, rfl, -⟩ := exists_append_of_le (s := [c]) hs (Nat.le_of_eq hlength)
    obtain rfl : u = [] := by simpa using hlength
    rw [List.append_nil, List.singleton_append, quotedBody.eq_def]
    simp only [if_neg hfeed, if_pos hclose, List.length_singleton]
  | case7 c hfeed hclose hback e s value m hescape tail size hshift ih =>
    obtain ⟨k, hbody, rfl⟩ := shift_eq_ok hshift
    obtain ⟨rfl, hlength⟩ := Prod.mk.inj (Except.ok.inj h)
    obtain ⟨taken, more, rfl, rfl, he⟩ := escape_eq_ok hescape
    obtain ⟨u, rfl, rfl⟩ := exists_append_of_le (s := c :: e :: taken) hs (by simp only [List.length_cons]; omega)
    obtain rfl : k = u.length := by
      simp only [List.length_append, List.length_cons] at hlength
      omega
    rw [Nat.add_sub_cancel, List.drop_left] at hbody ih
    have hread := ih rfl hbody
    have hpos := (quotedBody_gives hread).1
    have he' : Escapes e taken (u ++ after) value := by
      obtain ⟨d, w, rfl⟩ := List.exists_cons_of_length_pos hpos
      refine he.append rfl fun hnone => ?_
      rw [Option.eq_none_iff_forall_ne_some]
      intro low hlow
      obtain ⟨digits, behind, hu, hfour, hhex, rfl, hislow⟩ := lowSurrogate?_eq_some hlow
      -- The second half of a pair would belong to the string, and so be there in both cases.
      rw [hu] at hread
      have hsix := six_le_of_quotedBody hquote hhex hfour hread
      obtain ⟨w, hw, -⟩ := exists_append_of_le (s := '\\'.toUInt8 :: 'u'.toUInt8 :: digits) hu (by simpa [hfour] using hsix)
      rw [hw, List.append_assoc] at hnone
      cases hnone.symm.trans (lowSurrogate?_append hhex hfour hislow (w ++ rest))
    rw [eq_of_beq hback, List.cons_append, List.cons_append, List.cons_append, List.cons_append, List.append_assoc,
      quotedBody_escape taken hquote he'.escape_eq hread]
    simp only [List.length_cons, List.length_append]
    rw [show taken.length + 2 + u.length = taken.length + u.length + 1 + 1 by omega]
  | case9 c s hfeed hclose hback _ size hshift ih =>
    obtain ⟨k, hbody, rfl⟩ := shift_eq_ok hshift
    obtain ⟨rfl, hlength⟩ := Prod.mk.inj (Except.ok.inj h)
    obtain ⟨u, rfl, rfl⟩ := exists_append_of_le (s := [c]) hs (by rw [List.length_singleton]; omega)
    obtain rfl : k = u.length := by
      simp only [List.length_append, List.length_singleton] at hlength
      omega
    have hread := ih rfl hbody
    rw [List.singleton_append, List.cons_append, quotedBody.eq_def]
    simp only [if_neg hfeed, if_neg hclose, if_neg hback, hread, shift, List.length_cons, Nat.add_comm 1]

lemma string_append {c : UInt8} (hc : c = '"'.toUInt8 ∨ c = '\''.toUInt8)
    (h : string (c :: (t ++ rest)) = .ok (kind, (c :: t).length)) (after : Text) :
    string (c :: (t ++ after)) = .ok (kind, (c :: t).length) := by
  rw [string, List.headD_cons, List.tail_cons] at h ⊢
  cases hbody : quotedBody c (t ++ rest) with
  | error e => simp [hbody, shift, Except.map] at h
  | ok r =>
    obtain ⟨value, n⟩ := r
    simp only [hbody, shift, Except.map, Except.ok.injEq, Prod.mk.injEq, List.length_cons, Nat.add_comm 1,
      Nat.add_right_cancel_iff] at h
    obtain ⟨rfl, rfl⟩ := h
    have hquote : ('\\'.toUInt8 == c) = false := by obtain rfl | rfl := hc <;> decide
    rw [quotedBody_append hquote hbody after]
    simp [shift, Except.map, Nat.add_comm]

section Templates

variable {frame : TemplateFrame} {outer frames : List TemplateFrame} {c : UInt8} {next : Option UInt8}

/-- Below all that is open in a template is the template itself. -/
lemma step_getLast? (h : frame.step outer c next = .ok (n, frames)) (hbody : (frame :: outer).getLast? = some .body) :
    frames.getLast? = some .body ∨ frames = [] ∧ frame = .body ∧ outer = [] := by
  cases outer with
  | nil =>
    obtain rfl : frame = .body := by simpa using hbody
    simp only [TemplateFrame.step] at h
    repeat' split at h
    all_goals cases h
    all_goals simp
  | cons below outer =>
    rw [List.getLast?_cons_cons] at hbody
    apply Or.inl
    cases frame <;> simp only [TemplateFrame.step] at h
    all_goals
      repeat' split at h
      all_goals cases h
      all_goals simp only [List.getLast?_cons_cons, hbody]

/-- A template is closed by one byte, whatever follows it. -/
lemma step_body_eq_nil (h : TemplateFrame.step .body [] c next = .ok (n, [])) :
    n = 1 ∧ ∀ next', TemplateFrame.step .body [] c next' = .ok (1, []) := by
  simp only [TemplateFrame.step] at h ⊢
  split at h
  · split at h <;> cases h
  next hback =>
    split at h
    next hclose =>
      obtain ⟨rfl, -⟩ := Prod.mk.inj (Except.ok.inj h)
      apply And.intro rfl
      intro next'
      rw [if_neg hback, if_pos hclose]
    next => split at h <;> cases h

lemma lt_templateEnd {m : Nat} (h : templateEnd (frame :: outer) m s = .ok n) : m < n := by
  rw [templateEnd.eq_def] at h
  cases s with
  | nil => cases h
  | cons c rest =>
    simp only at h
    split at h
    · cases h
    next size frames hstep =>
      have hpos := (step_gives hstep).1
      have hle := (templateEnd_gives h).1
      omega

/-- Templates end with their backquote, whatever stands behind it. -/
lemma templateEnd_append {m : Nat} (h : templateEnd frames m (t ++ rest) = .ok (m + t.length))
    (hbody : frames = [] ∨ frames.getLast? = some .body) (after : Text) :
    templateEnd frames m (t ++ after) = .ok (m + t.length) := by
  generalize hs : t ++ rest = s at h
  fun_induction templateEnd frames m s generalizing t with
  | case1 =>
    rw [templateEnd.eq_def]
    exact h
  | case2 | case3 => cases h
  | case4 m frame outer c s size frames hstep ih =>
    have hpos := (step_gives hstep).1
    have hle := (templateEnd_gives h).1
    obtain ⟨t, rfl, rfl⟩ := exists_append_of_le (s := [c]) hs (by rw [List.length_singleton]; omega)
    rw [List.singleton_append, List.length_cons] at *
    simp only [reduceCtorEq, false_or] at hbody
    obtain hlast | ⟨rfl, rfl, rfl⟩ := step_getLast? hstep hbody
    · obtain ⟨f, fs, rfl⟩ := List.exists_cons_of_ne_nil (show frames ≠ [] by rintro rfl; cases hlast)
      have hsize := lt_templateEnd h
      have hhead : (t ++ after).head? = (t ++ rest).head? := by
        obtain ⟨d, u, rfl⟩ := List.exists_cons_of_length_pos (show 0 < t.length by omega)
        rfl
      have hleft : m + (t.length + 1) = m + size + (t.drop (size - 1)).length := by
        rw [List.length_drop]
        omega
      rw [List.drop_append_of_le_length (by omega)] at h ih
      rw [List.cons_append, templateEnd.eq_def]
      simp only [hhead, hstep]
      rw [List.drop_append_of_le_length (by omega), hleft]
      exact ih (.inr hlast) rfl (hleft ▸ h)
    · obtain ⟨rfl, hnext⟩ := step_body_eq_nil hstep
      rw [templateEnd.eq_def] at h
      rw [List.cons_append, templateEnd.eq_def]
      simp only [hnext]
      rw [templateEnd.eq_def]
      exact h

end Templates

lemma template_append {c : UInt8} (h : template (c :: (t ++ rest)) = .ok (kind, (c :: t).length)) (after : Text) :
    template (c :: (t ++ after)) = .ok (kind, (c :: t).length) := by
  rw [template, List.tail_cons] at h ⊢
  cases hend : templateEnd [.body] 1 (t ++ rest) with
  | error e => simp [hend, Except.map] at h
  | ok size =>
    simp only [hend, Except.map, Except.ok.injEq, Prod.mk.injEq, List.length_cons, Nat.add_comm t.length] at h
    obtain ⟨rfl, rfl⟩ := h
    rw [templateEnd_append hend (.inr rfl) after, List.length_cons, Nat.add_comm t.length]
    rfl

/-! ### Regular expressions -/

/-- Regular expressions end with their slash, whatever stands behind it. -/
lemma regExpBody_append {inClass : Bool} {m : Nat} (h : regExpBody inClass m (t ++ rest) = .ok n) (hn : n ≤ m + t.length)
    (after : Text) : regExpBody inClass m (t ++ after) = .ok n := by
  generalize hs : t ++ rest = s at h
  fun_induction regExpBody inClass m s generalizing t with
  | case1 | case2 | case3 | case4 => cases h
  | case5 inClass m c hfeed hback e s he ih =>
    have hlt := (regExpBody_gives h).1
    obtain ⟨t, rfl, rfl⟩ := exists_append_of_le (s := [c, e]) hs (by simp only [List.length_cons, List.length_nil]; omega)
    rw [List.length_append] at hn
    have hread := ih (t := t) (by simp only [List.length_cons, List.length_nil] at hn; omega) rfl h
    rw [List.cons_append, List.cons_append, List.cons_append, List.cons_append, List.nil_append, regExpBody.eq_def]
    simp only [if_neg hfeed, if_pos hback, if_neg he, hread]
  | case6 inClass m c s | case7 inClass m c s | case9 inClass m c s =>
    rename_i ih
    have hlt := (regExpBody_gives h).1
    obtain ⟨t, rfl, rfl⟩ := exists_append_of_le (s := [c]) hs (by rw [List.length_singleton]; omega)
    rw [List.length_append, List.length_singleton, ← Nat.add_assoc] at hn
    have hread := ih hn rfl h
    rw [List.cons_append, List.cons_append, regExpBody.eq_def]
    simp_all
  | case8 inClass m c s hfeed hback hopen hclosed hslash =>
    obtain rfl := Except.ok.inj h
    obtain ⟨t, rfl, rfl⟩ := exists_append_of_le (s := [c]) hs (by rw [List.length_singleton]; omega)
    rw [List.cons_append, List.cons_append, regExpBody.eq_def]
    simp only [if_neg hfeed, if_neg hback, if_neg hopen, if_neg hclosed, if_pos hslash]

lemma regExp_append {c : UInt8} (hends : GoesOn (isNamePart · = false) rest after)
    (h : regExp (c :: (t ++ rest)) = .ok (kind, (c :: t).length)) :
    regExp (c :: (t ++ after)) = .ok (kind, (c :: t).length) := by
  rw [regExp, List.tail_cons] at h ⊢
  cases hbody : regExpBody false 1 (t ++ rest) with
  | error e => simp [hbody, Except.map] at h
  | ok size =>
    simp only [hbody, Except.map, Except.ok.injEq, Prod.mk.injEq] at h
    obtain ⟨rfl, hsize⟩ := h
    have hle : size ≤ (c :: t).length := by omega
    have hbody' := regExpBody_append hbody (by rw [List.length_cons] at hle; omega) after
    have hflags : ((c :: (t ++ after)).drop size).takeWhile isNamePart =
        ((c :: (t ++ rest)).drop size).takeWhile isNamePart := by
      rw [← List.cons_append, ← List.cons_append, List.drop_append_of_le_length hle,
        List.drop_append_of_le_length hle] at *
      apply hends.takeWhile_eq
      · intro d hd
        simp [hd]
      · rw [List.length_drop]
        omega
    simp only [hbody', Except.map, hflags, hsize]

end PlainScript.Scan
