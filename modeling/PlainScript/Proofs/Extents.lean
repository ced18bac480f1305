import PlainScript.Proofs.Gaps

/-! How much a scanner takes. Every token takes a part of the text in front of it that is not empty, so the
tokens of a text are all there and none reaches behind its end. -/
namespace PlainScript

namespace Scan

/-- This many bytes can be taken from a text, and there is at least one of them. -/
def Gives (s : Text) (n : Nat) : Prop := 0 < n ∧ n ≤ s.length

variable {s : Text} {n : Nat} {p : UInt8 → Bool}

lemma lt_length_of_beginsWith (h : beginsWith (s.drop n) p = true) : n < s.length := by
  by_contra hn
  rw [List.drop_eq_nil_of_le (Nat.le_of_not_lt hn)] at h
  cases h

lemma add_takeWhile_le (h : n ≤ s.length) : n + ((s.drop n).takeWhile p).length ≤ s.length := by
  have hlength := (List.takeWhile_prefix p (l := s.drop n)).length_le
  rw [List.length_drop] at hlength
  omega

lemma takeWhile_pos {c : UInt8} {rest : Text} (h : p c = true) : 0 < ((c :: rest).takeWhile p).length := by
  rw [List.takeWhile_cons_of_pos h]
  exact Nat.succ_pos _

/-! ### Words and punctuators -/

lemma word_gives {c : UInt8} {rest : Text} {kind : TokenKind}
    (hstart : isNameStart c = true ∨ c = '#'.toUInt8) (h : word (c :: rest) = .ok (kind, n)) :
    kind ≠ .endOfFile ∧ Gives (c :: rest) n := by
  rw [word] at h
  dsimp only at h
  generalize hhash : (if beginsWith (c :: rest) (· == '#'.toUInt8) then 1 else 0) = hash at h
  split at h
  · cases h
  · split at h
    · cases h
    · obtain ⟨rfl, rfl⟩ := Prod.mk.inj (Except.ok.inj h)
      split at hhash
      · subst hhash
        exact ⟨by split <;> simp, Nat.add_pos_left Nat.one_pos _, add_takeWhile_le (by simp)⟩
      next hplain =>
        subst hhash
        have hc : isNameStart c = true := hstart.resolve_right (by simpa [beginsWith] using hplain)
        exact ⟨by split <;> simp, Nat.add_pos_right _ (takeWhile_pos (isNamePart_of_start hc)),
          add_takeWhile_le (Nat.zero_le _)⟩

lemma punctuator_gives {kind : TokenKind} (h : punctuator s = .ok (kind, n)) :
    kind ≠ .endOfFile ∧ Gives s n := by
  rw [punctuator] at h
  split at h
  next p hfind =>
    obtain ⟨rfl, rfl⟩ := Prod.mk.inj (Except.ok.inj h)
    have hpositive : ∀ p ∈ punctuators, 0 < p.length := by decide
    have hfits := List.find?_some hfind
    have hprefix : p <+: s := List.isPrefixOf_iff_prefix.mp (Bool.and_eq_true_iff.mp hfits).1
    exact ⟨by simp, hpositive p (List.mem_of_find?_eq_some hfind), hprefix.length_le⟩
  next => cases h

lemma regExpBody_gives {inClass : Bool} {m : Nat} (h : regExpBody inClass m s = .ok n) :
    m < n ∧ n ≤ m + s.length := by
  fun_induction regExpBody inClass m s with
  | case1 | case2 | case3 | case4 => cases h
  | case5 | case6 | case7 | case9 =>
    rename_i ih
    obtain ⟨hlt, hle⟩ := ih h
    simp only [List.length_cons]
    omega
  | case8 =>
    obtain rfl := Except.ok.inj h
    simp only [List.length_cons]
    omega

lemma regExp_gives {c : UInt8} {rest : Text} {kind : TokenKind} (h : regExp (c :: rest) = .ok (kind, n)) :
    kind ≠ .endOfFile ∧ Gives (c :: rest) n := by
  rw [regExp] at h
  cases hbody : regExpBody false 1 rest with
  | error e => simp [hbody, Except.map] at h
  | ok size =>
    simp only [List.tail_cons, hbody, Except.map, Except.ok.injEq, Prod.mk.injEq] at h
    obtain ⟨rfl, rfl⟩ := h
    obtain ⟨hlt, hle⟩ := regExpBody_gives hbody
    refine ⟨by simp, Nat.add_pos_left (Nat.zero_lt_of_lt hlt) _, add_takeWhile_le ?_⟩
    rw [List.length_cons]
    omega

/-! ### Numbers -/

lemma basedDigits_gives {base lead : Nat} {v : Float} (h : basedDigits base lead s = .ok (v, n)) :
    Gives s n := by
  rw [basedDigits] at h
  split at h
  · cases h
  next hdigits =>
    obtain ⟨-, rfl⟩ := Prod.mk.inj (Except.ok.inj h)
    have hrun : 0 < ((s.drop lead).takeWhile fun c => c == underscore || digitBelow base c).length := by
      refine List.length_pos_iff.mpr fun hnil => hdigits ?_
      rw [hnil]
      rfl
    have hlength := hrun.trans_le (List.takeWhile_prefix _).length_le
    rw [List.length_drop] at hlength
    exact ⟨Nat.add_pos_right _ hrun, add_takeWhile_le (by omega)⟩

lemma exponentLength_le (h : exponentLength s = .ok n) : n ≤ s.length := by
  rw [exponentLength] at h
  dsimp only at h
  generalize hlead : (if beginsWith s.tail (fun c => c == '+'.toUInt8 || c == '-'.toUInt8) then 2 else 1) = lead at h
  split at h
  next he =>
    split at h
    · cases h
    next hdigits =>
      obtain rfl := Except.ok.inj h
      refine add_takeWhile_le ?_
      rw [← hlead]
      split
      next hsign =>
        rw [← List.drop_one] at hsign
        exact lt_length_of_beginsWith hsign
      next =>
        rw [← s.drop_zero] at he
        exact lt_length_of_beginsWith he
  next => exact Except.ok.inj h ▸ Nat.zero_le _

lemma decimal_gives {c : UInt8} {rest : Text} {v : Float}
    (hstart : Byte.isDigit c = true ∨ c = '.'.toUInt8) (h : decimal (c :: rest) = .ok (v, n)) :
    Gives (c :: rest) n := by
  rw [decimal] at h
  generalize hwhole : (digitRun (c :: rest)).length = whole at h
  have hle : whole ≤ (c :: rest).length := hwhole ▸ (List.takeWhile_prefix _).length_le
  generalize hfraction : (if beginsWith ((c :: rest).drop whole) (· == '.'.toUInt8) then
    1 + (digitRun ((c :: rest).drop (whole + 1))).length else 0) = fraction at h
  split at h
  · cases h
  next k hk =>
    obtain ⟨-, rfl⟩ := Prod.mk.inj (Except.ok.inj h)
    have hpart : 0 < whole + fraction ∧ whole + fraction ≤ (c :: rest).length := by
      split at hfraction
      next hpoint =>
        have hlt := lt_length_of_beginsWith hpoint
        have hrun : whole + 1 + (digitRun ((c :: rest).drop (whole + 1))).length ≤ (c :: rest).length :=
          add_takeWhile_le hlt
        omega
      next hpoint =>
        refine ⟨Nat.add_pos_left ?_ _, by omega⟩
        rw [← hwhole]
        refine takeWhile_pos ?_
        rcases hstart with hdigit | rfl
        · rw [hdigit, Bool.true_or]
        · -- A number that begins with its point has that point as its fraction.
          refine absurd ?_ hpoint
          rw [← hwhole]
          rfl
    have hexponent := exponentLength_le hk
    rw [List.length_drop] at hexponent
    exact ⟨Nat.add_pos_left hpart.1 _, by omega⟩

lemma numberValue_gives {c : UInt8} {rest : Text} {v : Float}
    (hstart : Byte.isDigit c = true ∨ c = '.'.toUInt8) (h : numberValue (c :: rest) = .ok (v, n)) :
    Gives (c :: rest) n := by
  rw [numberValue] at h
  repeat' split at h
  · exact basedDigits_gives h
  · exact basedDigits_gives h
  · exact basedDigits_gives h
  · exact basedDigits_gives h
  · exact decimal_gives hstart h

lemma number_gives {c : UInt8} {rest : Text} {kind : TokenKind}
    (hstart : Byte.isDigit c = true ∨ c = '.'.toUInt8) (h : number (c :: rest) = .ok (kind, n)) :
    kind ≠ .endOfFile ∧ Gives (c :: rest) n := by
  rw [number] at h
  split at h
  · cases h
  next v size hvalue =>
    obtain ⟨hpos, hle⟩ := numberValue_gives hstart hvalue
    dsimp only at h
    generalize hsize : (if beginsWith ((c :: rest).drop size) (· == 'n'.toUInt8) then size + 1 else size) = total at h
    split at h
    · cases h
    · obtain ⟨rfl, rfl⟩ := Prod.mk.inj (Except.ok.inj h)
      refine ⟨by simp, ?_⟩
      rw [← hsize]
      split
      next hsuffix => exact ⟨Nat.succ_pos _, lt_length_of_beginsWith hsuffix⟩
      next => exact ⟨hpos, hle⟩

/-! ### Strings and templates -/

lemma readHex_le {k v : Nat} (h : Text.readHex k s = .ok v) : k ≤ s.length := by
  rw [Text.readHex] at h
  split at h
  next hdigits =>
    have hlength := (List.takeWhile_prefix Byte.isHex (l := s.take k)).length_le
    rw [hdigits, List.length_take] at hlength
    omega
  next => cases h

lemma lowSurrogate?_le {low : Nat} (h : lowSurrogate? s = some low) : 6 ≤ s.length := by
  rw [lowSurrogate?] at h
  split at h
  next hlead =>
    split at h
    next hhex =>
      have hrest := readHex_le hhex
      rw [List.length_drop] at hrest
      omega
    next => cases h
  next => cases h

lemma unicodeEscape_le {value : Text} (h : unicodeEscape s = .ok (value, n)) : n ≤ s.length := by
  rw [unicodeEscape] at h
  dsimp only at h
  split at h
  next hbrace =>
    obtain ⟨rest, rfl⟩ := List.head?_eq_some_iff.mp hbrace
    split at h
    · cases h
    · split at h
      · cases h
      next hclosing =>
        split at h
        · cases h
        · obtain ⟨-, rfl⟩ := Prod.mk.inj (Except.ok.inj h)
          obtain ⟨more, hmore⟩ := List.head?_eq_some_iff.mp (not_not.mp hclosing)
          have hlength := congrArg List.length hmore
          simp only [List.tail_cons, List.length_drop, List.length_cons] at hlength ⊢
          omega
  next =>
    split at h
    · cases h
    next cp hhex =>
      have hfour := readHex_le hhex
      split at h
      next low hlow =>
        obtain ⟨-, rfl⟩ := Prod.mk.inj (Except.ok.inj h)
        split at hlow
        · have hsix := lowSurrogate?_le hlow
          rw [List.length_drop] at hsix
          omega
        · cases hlow
      next =>
        obtain ⟨-, rfl⟩ := Prod.mk.inj (Except.ok.inj h)
        exact hfour

lemma octalEscape_le (value more : Nat) (s : Text) : (octalEscape value more s).2 ≤ s.length := by
  fun_induction octalEscape value more s with
  | case1 | case2 | case4 => exact Nat.zero_le _
  | case3 _ _ _ _ _ _ _ _ heq ih =>
    rw [heq] at ih
    exact Nat.succ_le_succ ih

lemma escape_gives {e : UInt8} {rest value : Text} (h : escape e rest = .ok (value, n)) :
    Gives (e :: rest) n := by
  have hone : Gives (e :: rest) 1 := ⟨Nat.one_pos, Nat.succ_le_succ (Nat.zero_le _)⟩
  rw [escape] at h
  split at h
  · exact (Prod.mk.inj (Except.ok.inj h)).2 ▸ hone
  · split at h
    · exact (Prod.mk.inj (Except.ok.inj h)).2 ▸ hone
    · split at h
      · rw [← (Prod.mk.inj (Except.ok.inj h)).2]
        split
        next hfeed =>
          obtain ⟨more, rfl⟩ := List.head?_eq_some_iff.mp hfeed
          exact ⟨Nat.two_pos, by simp⟩
        next => exact hone
      · split at h
        · split at h
          · cases h
          next hhex =>
            have htwo := readHex_le hhex
            obtain ⟨-, rfl⟩ := Prod.mk.inj (Except.ok.inj h)
            exact ⟨Nat.succ_pos _, Nat.succ_le_succ htwo⟩
        · split at h
          · obtain ⟨k, hunicode, rfl⟩ := shift_eq_ok h
            have hk := unicodeEscape_le hunicode
            exact ⟨Nat.add_pos_left Nat.one_pos _, by rw [List.length_cons]; omega⟩
          · split at h
            · obtain ⟨-, rfl⟩ := Prod.mk.inj (Except.ok.inj h)
              have hoctal := octalEscape_le (e.toNat - 48) 2 rest
              exact ⟨Nat.add_pos_left Nat.one_pos _, by rw [List.length_cons]; omega⟩
            · exact (Prod.mk.inj (Except.ok.inj h)).2 ▸ hone

lemma quotedBody_gives {quote : UInt8} {value : Text} (h : quotedBody quote s = .ok (value, n)) :
    Gives s n := by
  fun_induction quotedBody quote s generalizing value n with
  | case1 | case2 | case4 | case5 | case6 | case8 => cases h
  | case3 =>
    obtain ⟨-, rfl⟩ := Prod.mk.inj (Except.ok.inj h)
    exact ⟨Nat.one_pos, Nat.succ_le_succ (Nat.zero_le _)⟩
  | case7 c _ _ _ e rest _ m hescape _ size hshift ih =>
    obtain ⟨k, hbody, rfl⟩ := shift_eq_ok hshift
    obtain ⟨-, rfl⟩ := Prod.mk.inj (Except.ok.inj h)
    obtain ⟨hpos, hle⟩ := escape_gives hescape
    obtain ⟨-, hk⟩ := ih hbody
    simp only [List.length_cons, List.length_drop] at hle hk
    exact ⟨Nat.add_pos_left (Nat.succ_pos _) _, by simp only [List.length_cons]; omega⟩
  | case9 c rest _ _ _ _ size hshift ih =>
    obtain ⟨k, hbody, rfl⟩ := shift_eq_ok hshift
    obtain ⟨-, rfl⟩ := Prod.mk.inj (Except.ok.inj h)
    obtain ⟨-, hk⟩ := ih hbody
    exact ⟨Nat.add_pos_left Nat.one_pos _, by rw [List.length_cons]; omega⟩

lemma string_gives {c : UInt8} {rest : Text} {kind : TokenKind} (h : string (c :: rest) = .ok (kind, n)) :
    kind ≠ .endOfFile ∧ Gives (c :: rest) n := by
  rw [string] at h
  cases hbody : quotedBody c rest with
  | error e => simp [hbody, shift, Except.map] at h
  | ok r =>
    simp only [List.headD_cons, List.tail_cons, hbody, shift, Except.map, Except.ok.injEq, Prod.mk.injEq] at h
    obtain ⟨rfl, rfl⟩ := h
    have hle := (quotedBody_gives hbody).2
    exact ⟨by simp, Nat.add_pos_left Nat.one_pos _, by rw [List.length_cons]; omega⟩

/-- A step inside a template takes one byte, or two where there is a second one. -/
lemma step_gives {frame : TemplateFrame} {outer frames : List TemplateFrame} {c : UInt8} {rest : Text}
    (h : frame.step outer c rest.head? = .ok (n, frames)) : Gives (c :: rest) n := by
  have hone : Gives (c :: rest) 1 := ⟨Nat.one_pos, Nat.succ_le_succ (Nat.zero_le _)⟩
  have htwo (hnext : rest.head?.isNone = false) : Gives (c :: rest) 2 := by
    cases rest with
    | nil => cases hnext
    | cons d rest => exact ⟨Nat.two_pos, by simp⟩
  have hpair {b d : UInt8} (h : (c == b && rest.head? == some d) = true) : Gives (c :: rest) 2 := by
    refine htwo ?_
    rw [eq_of_beq (Bool.and_eq_true_iff.mp h).2]
    rfl
  cases frame <;> simp only [TemplateFrame.step] at h
  all_goals
    repeat' split at h
    all_goals cases h
    all_goals first
      | exact hone
      | exact htwo (Bool.eq_false_iff.mpr ‹_›)
      | exact hpair ‹_›

lemma templateEnd_gives {frames : List TemplateFrame} {m : Nat} (h : templateEnd frames m s = .ok n) :
    m ≤ n ∧ n ≤ m + s.length := by
  fun_induction templateEnd frames m s with
  | case1 => exact Except.ok.inj h ▸ ⟨Nat.le_refl _, Nat.le_add_right ..⟩
  | case2 | case3 => cases h
  | case4 m frame outer c rest size frames hstep ih =>
    obtain ⟨hpos, hle⟩ := step_gives hstep
    obtain ⟨hlower, hupper⟩ := ih h
    simp only [List.length_cons, List.length_drop] at hle hupper ⊢
    omega

lemma template_gives {c : UInt8} {rest : Text} {kind : TokenKind}
    (h : template (c :: rest) = .ok (kind, n)) : kind ≠ .endOfFile ∧ Gives (c :: rest) n := by
  rw [template] at h
  cases hend : templateEnd [.body] 1 rest with
  | error e => simp [hend, Except.map] at h
  | ok size =>
    simp only [List.tail_cons, hend, Except.map, Except.ok.injEq, Prod.mk.injEq] at h
    obtain ⟨rfl, rfl⟩ := h
    obtain ⟨hlower, hupper⟩ := templateEnd_gives hend
    exact ⟨by simp, hlower, by rw [List.length_cons]; omega⟩

/-- Every token takes a part of the text in front of it that is not empty. -/
theorem token_gives {previous : Option Token} {c : UInt8} {rest : Text} {kind : TokenKind}
    (h : token previous (c :: rest) = .ok (kind, n)) :
    kind ≠ .endOfFile ∧ Gives (c :: rest) n := by
  rw [token_cons] at h
  split at h
  next hword => exact word_gives (by simpa using hword) h
  split at h
  next hnumber =>
    refine number_gives ?_ h
    simp only [Bool.or_eq_true, Bool.and_eq_true, beq_iff_eq] at hnumber
    exact hnumber.imp_right And.left
  split at h
  · exact string_gives h
  split at h
  · exact template_gives h
  split at h
  · exact regExp_gives h
  · exact punctuator_gives h

end Scan

end PlainScript
