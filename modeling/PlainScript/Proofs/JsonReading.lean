import PlainScript.Json.Reader
import PlainScript.Json.Writer
import PlainScript.Proofs.Munch
import PlainScript.Proofs.Numerals

/-! What is written is read in one way. Each reader takes the text of a string, of a numeral or of a list in
brackets and leaves just what stands behind it. -/
namespace PlainScript.Json.Reader

variable {α β : Type} {s t rest : Text}

/-- The reader answers `a` on `s` and leaves `rest`. -/
def Reads (r : Reader α) (s : Text) (a : α) (rest : Text) : Prop := r s = .ok a rest

lemma Reads.bind {r : Reader α} {f : α → Reader β} {a : α} {b : β} (h : Reads r s a t) (hf : Reads (f a) t b rest) :
    Reads (r >>= f) s b rest := by
  change EStateM.bind r f s = _
  rw [EStateM.bind, show r s = .ok a t from h]
  exact hf

lemma reads_pure (a : α) (s : Text) : Reads (pure a) s a s := rfl

lemma reads_get (s : Text) : Reads get s s s := rfl

lemma reads_skip (c : UInt8) (s : Text) : Reads (skip 1) (c :: s) () s := rfl

lemma reads_atChar (c : Char) (s : Text) : Reads (atChar c) (c.toUInt8 :: s) true (c.toUInt8 :: s) := by
  have h : Reads (atChar c) (c.toUInt8 :: s) (decide (some c.toUInt8 = some c.toUInt8)) (c.toUInt8 :: s) := rfl
  rwa [decide_eq_true rfl] at h

lemma reads_atChar_other {c : Char} (h : s.head? ≠ some c.toUInt8) : Reads (atChar c) s false s := by
  have hs : Reads (atChar c) s (decide (s.head? = some c.toUInt8)) s := rfl
  rwa [decide_eq_false h] at hs

/-! ### Blanks -/

def Blanks (s : Text) : Prop := ∀ c ∈ s, Byte.isBlank c = true

lemma blanks_nil : Blanks [] := fun _ hc => nomatch hc

lemma blanks_lineBreak (l : Layout) : Blanks l.lineBreak := by
  cases l with
  | none => exact blanks_nil
  | some n =>
    have hbreak : ("\n" : Text) = ['\n'.toUInt8] := by decide
    rw [Layout.lineBreak, hbreak]
    intro c hc
    obtain rfl | hc := List.mem_cons.mp hc
    · decide
    · exact List.eq_of_mem_replicate hc ▸ by decide

lemma reads_skipBlanks {blanks : Text} (hb : Blanks blanks) (hs : ∀ c ∈ s.head?, Byte.isBlank c = false) :
    Reads skipBlanks (blanks ++ s) () s := by
  have h : Reads skipBlanks (blanks ++ s) () ((blanks ++ s).dropWhile Byte.isBlank) := rfl
  rw [List.dropWhile_append_of_pos hb] at h
  cases s with
  | nil => exact h
  | cons c s => rwa [List.dropWhile_cons_of_neg (by simp [hs c rfl])] at h

lemma reads_expect {c : Char} {blanks : Text} (hb : Blanks blanks) (hc : Byte.isBlank c.toUInt8 = false) (s : Text) :
    Reads (expect c) (blanks ++ c.toUInt8 :: s) () s :=
  (reads_skipBlanks hb (by simpa using hc)).bind ((reads_atChar c s).bind (reads_skip _ s))

/-! ### Strings -/

lemma reads_hexDigits {ds : Text} (h : ∀ c ∈ ds, Byte.isHex c = true) (n : Nat) (s : Text) :
    Reads (hexDigits ds.length n) (ds ++ s) (ds.foldl (fun n c => n * 16 + Byte.hexValue c) n) s := by
  induction ds generalizing n with
  | nil => exact reads_pure n s
  | cons c ds ih =>
    obtain ⟨d, hd⟩ := Option.isSome_iff_exists.mp (h c (by simp))
    have hnext : Reads next (c :: (ds ++ s)) (some c) (ds ++ s) := rfl
    refine hnext.bind ?_
    simp only [Option.bind_some, hd, List.foldl_cons, Byte.hexValue, Option.getD_some]
    exact ih (fun c hc => h c (List.mem_cons_of_mem _ hc)) _

lemma hexDigits_control : ∀ n < 0x20, (Text.hexDigits 4 n).length = 4 ∧
    (Text.hexDigits 4 n).all Byte.isHex = true ∧ Text.hexNumber (Text.hexDigits 4 n) = n := by
  decide

lemma reads_codePoint {n : Nat} (hn : n < 0x20) (s : Text) :
    Reads codePoint (Text.hexDigits 4 n ++ s) [n.toUInt8] s := by
  obtain ⟨hlength, hhex, hvalue⟩ := hexDigits_control n hn
  have hunit := reads_hexDigits (List.all_eq_true.mp hhex) 0 s
  rw [hlength, show List.foldl _ 0 _ = n from hvalue] at hunit
  have hlow : Text.isHighSurrogate n = false := by
    simp [Text.isHighSurrogate]
    omega
  refine Reads.bind hunit ((reads_get s).bind ?_)
  rw [hlow, Bool.false_and, Text.utf8, if_pos (hn.trans (by decide))]
  exact reads_pure _ s

lemma reads_escape_letter {letter : Char} {c : UInt8} (h : (letter, c) ∈ shortEscapes) (s : Text) :
    Reads escape (letter.toUInt8 :: s) [c] s := by
  simp only [shortEscapes, List.mem_cons, Prod.mk.injEq, List.not_mem_nil, or_false] at h
  obtain ⟨rfl, rfl⟩ | ⟨rfl, rfl⟩ | ⟨rfl, rfl⟩ | ⟨rfl, rfl⟩ | ⟨rfl, rfl⟩ | ⟨rfl, rfl⟩ | ⟨rfl, rfl⟩ | ⟨rfl, rfl⟩ := h
  all_goals rfl

/-- A byte stands for itself or is escaped by a letter or by its number. -/
lemma escapeByte_cases (c : UInt8) :
    (escapeByte c = [c] ∧ c ≠ '"'.toUInt8 ∧ c ≠ '\\'.toUInt8 ∧ ¬c < 0x20) ∨
      (∃ letter, (letter, c) ∈ shortEscapes ∧ escapeByte c = ['\\'.toUInt8, letter.toUInt8]) ∨
        c < 0x20 ∧ escapeByte c = '\\'.toUInt8 :: 'u'.toUInt8 :: Text.hexDigits 4 c.toNat := by
  rw [escapeByte]
  split_ifs with hquote hbackslash hb hf hn hr ht hcontrol
  · exact .inr (.inl ⟨'"', hquote ▸ by decide, by decide⟩)
  · exact .inr (.inl ⟨'\\', hbackslash ▸ by decide, by decide⟩)
  · exact .inr (.inl ⟨'b', hb ▸ by decide, by decide⟩)
  · exact .inr (.inl ⟨'f', hf ▸ by decide, by decide⟩)
  · exact .inr (.inl ⟨'n', hn ▸ by decide, by decide⟩)
  · exact .inr (.inl ⟨'r', hr ▸ by decide, by decide⟩)
  · exact .inr (.inl ⟨'t', ht ▸ by decide, by decide⟩)
  · have hlead : ("\\u" : Text) = ['\\'.toUInt8, 'u'.toUInt8] := by decide
    exact .inr (.inr ⟨hcontrol, by rw [hlead]; rfl⟩)
  · exact .inl ⟨rfl, hquote, hbackslash, hcontrol⟩

lemma reads_stringRest_step {c d : UInt8} {e s : Text} {steps : Nat} (hd : d ≠ '"'.toUInt8) (hcontrol : ¬d < 0x20)
    (hpart : Reads (if d = '\\'.toUInt8 then escape else pure [d]) (e ++ s) [c] s)
    (hrest : Reads (stringRest steps) s t rest) : Reads (stringRest (steps + 1)) (d :: (e ++ s)) (c :: t) rest := by
  have hnext : Reads next (d :: (e ++ s)) (some d) (e ++ s) := rfl
  refine hnext.bind ?_
  dsimp only
  rw [if_neg hd, if_neg hcontrol]
  split_ifs at hpart ⊢
  all_goals exact hpart.bind (hrest.bind (reads_pure ([c] ++ t) rest))

lemma reads_stringRest (t rest : Text) {steps : Nat} (hsteps : t.length < steps) :
    Reads (stringRest steps) (Json.escape t ++ '"'.toUInt8 :: rest) t rest := by
  induction t generalizing steps with
  | nil =>
    obtain ⟨steps, rfl⟩ := Nat.exists_eq_succ_of_ne_zero (Nat.ne_of_gt hsteps)
    rfl
  | cons c t ih =>
    obtain ⟨steps, rfl⟩ := Nat.exists_eq_succ_of_ne_zero (Nat.ne_of_gt (Nat.zero_lt_of_lt hsteps))
    have hrest := ih (Nat.lt_of_succ_lt_succ hsteps)
    rw [Json.escape, List.flatMap_cons, List.append_assoc]
    obtain ⟨heq, hquote, hbackslash, hcontrol⟩ | ⟨letter, hletter, heq⟩ | ⟨hc, heq⟩ := escapeByte_cases c
    all_goals rw [heq]
    · exact reads_stringRest_step (e := []) hquote hcontrol (by rw [if_neg hbackslash]; exact reads_pure _ _) hrest
    · exact reads_stringRest_step (e := [letter.toUInt8]) (by decide) (by decide)
        (by rw [if_pos rfl]; exact reads_escape_letter hletter _) hrest
    · refine reads_stringRest_step (e := 'u'.toUInt8 :: Text.hexDigits 4 c.toNat) (by decide) (by decide) ?_ hrest
      rw [if_pos rfl]
      have hcode := reads_codePoint (UInt8.lt_iff_toNat_lt.mp hc) (Json.escape t ++ '"'.toUInt8 :: rest)
      rw [show c.toNat.toUInt8 = c from UInt8.ofNat_toNat] at hcode
      exact Reads.bind (a := some 'u'.toUInt8) rfl hcode

lemma length_le_escape (t : Text) : t.length ≤ (Json.escape t).length := by
  induction t with
  | nil => exact le_rfl
  | cons c t ih =>
    have hc : 0 < (escapeByte c).length := by
      obtain ⟨heq, -⟩ | ⟨_, -, heq⟩ | ⟨-, heq⟩ := escapeByte_cases c
      all_goals simp [heq]
    rw [Json.escape, List.flatMap_cons, List.length_append, List.length_cons, ← Json.escape]
    omega

lemma quote_eq (t : Text) : quote t = '"'.toUInt8 :: (Json.escape t ++ ['"'.toUInt8]) := by
  rw [quote, show ("\"" : Text) = ['"'.toUInt8] by decide]
  rfl

lemma reads_string {blanks : Text} (hb : Blanks blanks) (t rest : Text) :
    Reads string (blanks ++ (quote t ++ rest)) t rest := by
  rw [quote_eq, List.cons_append, List.append_assoc]
  refine (reads_expect hb (by decide) _).bind ((reads_get _).bind (reads_stringRest t rest ?_))
  have := length_le_escape t
  simp only [List.length_append]
  omega

/-! ### Numerals -/

/-- What stands behind a value does not go on with a numeral. -/
def Ends (s : Text) : Prop :=
  ∀ c ∈ s.head?, Byte.isDigit c = false ∧ c ≠ '.'.toUInt8 ∧ c ≠ 'e'.toUInt8 ∧ c ≠ 'E'.toUInt8

lemma reads_someDigits {ds : Text} (h : Digits ds) (hs : ∀ c ∈ s.head?, Byte.isDigit c = false) (fault : Fault) :
    Reads (someDigits fault) (ds ++ s) ds s := by
  have hdigits : Reads digits (ds ++ s) ((ds ++ s).takeWhile Byte.isDigit) ((ds ++ s).dropWhile Byte.isDigit) := rfl
  rw [List.takeWhile_append_of_pos h.2, List.dropWhile_append_of_pos h.2] at hdigits
  have hnone : s.takeWhile Byte.isDigit = [] ∧ s.dropWhile Byte.isDigit = s := by
    cases s with
    | nil => exact ⟨rfl, rfl⟩
    | cons c s => simp [hs c rfl]
  rw [hnone.1, hnone.2, List.append_nil] at hdigits
  refine hdigits.bind ?_
  rw [if_neg (by simpa using h.1)]
  exact reads_pure ds s

lemma reads_optionally (c : Char) (s : Text) : Reads (optionally c) (c.toUInt8 :: s) [c.toUInt8] s :=
  (reads_atChar c s).bind ((reads_skip _ s).bind (reads_pure _ s))

lemma reads_optionally_other {c : Char} (h : s.head? ≠ some c.toUInt8) : Reads (optionally c) s [] s :=
  (reads_atChar_other h).bind (reads_pure _ s)

/-- Nothing, or an exponent with or without a sign. -/
inductive Power : Text → Prop
  | none : Power []
  | some {mark : UInt8} {sign ds : Text} (hmark : mark = 'e'.toUInt8 ∨ mark = 'E'.toUInt8)
    (hsign : sign = [] ∨ sign = ['+'.toUInt8] ∨ sign = ['-'.toUInt8]) (h : Digits ds) : Power (mark :: (sign ++ ds))

/-- The numerals of a document. -/
inductive NumberText : Text → Prop
  | mk {sign whole fraction power : Text} (hsign : sign = [] ∨ sign = ['-'.toUInt8]) (hwhole : Digits whole)
    (hfraction : Fraction fraction) (hpower : Power power) : NumberText (sign ++ (whole ++ (fraction ++ power)))

lemma power_of_exponent {e : Text} (he : Exponent e) : Power e := by
  cases he with
  | none => exact .none
  | @some sign ds hsign h =>
    obtain rfl | rfl := hsign
    · exact .some (.inl rfl) (.inr (.inl rfl)) h
    · exact .some (.inl rfl) (.inr (.inr rfl)) h

lemma numberText_of_numeral {t : Text} (ht : Numeral t) : NumberText t := by
  cases ht with
  | mk hsign hwhole hf he =>
    rw [List.append_assoc, List.append_assoc]
    exact .mk hsign hwhole hf (power_of_exponent he)

lemma NumberText.begins {t : Text} (h : NumberText t) :
    ∃ c u, t = c :: u ∧ (decide (c = '-'.toUInt8) || Byte.isDigit c) = true := by
  cases h with
  | @mk sign whole fraction power hsign hwhole _ _ =>
    obtain rfl | rfl := hsign
    · obtain _ | ⟨d, ds⟩ := whole
      · exact absurd rfl hwhole.1
      · exact ⟨d, _, rfl, by simp [hwhole.2 d]⟩
    · exact ⟨_, _, rfl, by decide⟩

lemma reads_exponentMark {mark : UInt8} (h : mark = 'e'.toUInt8 ∨ mark = 'E'.toUInt8) (s : Text) :
    Reads exponentMark (mark :: s) [mark] s := by
  obtain rfl | rfl := h
  · exact (reads_optionally 'e' s).bind (reads_pure _ s)
  · exact (reads_optionally_other (by simp; decide)).bind (reads_optionally 'E' s)

lemma reads_exponentSign {sign ds : Text} (h : sign = [] ∨ sign = ['+'.toUInt8] ∨ sign = ['-'.toUInt8])
    (hds : Digits ds) (s : Text) : Reads exponentSign (sign ++ (ds ++ s)) sign (ds ++ s) := by
  have hdigit {c : Char} (hc : Byte.isDigit c.toUInt8 = false) : (ds ++ s).head? ≠ some c.toUInt8 := fun h =>
    Bool.false_ne_true (hc.symm.trans (hds.isDigit_head h))
  obtain rfl | rfl | rfl := h
  · exact (reads_optionally_other (hdigit (by decide))).bind (reads_optionally_other (hdigit (by decide)))
  · exact (reads_optionally '+' _).bind (reads_pure _ _)
  · exact (reads_optionally_other (by simp; decide)).bind (reads_optionally '-' _)

lemma reads_exponent {e : Text} (he : Power e) (hs : Ends s) : Reads exponent (e ++ s) e s := by
  cases he with
  | none =>
    have hmark : Reads exponentMark s [] s :=
      (reads_optionally_other fun h => (hs _ h).2.2.1 rfl).bind (reads_optionally_other fun h => (hs _ h).2.2.2 rfl)
    exact hmark.bind (reads_pure _ s)
  | @some mark sign ds hmark hsign h =>
    rw [List.cons_append, List.append_assoc]
    exact (reads_exponentMark hmark _).bind ((reads_exponentSign hsign h s).bind
      ((reads_someDigits h (fun c hc => (hs c hc).1) _).bind (reads_pure _ s)))

lemma reads_fraction {f : Text} (hf : Fraction f) (hs : ∀ c ∈ s.head?, Byte.isDigit c = false ∧ c ≠ '.'.toUInt8) :
    Reads fraction (f ++ s) f s := by
  cases hf with
  | none => exact (reads_optionally_other fun h => (hs _ h).2 rfl).bind (reads_pure _ s)
  | @some ds h =>
    exact (reads_optionally '.' _).bind ((reads_someDigits h (fun c hc => (hs c hc).1) _).bind (reads_pure _ s))

theorem reads_number {t : Text} (ht : NumberText t) (hrest : Ends rest) :
    Reads number (t ++ rest) (Decimal.readFloat t) rest := by
  cases ht with
  | @mk sign whole f e hsign hwhole hf he =>
    have hafter : ∀ c ∈ (e ++ rest).head?, Byte.isDigit c = false ∧ c ≠ '.'.toUInt8 := by
      cases he with
      | none => exact fun c hc => ⟨(hrest c hc).1, (hrest c hc).2.1⟩
      | some hmark =>
        obtain rfl | rfl := hmark
        · simp; decide
        · simp; decide
    have hpoint : ∀ c ∈ (f ++ (e ++ rest)).head?, Byte.isDigit c = false := by
      cases hf with
      | none => exact fun c hc => (hafter c hc).1
      | some => simp; decide
    have hminus : Reads (optionally '-') (sign ++ (whole ++ (f ++ (e ++ rest)))) sign (whole ++ (f ++ (e ++ rest))) := by
      obtain rfl | rfl := hsign
      · exact reads_optionally_other fun h => absurd (hwhole.isDigit_head h) (by decide)
      · exact reads_optionally '-' _
    simp only [List.append_assoc]
    refine hminus.bind ((reads_someDigits hwhole hpoint _).bind ((reads_fraction hf hafter).bind
      ((reads_exponent he hrest).bind ?_)))
    simp only [← List.append_assoc]
    exact reads_pure _ rest

/-! ### Lists in brackets -/

/-- The characters that a list closes with. -/
def Closes (close : Char) : Prop := close = ']' ∨ close = '\x7d'

lemma Closes.isBlank {close : Char} (h : Closes close) : Byte.isBlank close.toUInt8 = false := by
  obtain rfl | rfl := h <;> decide

lemma Closes.ne_comma {close : Char} (h : Closes close) : ','.toUInt8 ≠ close.toUInt8 := by
  obtain rfl | rfl := h <;> decide

/-- A reader of items takes a text: blanks before it do not matter, and it does not begin like the end of a list. -/
structure Takes (item : Reader α) (t : Text) (a : α) : Prop where
  begins : ∃ c u, t = c :: u ∧ Byte.isBlank c = false ∧ c ≠ ']'.toUInt8 ∧ c ≠ '\x7d'.toUInt8
  reads : ∀ {blanks rest : Text}, Blanks blanks → Ends rest → Reads item (blanks ++ (t ++ rest)) a rest

lemma Ends.append_blanks {blanks : Text} (hb : Blanks blanks) (hs : Ends s) : Ends (blanks ++ s) := by
  obtain _ | ⟨b, blanks⟩ := blanks
  · exact hs
  · rintro c hc
    obtain rfl : b = c := by simpa using hc
    have hclass := Byte.forall_of_lt (P := fun c => Byte.isBlank c = true →
      Byte.isDigit c = false ∧ c ≠ '.'.toUInt8 ∧ c ≠ 'e'.toUInt8 ∧ c ≠ 'E'.toUInt8) (by decide +kernel)
    exact hclass b (hb b (by simp))

lemma ends_nil : Ends [] := fun _ hc => nomatch hc

lemma ends_comma (s : Text) : Ends (','.toUInt8 :: s) := by
  rintro _ ⟨⟩
  decide

lemma Closes.ends {close : Char} (h : Closes close) (s : Text) : Ends (close.toUInt8 :: s) := by
  rintro _ ⟨⟩
  obtain rfl | rfl := h <;> decide

/-- The items behind the first, each after a comma and a gap. -/
def following (gap : Text) (text : α → Text) (items : List α) : Text :=
  items.flatMap fun a => ','.toUInt8 :: (gap ++ text a)

lemma length_le_following (gap : Text) (text : α → Text) (items : List α) :
    items.length ≤ (following gap text items).length := by
  induction items with
  | nil => exact le_rfl
  | cons a items ih =>
    simp only [following, List.flatMap_cons, List.length_append, List.length_cons] at ih ⊢
    omega

lemma join_commas (gap : Text) (text : α → Text) (a : α) (items : List α) :
    Text.join "," ((a :: items).map fun a => gap ++ text a) = gap ++ (text a ++ following gap text items) := by
  induction items generalizing a with
  | nil => simp [following]
  | cons b items ih =>
    have hcomma : ("," : Text) = [','.toUInt8] := by decide
    have hrest := ih b
    rw [List.map_cons] at hrest
    rw [List.map_cons, List.map_cons, Text.join, hrest, hcomma]
    · simp [following]
    · simp

variable {item : Reader α} {close : Char} {text : α → Text}

lemma reads_separated (hclose : Closes close) {gap last blanks : Text} (hgap : Blanks gap)
    (hlast : Blanks last) {a : α} {items : List α} (hitems : ∀ b ∈ a :: items, Takes item (text b) b) {steps : Nat}
    (hsteps : items.length < steps) (hb : Blanks blanks) :
    Reads (separated close item steps)
      (blanks ++ (text a ++ (following gap text items ++ (last ++ close.toUInt8 :: rest)))) (a :: items) rest := by
  induction items generalizing a blanks steps with
  | nil =>
    obtain ⟨steps, rfl⟩ := Nat.exists_eq_succ_of_ne_zero (Nat.ne_of_gt hsteps)
    have hends : Ends (last ++ close.toUInt8 :: rest) := .append_blanks hlast (hclose.ends rest)
    refine ((hitems a (by simp)).reads hb hends).bind ((reads_skipBlanks hlast (by simpa using hclose.isBlank)).bind
      ((reads_atChar close rest).bind ((reads_skip _ rest).bind (reads_pure [a] rest))))
  | cons b items ih =>
    obtain ⟨steps, rfl⟩ := Nat.exists_eq_succ_of_ne_zero (Nat.ne_of_gt (Nat.zero_lt_of_lt hsteps))
    have hrest := ih (fun c hc => hitems c (List.mem_cons_of_mem _ hc)) (Nat.lt_of_succ_lt_succ hsteps) hgap
    simp only [following, List.flatMap_cons, List.cons_append, List.append_assoc]
    refine ((hitems a (by simp)).reads hb (ends_comma _)).bind ?_
    refine (reads_skipBlanks blanks_nil (by simp; decide)).bind ?_
    refine (reads_atChar_other (by simpa using hclose.ne_comma)).bind ?_
    refine (reads_expect (c := ',') blanks_nil (by decide) _).bind ?_
    exact hrest.bind (reads_pure _ rest)

/-- A list between brackets, however it is broken into lines. -/
theorem reads_bracketed (opening : Char) (hopening : Byte.isBlank opening.toUInt8 = false)
    (hclose : Closes close) (l : Layout) {items : List α} (hitems : ∀ a ∈ items, Takes item (text a) a)
    (rest : Text) :
    Reads (bracketed opening close item)
      (l.bracketed [opening.toUInt8] [close.toUInt8] (items.map text) ++ rest) items rest := by
  cases items with
  | nil =>
    have hopen := reads_expect (c := opening) blanks_nil hopening (close.toUInt8 :: rest)
    exact hopen.bind ((reads_skipBlanks blanks_nil (by simpa using hclose.isBlank)).bind
      ((reads_atChar close rest).bind ((reads_skip _ rest).bind (reads_pure [] rest))))
  | cons a items =>
    obtain ⟨c, u, htext, hbegin, hbracket, hbrace⟩ := (hitems a (by simp)).begins
    have hnot : c ≠ close.toUInt8 := by
      obtain rfl | rfl := hclose <;> assumption
    have hwritten : l.bracketed [opening.toUInt8] [close.toUInt8] ((a :: items).map text) ++ rest =
        opening.toUInt8 :: (l.deeper.lineBreak ++ (text a ++ (following l.deeper.lineBreak text items ++
          (l.lineBreak ++ close.toUInt8 :: rest)))) := by
      have hjoin := join_commas l.deeper.lineBreak text a items
      rw [Layout.bracketed, List.map_map, show _ ∘ text = fun a => l.deeper.lineBreak ++ text a from rfl, hjoin]
      simp
    rw [hwritten]
    refine (reads_expect blanks_nil hopening _).bind ?_
    refine (reads_skipBlanks (blanks_lineBreak _) (by simpa [htext] using hbegin)).bind ?_
    refine (reads_atChar_other (by simpa [htext] using hnot)).bind ((reads_get _).bind ?_)
    refine reads_separated hclose (blanks_lineBreak _) (blanks_lineBreak _) hitems ?_ blanks_nil
    have := length_le_following l.deeper.lineBreak text items
    simp only [List.length_append]
    omega

end PlainScript.Json.Reader
