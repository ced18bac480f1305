import PlainScript.Proofs.Endings

/-! Where a token ends. A token is read in front of any text that does not carry it on, and no gap begins at a token.
What comes behind a token matters by its first byte, and for a punctuator up to the first byte that is in no
punctuator. -/
namespace PlainScript

namespace Scan

variable {p : UInt8 → Bool} {c d : UInt8} {s t rest after : Text} {n : Nat} {kind : TokenKind}
  {previous : Option Token}

/-- A byte that is in no punctuator and in no number that begins with its point. -/
def Neutral (c : UInt8) : Prop := Byte.isDigit c = false ∧ ∀ p ∈ punctuators, c ∉ p

instance (c : UInt8) : Decidable (Neutral c) := inferInstanceAs (Decidable (_ ∧ _))

/-- Two texts that are the same up to a byte, and in both of them that byte is neutral. -/
inductive Alike : Text → Text → Prop
  | intro {front s s' : Text} {c d : UInt8} (hne : front ≠ []) (hc : Neutral c) (hd : Neutral d) :
    Alike (front ++ c :: s) (front ++ d :: s')

/-- A neutral byte that ends a token of this kind. -/
def Ends (kind : TokenKind) (c : UInt8) : Prop :=
  Neutral c ∧ match kind with
    | .identifier | .keyword => isNamePart c = false ∧ c ≠ '\\'.toUInt8
    | .number .. | .regExp => isNamePart c = false
    | _ => True

/-- A neutral byte that can neither be in a name nor begin an escape ends every token. -/
lemma Ends.of_outside (hneutral : Neutral c) (hname : isNamePart c = false ∧ c ≠ '\\'.toUInt8) : Ends kind c := by
  apply And.intro hneutral
  cases kind with
  | identifier | keyword => exact hname
  | number | regExp => exact hname.1
  | string | template | punctuator | endOfFile => trivial

/-- A token of this kind that goes before one text goes before the other as well. -/
def Follows (kind : TokenKind) (rest after : Text) : Prop := (∀ c ∈ after.head?, Ends kind c) ∨ Alike rest after

lemma Alike.head?_eq (h : Alike rest after) : after.head? = rest.head? := by
  cases h with
  | @intro front s s' c d hne =>
    obtain ⟨e, front, rfl⟩ := List.exists_cons_of_ne_nil hne
    rfl

lemma Follows.goesOn {ends : UInt8 → Prop} (h : Follows kind rest after) (hends : ∀ c, Ends kind c → ends c) :
    GoesOn ends rest after := by
  intro c hc
  cases h with
  | inl h => exact .inl (hends c (h c hc))
  | inr h => exact .inr (h.head?_eq ▸ hc)

lemma not_neutral_of_mem {p : Text} (hp : p ∈ punctuators) (hc : c ∈ p) : ¬ Neutral c := fun h => h.2 p hp hc

/-! ### Words -/

lemma of_takeWhile_length (h : ((t ++ rest).takeWhile p).length = t.length) :
    (∀ x ∈ t, p x = true) ∧ ∀ c ∈ rest.head?, p c = false := by
  have hbegins : (t ++ rest).takeWhile p = t :=
    (List.prefix_of_prefix_length_le (List.takeWhile_prefix p) (List.prefix_append t rest)
      (Nat.le_of_eq h)).eq_of_length h
  have hall : ∀ x ∈ t, p x = true := fun x hx => List.mem_takeWhile_imp (hbegins ▸ hx)
  apply And.intro hall
  intro c hc
  obtain ⟨more, rfl⟩ := List.head?_eq_some_iff.mp hc
  rw [List.takeWhile_append_of_pos hall] at hbegins
  by_contra htrue
  rw [List.takeWhile_cons_of_pos (by simpa using htrue)] at hbegins
  simp at hbegins

/-- A word that is read in front of a text. -/
lemma of_word (hstart : isNameStart c = true ∨ c = '#'.toUInt8) (h : word (c :: t ++ rest) = .ok (kind, (c :: t).length)) :
    IsWord (c :: t) ∧ EndsWord rest := by
  rw [List.cons_append] at h
  obtain ⟨lead, body, hs, hlead, hbegin, hsize, hfree⟩ := word_eq_ok hstart h
  obtain ⟨name, htext, rfl⟩ : ∃ name, c :: t = lead ++ name ∧ body = name ++ rest := by
    obtain rfl | rfl := hlead
    · exact ⟨c :: t, rfl, hs.symm⟩
    · obtain ⟨rfl, rfl⟩ := List.cons.inj hs
      exact ⟨t, rfl, rfl⟩
  rw [htext, List.length_append] at hsize
  obtain ⟨hall, hend⟩ := of_takeWhile_length (Nat.add_left_cancel hsize)
  constructor
  · cases name with
    | nil =>
      cases rest with
      | nil => cases hbegin
      | cons d rest =>
        have hpart := hend d rfl
        rw [isNamePart_of_start hbegin] at hpart
        cases hpart
    | cons d name => exact ⟨lead, d, name, htext, hlead, hbegin, fun x hx => hall x (List.mem_cons_of_mem d hx)⟩
  · intro d hd
    apply And.intro (hend d hd)
    have hrest : (c :: (t ++ rest)).drop (c :: t).length = rest := List.drop_left
    rw [hrest, beginsWith, Option.mem_def.mp hd] at hfree
    simpa using hfree

lemma endsWord_of_follows (h : Follows kind rest after) (hkind : kind = .identifier ∨ kind = .keyword)
    (hrest : EndsWord rest) : EndsWord after := by
  intro c hc
  cases h with
  | inl h =>
    have hends := (h c hc).2
    obtain rfl | rfl := hkind <;> exact hends
  | inr h => exact hrest c (h.head?_eq ▸ hc)

/-- A word is read in front of any text that does not carry it on. -/
lemma word_follows (hstart : isNameStart c = true ∨ c = '#'.toUInt8)
    (hread : word (c :: t ++ rest) = .ok (kind, (c :: t).length)) (h : Follows kind rest after) :
    word (c :: t ++ after) = .ok (kind, (c :: t).length) ∧ IsWord (c :: t) ∧ EndsWord after := by
  obtain ⟨hword, hrest⟩ := of_word hstart hread
  have hkind : kind = if isReservedWord (c :: t) then .keyword else .identifier :=
    (Prod.mk.inj (Except.ok.inj (hread.symm.trans (word_append hword hrest)))).1
  have hafter : EndsWord after := by
    apply endsWord_of_follows h _ hrest
    rw [hkind]
    split <;> simp
  rw [hkind]
  exact ⟨word_append hword hafter, hword, hafter⟩

/-! ### Punctuators -/

lemma isPrefix_append_cons_iff {q : Text} (hc : c ∉ q) : q <+: t ++ c :: s ↔ q <+: t := by
  constructor
  · intro h
    obtain hshort | ⟨more, rfl⟩ := List.prefix_or_prefix_of_prefix h (List.prefix_append t (c :: s))
    · exact hshort
    · cases more with
      | nil => simp
      | cons e more =>
        rw [List.prefix_append_right_inj, List.cons_prefix_cons] at h
        exact absurd (by simp [h.1]) hc
  · exact fun h => h.trans (List.prefix_append ..)

/-- A punctuator is looked for in front of the first neutral byte, behind two others. -/
lemma punctuator_congr {s' : Text} (hc : Neutral c) (hd : Neutral d) (ht : 2 ≤ t.length) :
    punctuator (t ++ c :: s) = punctuator (t ++ d :: s') := by
  have hdigit : beginsWith ((t ++ c :: s).drop 2) Byte.isDigit = beginsWith ((t ++ d :: s').drop 2) Byte.isDigit := by
    rw [List.drop_append_of_le_length ht, List.drop_append_of_le_length ht]
    cases t.drop 2 with
    | nil => simp [beginsWith, hc.1, hd.1]
    | cons e more => rfl
  have hfits : ∀ q ∈ punctuators, (q.isPrefixOf (t ++ c :: s) &&
      !(q == ("?." : Text) && beginsWith ((t ++ c :: s).drop 2) Byte.isDigit)) = (q.isPrefixOf (t ++ d :: s') &&
        !(q == ("?." : Text) && beginsWith ((t ++ d :: s').drop 2) Byte.isDigit)) := by
    intro q hq
    rw [hdigit]
    congr 1
    rw [Bool.eq_iff_iff, List.isPrefixOf_iff_prefix, List.isPrefixOf_iff_prefix, isPrefix_append_cons_iff (hc.2 q hq),
      isPrefix_append_cons_iff (hd.2 q hq)]
  have hhead : (t ++ c :: s).headD 0 = (t ++ d :: s').headD 0 := by
    obtain ⟨e, t, rfl⟩ := List.exists_cons_of_length_pos (Nat.lt_of_lt_of_le Nat.two_pos ht)
    rfl
  simp only [punctuator, List.find?_congr hfits, hhead]

lemma of_punctuator (h : punctuator (t ++ rest) = .ok (kind, t.length)) :
    t ∈ punctuators ∧ kind = .punctuator ∧ (t = "?." → ∀ c ∈ rest.head?, Byte.isDigit c = false) := by
  rw [punctuator] at h
  split at h
  next p hfind =>
    obtain ⟨rfl, hlength⟩ := Prod.mk.inj (Except.ok.inj h)
    have hfits := List.find?_some hfind
    obtain ⟨hbegins, hquestion⟩ := Bool.and_eq_true_iff.mp hfits
    obtain rfl : p = t :=
      (List.prefix_of_prefix_length_le (List.isPrefixOf_iff_prefix.mp hbegins) (List.prefix_append t rest)
        (Nat.le_of_eq hlength)).eq_of_length hlength
    refine ⟨List.mem_of_find?_eq_some hfind, rfl, ?_⟩
    intro hmark c hc
    obtain ⟨more, rfl⟩ := List.head?_eq_some_iff.mp hc
    have htwo : ("?." ++ c :: more : Text).drop 2 = c :: more := rfl
    simpa [hmark, htwo, beginsWith] using hquestion
  next => cases h

lemma not_mem_extensions {p : Text} (hc : Neutral c) : c ∉ extensions p := by
  intro hmem
  obtain ⟨q, hq, rfl⟩ := List.mem_map.mp hmem
  obtain ⟨hq, hlonger⟩ := List.mem_filter.mp hq
  obtain ⟨hbegins, hne⟩ := Bool.and_eq_true_iff.mp hlonger
  have hbegins := List.isPrefixOf_iff_prefix.mp hbegins
  have hlt : p.length < q.length := by
    apply Nat.lt_of_le_of_ne hbegins.length_le
    intro hlength
    simp [hbegins.eq_of_length hlength] at hne
  apply hc.2 q hq
  rw [List.getD_eq_getElem?_getD, List.getElem?_eq_getElem hlt]
  exact List.getElem_mem hlt

/-- A punctuator is read in front of any text that does not carry it on. -/
lemma punctuator_follows (hne : t ≠ []) (hread : punctuator (t ++ rest) = .ok (kind, t.length))
    (h : Follows kind rest after) : punctuator (t ++ after) = .ok (kind, t.length) := by
  cases h with
  | inl h =>
    obtain ⟨ht, rfl, -⟩ := of_punctuator hread
    apply punctuator_append ht
    · exact fun c hc => not_mem_extensions (h c hc).1
    · exact fun _ c hc => (h c hc).1.1
  | inr h =>
    cases h with
    | @intro front s s' c d hfront hc hd =>
      have hlong : 2 ≤ (t ++ front).length := by
        rw [List.length_append]
        exact Nat.add_le_add (List.length_pos_iff.mpr hne) (List.length_pos_iff.mpr hfront)
      rw [← List.append_assoc] at hread ⊢
      rw [← punctuator_congr hc hd hlong, hread]

/-! ### Tokens -/

lemma of_number (h : number s = .ok (kind, n)) :
    ∃ v size isBigInt, numberValue s = .ok (v, size) ∧ size ≤ n ∧ kind = .number v isBigInt := by
  rw [number] at h
  split at h
  · cases h
  next v size hvalue =>
    dsimp only at h
    generalize htotal : (if beginsWith (s.drop size) (· == 'n'.toUInt8) then size + 1 else size) = total at h
    split at h
    · cases h
    · obtain ⟨rfl, rfl⟩ := Prod.mk.inj (Except.ok.inj h)
      refine ⟨v, size, _, hvalue, ?_, rfl⟩
      rw [← htotal]
      split
      · exact Nat.le_succ size
      · exact Nat.le_refl size

lemma kind_of_regExp (h : regExp s = .ok (kind, n)) : kind = .regExp := by
  rw [regExp] at h
  cases hbody : regExpBody false 1 s.tail with
  | error e => simp [hbody, Except.map] at h
  | ok size =>
    rw [hbody] at h
    exact (Prod.mk.inj (Except.ok.inj h)).1.symm

/-- A number that begins with its point has a digit behind it. -/
lemma one_lt_of_point (hdigit : beginsWith s Byte.isDigit = true) (h : number ('.'.toUInt8 :: s) = .ok (kind, n)) :
    1 < n := by
  have hdecimal : numberValue ('.'.toUInt8 :: s) = decimal ('.'.toUInt8 :: s) := rfl
  have hfraction : 1 ≤ (digitRun s).length := by
    cases s with
    | nil => cases hdigit
    | cons c s =>
      have hc : (Byte.isDigit c || c == underscore) = true := by
        rw [show Byte.isDigit c = true from hdigit, Bool.true_or]
      rw [digitRun, List.takeWhile_cons_of_pos (p := fun c => Byte.isDigit c || c == underscore) hc]
      exact Nat.le_add_left ..
  obtain ⟨v, size, -, hvalue, hle, -⟩ := of_number h
  rw [hdecimal, decimal] at hvalue
  have hwhole : digitRun ('.'.toUInt8 :: s) = [] := rfl
  have hpoint : beginsWith (('.'.toUInt8 :: s).drop 0) (· == '.'.toUInt8) = true := rfl
  simp only [hwhole, List.length_nil, hpoint, if_true] at hvalue
  rw [Nat.zero_add, List.drop_one, List.tail_cons] at hvalue
  split at hvalue
  · cases hvalue
  · obtain ⟨-, rfl⟩ := Prod.mk.inj (Except.ok.inj hvalue)
    omega

/-- Whether a point begins a number is told by the byte behind it, in both texts. -/
lemma beginsNumber_append (h : GoesOn (Byte.isDigit · = false) rest after)
    (hfalse : (Byte.isDigit c || (c == '.'.toUInt8 && beginsWith (t ++ rest) Byte.isDigit)) = false) :
    (Byte.isDigit c || (c == '.'.toUInt8 && beginsWith (t ++ after) Byte.isDigit)) = false := by
  obtain ⟨hdigit, hpoint⟩ := Bool.or_eq_false_iff.mp hfalse
  rw [hdigit, Bool.false_or]
  obtain hne | hrest := Bool.and_eq_false_iff.mp hpoint
  · rw [hne, Bool.false_and]
  · rw [h.beginsWith_eq_false (fun c hc => by simp [hc]) hrest, Bool.and_false]

/-- A token is read in front of any text that does not carry it on. -/
theorem token_follows (hne : t ≠ []) (hread : token previous (t ++ rest) = .ok (kind, t.length))
    (h : Follows kind rest after) : token previous (t ++ after) = .ok (kind, t.length) := by
  have hdigit : GoesOn (Byte.isDigit · = false) rest after := h.goesOn fun c hc => hc.1.1
  obtain ⟨c, t, rfl⟩ := List.exists_cons_of_ne_nil hne
  rw [List.cons_append, token_cons] at hread ⊢
  split at hread
  next hstart =>
    rw [if_pos hstart]
    exact (word_follows (by simpa using hstart) hread h).1
  next hstart =>
  rw [if_neg hstart]
  split at hread
  next hnumber =>
    have hends : GoesOn EndsNumber rest after := by
      obtain ⟨v, -, isBigInt, -, -, rfl⟩ := of_number hread
      apply h.goesOn
      intro d hd
      refine ⟨hd.2, ?_⟩
      rintro rfl
      exact absurd hd.1 (by decide)
    have hnumber' : (Byte.isDigit c || (c == '.'.toUInt8 && beginsWith (t ++ after) Byte.isDigit)) = true := by
      cases t with
      | cons d t => exact hnumber
      | nil =>
        obtain hc | hpoint := Bool.or_eq_true_iff.mp hnumber
        · rw [hc, Bool.true_or]
        · obtain ⟨hc, hfirst⟩ := Bool.and_eq_true_iff.mp hpoint
          obtain rfl := eq_of_beq hc
          exact absurd (one_lt_of_point hfirst hread) (Nat.lt_irrefl 1)
    rw [if_pos hnumber']
    exact number_append hends hne hread
  next hnumber =>
  rw [Bool.not_eq_true] at hnumber
  rw [beginsNumber_append hdigit hnumber, if_neg Bool.false_ne_true]
  split at hread
  next hquote =>
    rw [if_pos hquote]
    exact string_append (by simpa using hquote) hread after
  next hquote =>
  rw [if_neg hquote]
  split at hread
  next htick =>
    rw [if_pos htick]
    exact template_append hread after
  next htick =>
  rw [if_neg htick]
  split at hread
  next hslash =>
    rw [if_pos hslash]
    obtain rfl := kind_of_regExp hread
    exact regExp_append (h.goesOn fun c hc => hc.2) hread
  next hslash =>
    rw [if_neg hslash]
    exact punctuator_follows hne hread h

/-! ### Gaps -/

/-- Behind a gap there is no gap. -/
lemma gap_drop {comments : List Text} (h : gap s = .ok (comments, n)) : gap (s.drop n) = .ok ([], 0) := by
  fun_induction gap s generalizing comments n with
  | case1 =>
    obtain ⟨-, rfl⟩ := Prod.mk.inj (Except.ok.inj h)
    exact gap_nil
  | case2 c rest m hblank ih =>
    obtain ⟨k, hgap, rfl⟩ := shift_eq_ok h
    rw [drop_later]
    exact ih hgap
  | case3 | case5 => cases h
  | case4 c rest hblank hcomment =>
    obtain ⟨-, rfl⟩ := Prod.mk.inj (Except.ok.inj h)
    exact gap_eq_nil hblank hcomment
  | case6 c rest hblank m hcomment later size hlater ih =>
    obtain ⟨rfl, rfl⟩ := Prod.mk.inj (Except.ok.inj h)
    obtain ⟨k, hgap, rfl⟩ := shift_eq_ok hlater
    rw [drop_later]
    exact ih hgap

lemma blankLength_append (b : Text) (h : b ∈ blanks) (s : Text) : blankLength (b ++ s) = b.length := by
  simp only [blanks, List.mem_cons, List.not_mem_nil, or_false] at h
  obtain rfl | rfl | rfl | rfl | rfl | rfl | rfl | rfl := h <;> rfl

lemma gap_blank_append (b : Text) (h : b ∈ blanks) (s : Text) : gap (b ++ s) = shift b.length (gap s) := by
  have hlength := blankLength_append b h s
  have hpos : ∀ b ∈ blanks, b ≠ [] := by decide
  obtain ⟨c, b, rfl⟩ := List.exists_cons_of_ne_nil (hpos b h)
  rw [List.cons_append] at hlength ⊢
  rw [gap]
  split
  next n hn =>
    obtain rfl : b.length = n := Nat.succ.inj (hlength.symm.trans hn)
    rw [List.drop_left]
    rfl
  next hzero => cases hlength.symm.trans hzero

lemma gap_comment_append {comment : Text} {comments : List Text} (hne : comment ≠ [])
    (hblank : blankLength (comment ++ s) = 0) (hcomment : commentLength (comment ++ s) = .ok comment.length)
    (h : gap s = .ok (comments, n)) : gap (comment ++ s) = .ok (comment :: comments, comment.length + n) := by
  obtain ⟨c, comment, rfl⟩ := List.exists_cons_of_ne_nil hne
  rw [List.cons_append] at hblank hcomment ⊢
  rw [gap]
  simp only [hblank, hcomment, List.length_cons, List.drop_left, h, shift, List.take_succ_cons, List.take_left]

lemma blockCommentBody_append {inside : Text} (m : Nat)
    (hinside : ¬ List.IsInfix ("*/" : Text) (inside ++ ("*" : Text))) :
    blockCommentBody m (inside ++ ("*/" ++ s)) = .ok (m + inside.length + 2) := by
  have hclosing : ("*/" : Text) = ['*'.toUInt8, '/'.toUInt8] := by decide
  have hstar : ("*" : Text) = ['*'.toUInt8] := by decide
  rw [hclosing, hstar] at hinside
  induction inside generalizing m with
  | nil => rfl
  | cons c inside ih =>
    have hgoes : ¬ (c == '*'.toUInt8 && (inside ++ ("*/" ++ s)).head? == some '/'.toUInt8) = true := by
      intro hends
      obtain ⟨hc, hslash⟩ := Bool.and_eq_true_iff.mp hends
      apply hinside
      cases inside with
      | nil => cases hslash
      | cons d inside =>
        rw [eq_of_beq hc, Option.some.inj (eq_of_beq hslash)]
        exact (List.prefix_append ..).isInfix
    rw [List.cons_append, blockCommentBody, if_neg hgoes, ih, List.length_cons, Nat.add_right_comm m 1, Nat.add_assoc m]
    exact fun h => hinside (h.trans (List.suffix_cons c _).isInfix)

lemma commentLength_line {comment : Text} (hopening : List.IsPrefix ("//" : Text) comment) (hinside : lineFeed ∉ comment)
    (hend : EndsLine s) : commentLength (comment ++ s) = .ok comment.length := by
  have hslashes : Text.startsWith (comment ++ s) "//" = true :=
    List.isPrefixOf_iff_prefix.mpr (hopening.trans (List.prefix_append ..))
  have hline : (comment ++ s).takeWhile (· != '\n'.toUInt8) = comment := IsGap.lineComment_eq hinside hend
  rw [commentLength, if_pos hslashes, hline]

lemma commentLength_block {inside : Text} (hinside : ¬ List.IsInfix ("*/" : Text) (inside ++ ("*" : Text))) :
    commentLength ("/*" ++ inside ++ "*/" ++ s) = .ok ("/*" ++ inside ++ "*/" : Text).length := by
  have hsplit : ("/*" ++ inside ++ "*/" ++ s : Text) = '/'.toUInt8 :: '*'.toUInt8 :: (inside ++ ("*/" ++ s)) := by
    rw [List.append_assoc, List.append_assoc]
    rfl
  have hlength : ("/*" ++ inside ++ "*/" : Text).length = 2 + inside.length + 2 := by
    rw [List.length_append, List.length_append]
    rfl
  have hline : Text.startsWith ('/'.toUInt8 :: '*'.toUInt8 :: (inside ++ ("*/" ++ s))) "//" = false := rfl
  have hopening : Text.startsWith ('/'.toUInt8 :: '*'.toUInt8 :: (inside ++ ("*/" ++ s))) "/*" = true := rfl
  rw [hsplit, commentLength, hline, hopening, hlength]
  exact blockCommentBody_append 2 hinside

/-- A gap is found in front of a text that no gap begins. -/
lemma gap_of_isGap {g : Text} {comments : List Text} (h : IsGap g after comments) (hafter : gap after = .ok ([], 0)) :
    gap (g ++ after) = .ok (comments, g.length) := by
  induction h with
  | empty => exact hafter
  | @blank b g after comments hblank h ih =>
    rw [List.append_assoc, gap_blank_append b hblank, ih hafter, shift, List.length_append]
  | @lineComment comment g after comments hopening hinside hend h ih =>
    have hlength := commentLength_line hopening hinside hend
    obtain ⟨more, rfl⟩ := hopening
    have hne : ("//" ++ more : Text) ≠ [] := List.append_ne_nil_of_left_ne_nil (by decide) more
    rw [List.append_assoc, gap_comment_append hne rfl hlength (ih hafter)]
    simp only [List.length_append]
  | @blockComment inside g after comments hinside h ih =>
    have hne : ("/*" ++ inside ++ "*/" : Text) ≠ [] := List.append_ne_nil_of_right_ne_nil _ (by decide)
    rw [List.append_assoc, gap_comment_append hne rfl (commentLength_block hinside) (ih hafter)]
    simp only [List.length_append]

/-- A gap is one in front of any text, unless a line comment reaches to its end. -/
lemma isGap_congr {g : Text} {comments : List Text} (h : IsGap g rest comments) (hline : ¬ EndsLine rest)
    (after : Text) : IsGap g after comments := by
  induction h with
  | empty => exact .empty after
  | blank hblank h ih => exact .blank hblank (ih hline)
  | @lineComment comment g rest comments hopening hinside hend h ih =>
    apply IsGap.lineComment hopening hinside _ (ih hline)
    cases g with
    | nil => exact absurd hend hline
    | cons c g => exact hend
  | blockComment hinside h ih => exact .blockComment hinside (ih hline)

/-- A gap ends before its token, whatever that is. -/
lemma gap_append {g : Text} {comments : List Text} (hne : rest ≠ []) (h : gap (g ++ rest) = .ok (comments, g.length))
    (hafter : gap after = .ok ([], 0)) : gap (g ++ after) = .ok (comments, g.length) := by
  have hgap := (gap_isGap h).2
  have hrest := gap_drop h
  rw [List.take_left, List.drop_left] at hgap
  rw [List.drop_left] at hrest
  apply gap_of_isGap _ hafter
  apply isGap_congr hgap
  intro hline
  obtain ⟨c, more, rfl⟩ := List.exists_cons_of_ne_nil hne
  obtain rfl := hline c rfl
  cases (of_gap_zero hrest).2

/-! ### Where no gap begins -/

lemma not_comment_of_gap_zero {comments : List Text} (h : gap ('/'.toUInt8 :: s) = .ok (comments, 0)) :
    ∀ d ∈ s.head?, d ≠ '/'.toUInt8 ∧ d ≠ '*'.toUInt8 := by
  have hcomment : commentLength ('/'.toUInt8 :: s) = .ok 0 := by
    rw [gap] at h
    split at h
    · exact absurd h shift_ne_zero
    · split at h
      · cases h
      next hzero => exact hzero
      · split at h
        · cases h
        next hshift =>
          obtain ⟨-, rfl⟩ := Prod.mk.inj (Except.ok.inj h)
          exact absurd hshift shift_ne_zero
  intro d hd
  obtain ⟨more, rfl⟩ := List.head?_eq_some_iff.mp hd
  constructor
  · rintro rfl
    cases hcomment
  · rintro rfl
    have hblock : commentLength ('/'.toUInt8 :: '*'.toUInt8 :: more) = blockCommentBody 2 more := rfl
    obtain ⟨inside, -, -, hsize, -⟩ := blockCommentBody_eq_ok (hblock ▸ hcomment)
    omega

lemma blankLength_eq_zero_of_append (h : blankLength (t ++ rest) = 0) : blankLength t = 0 := by
  by_contra hne
  obtain ⟨n, hn⟩ := Nat.exists_eq_succ_of_ne_zero hne
  obtain ⟨hmem, hle⟩ := take_blankLength hn
  have hlength := blankLength_append _ hmem (t.drop (n + 1) ++ rest)
  rw [← List.append_assoc, List.take_append_drop, h, List.length_take, Nat.min_eq_left hle] at hlength
  cases hlength

lemma isBlank_of_blankLength (h : blankLength (c :: s) = 0) : Byte.isBlank c = false := by
  unfold blankLength at h
  split at h
  · cases h
  · cases h
  next heq =>
    obtain ⟨rfl, -⟩ := List.cons.inj heq
    rw [← Bool.not_eq_true]
    intro hblank
    rw [if_pos hblank] at h
    cases h
  next heq => cases heq

lemma lt_of_not_wordStart : ∀ c, ¬ (isNameStart c = true ∨ c = '#'.toUInt8) → c < 0x80 :=
  Byte.forall_of_lt (by decide +kernel)

/-- No gap begins at a token, whatever text is behind it. -/
lemma gap_follows (hne : t ≠ []) (hread : token previous (t ++ rest) = .ok (kind, t.length))
    (hgap : gap (t ++ rest) = .ok ([], 0)) (h : Follows kind rest after) : gap (t ++ after) = .ok ([], 0) := by
  have hblank := (of_gap_zero hgap).2
  obtain ⟨c, t, rfl⟩ := List.exists_cons_of_ne_nil hne
  by_cases hstart : isNameStart c = true ∨ c = '#'.toUInt8
  · rw [List.cons_append, token_word hstart, ← List.cons_append] at hread
    obtain ⟨-, hword, hafter⟩ := word_follows hstart hread h
    have hslash : c ≠ '/'.toUInt8 := by
      rintro rfl
      revert hstart
      decide
    apply gap_word hword _ hafter
    apply gap_eq_nil (blankLength_eq_zero_of_append hblank)
    exact commentLength_eq_zero fun hc => absurd hc hslash
  · have hascii := lt_of_not_wordStart c hstart
    apply gap_of_ascii (isBlank_of_blankLength hblank) hascii
    rintro rfl
    have hnot := not_comment_of_gap_zero hgap
    cases t with
    | cons d t => exact hnot
    | nil =>
      intro d hd
      cases h with
      | inl h =>
        have hneutral := (h d hd).1
        constructor
        · rintro rfl
          exact not_neutral_of_mem (p := "/") (by decide) (by decide) hneutral
        · rintro rfl
          exact not_neutral_of_mem (p := "*") (by decide) (by decide) hneutral
      | inr h => exact hnot d (h.head?_eq ▸ hd)

end Scan

end PlainScript
