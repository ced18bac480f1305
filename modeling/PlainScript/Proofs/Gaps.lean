import PlainScript.Proofs.Munch
import Mathlib.Data.List.Infix

/-! What stands between tokens. A gap is made of blanks and comments, and what is collected from it are its
comments in their order. -/
namespace PlainScript

/-- The byte that ends a line. -/
abbrev lineFeed : UInt8 := '\n'.toUInt8

/-- The blanks: six bytes of ASCII, the no-break space and the byte order mark. -/
def blanks : List Text :=
  [[0x20], [0x09], [0x0A], [0x0B], [0x0C], [0x0D], [0xC2, 0xA0], [0xEF, 0xBB, 0xBF]]

/-- Here a line ends, or the whole text. -/
def EndsLine (after : Text) : Prop := ∀ c ∈ after.head?, c = lineFeed

/-- A gap with its comments, given the text after it. A comment goes on to the end of its line, or to the first
`*/` behind its opening. -/
inductive IsGap : (gap after : Text) → (comments : List Text) → Prop
  | empty (after : Text) : IsGap [] after []
  | blank {b gap after : Text} {comments : List Text} (hblank : b ∈ blanks) (h : IsGap gap after comments) :
      IsGap (b ++ gap) after comments
  | lineComment {comment gap after : Text} {comments : List Text} (hopening : List.IsPrefix ("//" : Text) comment)
      (hinside : lineFeed ∉ comment) (hend : EndsLine (gap ++ after)) (h : IsGap gap after comments) :
      IsGap (comment ++ gap) after (comment :: comments)
  | blockComment {inside gap after : Text} {comments : List Text}
      (hinside : ¬ List.IsInfix ("*/" : Text) (inside ++ ("*" : Text))) (h : IsGap gap after comments) :
      IsGap ("/*" ++ inside ++ "*/" ++ gap) after (("/*" ++ inside ++ "*/") :: comments)

namespace IsGap

variable {gap after : Text} {comments : List Text}

/-- The first two bytes tell a blank, a line comment and a block comment from each other. -/
def opening (s : Text) : Nat :=
  if s.head? = none then 0
  else if s.head? ≠ some '/'.toUInt8 then 1
  else if s[1]? = some '/'.toUInt8 then 2
  else 3

lemma opening_blank {b : Text} (hb : b ∈ blanks) : opening (b ++ gap) = 1 := by
  have hfirst : ∀ b ∈ blanks, b ≠ [] ∧ b.head? ≠ some '/'.toUInt8 := by decide
  obtain ⟨hne, hslash⟩ := hfirst b hb
  obtain ⟨c, rest, rfl⟩ := List.exists_cons_of_ne_nil hne
  simp [opening, show c ≠ '/'.toUInt8 by simpa using hslash]

lemma opening_lineComment {comment : Text} (h : List.IsPrefix ("//" : Text) comment) :
    opening (comment ++ gap) = 2 := by
  obtain ⟨rest, rfl⟩ := h
  rfl

lemma eq_of_blanks : ∀ b ∈ blanks, ∀ d ∈ blanks, b <+: d → b = d := by decide

lemma blank_unique {b d rest more : Text} (hb : b ∈ blanks) (hd : d ∈ blanks) (h : b ++ rest = d ++ more) :
    b = d ∧ rest = more := by
  have heq : b = d := by
    obtain hprefix | hprefix := List.prefix_or_prefix_of_prefix (List.prefix_append b rest)
      (h ▸ List.prefix_append d more)
    · exact eq_of_blanks b hb d hd hprefix
    · exact (eq_of_blanks d hd b hb hprefix).symm
  subst heq
  exact ⟨rfl, List.append_cancel_left h⟩

/-- A line comment is what stands before the next line feed. -/
lemma lineComment_eq {comment : Text} (hinside : lineFeed ∉ comment) (hend : EndsLine after) :
    (comment ++ after).takeWhile (· != lineFeed) = comment := by
  rw [List.takeWhile_append_of_pos (fun c hc => by simpa using fun heq : c = lineFeed => hinside (heq ▸ hc))]
  cases after with
  | nil => simp
  | cons c rest => simp [hend c rfl]

/-- Of two block comments in front of one text, neither ends first. -/
lemma length_le_of_blockComment {inside other rest more : Text}
    (hother : ¬ List.IsInfix ("*/" : Text) (other ++ ("*" : Text)))
    (h : inside ++ ("*/" ++ rest) = other ++ ("*/" ++ more)) : other.length ≤ inside.length := by
  by_contra hlt
  have hclosing : Text.ofString "*/" = Text.ofString "*" ++ Text.ofString "/" := by decide
  have hprefix : inside ++ ("*/" : Text) <+: other ++ ("*" : Text) := by
    have hwhole : inside ++ ("*/" : Text) <+: inside ++ ("*/" ++ rest) := by
      rw [← List.append_assoc]
      exact List.prefix_append ..
    refine List.prefix_of_prefix_length_le hwhole ?_ ?_
    · rw [h, hclosing, List.append_assoc, ← List.append_assoc]
      exact List.prefix_append ..
    · have hone : (Text.ofString "*").length = 1 := by decide
      have htwo : (Text.ofString "*/").length = 2 := by decide
      rw [List.length_append, List.length_append, hone, htwo]
      omega
  exact hother ((List.suffix_append inside _).isInfix.trans hprefix.isInfix)

lemma blockComment_unique {inside other rest more : Text}
    (hinside : ¬ List.IsInfix ("*/" : Text) (inside ++ ("*" : Text)))
    (hother : ¬ List.IsInfix ("*/" : Text) (other ++ ("*" : Text)))
    (h : "/*" ++ inside ++ "*/" ++ rest = "/*" ++ other ++ "*/" ++ more) : inside = other ∧ rest = more := by
  simp only [List.append_assoc] at h
  have h := List.append_cancel_left h
  have hlength : inside.length = other.length :=
    Nat.le_antisymm (length_le_of_blockComment hinside h.symm) (length_le_of_blockComment hother h)
  obtain ⟨rfl, hrest⟩ := List.append_inj h hlength
  exact ⟨rfl, List.append_cancel_left hrest⟩

/-- The text of a gap determines its comments. -/
theorem unique {others : List Text} (h : IsGap gap after comments) (hothers : IsGap gap after others) :
    comments = others := by
  induction h generalizing others with
  | empty after =>
    generalize hgap : ([] : Text) = gap at hothers
    have hopening := congrArg opening hgap
    cases hothers with
    | empty => rfl
    | blank hblank => rw [opening_blank hblank] at hopening; cases hopening
    | lineComment h => rw [opening_lineComment h] at hopening; cases hopening
    | blockComment => cases hopening
  | @blank b gap after comments hblank h ih =>
    generalize hgap : b ++ gap = whole at hothers
    have hopening := congrArg opening hgap
    rw [opening_blank hblank] at hopening
    cases hothers with
    | empty => cases hopening
    | blank hother hrest =>
      obtain ⟨rfl, rfl⟩ := blank_unique hblank hother hgap
      exact ih hrest
    | lineComment h => rw [opening_lineComment h] at hopening; cases hopening
    | blockComment => cases hopening
  | @lineComment comment gap after comments hstart hinside hend h ih =>
    generalize hgap : comment ++ gap = whole at hothers
    have hopening := congrArg opening hgap
    rw [opening_lineComment hstart] at hopening
    cases hothers with
    | empty => cases hopening
    | blank hother => rw [opening_blank hother] at hopening; cases hopening
    | lineComment hstart' hinside' hend' hrest =>
      have hfirst := congrArg (fun s => (s ++ after).takeWhile (· != lineFeed)) hgap
      simp only [List.append_assoc, lineComment_eq hinside hend, lineComment_eq hinside' hend'] at hfirst
      subst hfirst
      rw [List.append_cancel_left hgap] at ih
      rw [ih hrest]
    | blockComment => cases hopening
  | @blockComment inside gap after comments hinside h ih =>
    generalize hgap : "/*" ++ inside ++ "*/" ++ gap = whole at hothers
    have hopening := congrArg opening hgap
    cases hothers with
    | empty => cases hopening
    | blank hother => rw [opening_blank hother] at hopening; cases hopening
    | lineComment h => rw [opening_lineComment h] at hopening; cases hopening
    | blockComment hother hrest =>
      obtain ⟨rfl, rfl⟩ := blockComment_unique hinside hother hgap
      rw [ih hrest]

end IsGap

namespace Scan

lemma take_isBlank : ∀ c, Byte.isBlank c = true → [c] ∈ blanks :=
  Byte.forall_of_lt (by decide +kernel)

/-- What is skipped as a blank is one. -/
lemma take_blankLength {s : Text} {n : Nat} (h : blankLength s = n + 1) :
    s.take (n + 1) ∈ blanks ∧ n + 1 ≤ s.length := by
  unfold blankLength at h
  split at h
  · obtain rfl : n = 1 := by omega
    exact ⟨by simp [blanks], by simp⟩
  · obtain rfl : n = 2 := by omega
    exact ⟨by simp [blanks], by simp⟩
  · split at h
    next hblank =>
      obtain rfl : n = 0 := by omega
      exact ⟨by simpa using take_isBlank _ hblank, by simp⟩
    next => cases h
  · cases h

/-- What a text begins with begins its first line, if it is of one line. -/
lemma prefix_firstLine {opening s : Text} (h : opening.isPrefixOf s = true)
    (hline : opening.all (· != lineFeed) = true) : opening <+: s.takeWhile (· != lineFeed) := by
  obtain ⟨rest, rfl⟩ := List.isPrefixOf_iff_prefix.mp h
  rw [List.takeWhile_append_of_pos (List.all_eq_true.mp hline)]
  exact List.prefix_append ..

lemma endsLine_dropWhile (s : Text) : EndsLine (s.dropWhile (· != lineFeed)) := by
  intro c hc
  have hnot := List.head?_dropWhile_not (· != lineFeed) s
  rw [hc] at hnot
  simpa using hnot

/-- A block comment ends at the first `*/`. -/
lemma blockCommentBody_eq_ok {n k : Nat} {s : Text} (h : blockCommentBody n s = .ok k) :
    ∃ inside after : Text, s = inside ++ "*/" ++ after ∧ k = n + (inside.length + 2) ∧
      ¬ List.IsInfix ("*/" : Text) (inside ++ ("*" : Text)) := by
  have hclosing : ("*/" : Text) = ['*'.toUInt8, '/'.toUInt8] := by decide
  have hstar : ("*" : Text) = ['*'.toUInt8] := by decide
  rw [hclosing, hstar]
  induction s generalizing n with
  | nil => cases h
  | cons c rest ih =>
    rw [blockCommentBody] at h
    split at h
    next hends =>
      obtain ⟨hc, hslash⟩ := Bool.and_eq_true_iff.mp hends
      obtain ⟨after, rfl⟩ : ∃ after, rest = '/'.toUInt8 :: after := by
        cases rest with
        | nil => cases hslash
        | cons d after => exact ⟨after, by rw [Option.some.inj (eq_of_beq hslash)]⟩
      refine ⟨[], after, by rw [eq_of_beq hc]; rfl, (Except.ok.inj h).symm, fun hinfix => ?_⟩
      have hlength := hinfix.length_le
      simp at hlength
    next hgoes =>
      obtain ⟨inside, after, rfl, rfl, hinside⟩ := ih h
      refine ⟨c :: inside, after, rfl, by simp only [List.length_cons]; omega, fun hinfix => ?_⟩
      -- The first `*/` begins at `c`, or it stands further inside.
      obtain hhead | htail := List.infix_cons_iff.mp hinfix
      · obtain ⟨rfl, hslash⟩ := List.cons_prefix_cons.mp hhead
        refine hgoes (Bool.and_eq_true_iff.mpr ⟨beq_self_eq_true _, ?_⟩)
        cases inside with
        | nil => exact absurd (List.cons_prefix_cons.mp hslash).1 (by decide)
        | cons d inside => simpa using (List.cons_prefix_cons.mp hslash).1.symm
      · exact hinside htail

/-- A comment in front of a text, with what follows it. -/
lemma commentLength_eq_ok {s : Text} {n : Nat} (h : commentLength s = .ok (n + 1)) :
    n + 1 ≤ s.length ∧ ∀ {gap after : Text} {comments : List Text}, s.drop (n + 1) = gap ++ after →
      IsGap gap after comments → IsGap (s.take (n + 1) ++ gap) after (s.take (n + 1) :: comments) := by
  rw [commentLength] at h
  split at h
  next hopening =>
    have hlength : (s.takeWhile (· != lineFeed)).length = n + 1 := Except.ok.inj h
    have hline : s.take (n + 1) = s.takeWhile (· != lineFeed) := by
      rw [← hlength]
      exact (List.prefix_iff_eq_take.mp (List.takeWhile_prefix _)).symm
    have hrest : s.drop (n + 1) = s.dropWhile (· != lineFeed) := by
      have hsplit : s.takeWhile (· != lineFeed) ++ s.dropWhile (· != lineFeed) = s :=
        List.takeWhile_append_dropWhile
      rw [← hlength]
      exact (congrArg (List.drop _) hsplit.symm).trans List.drop_left
    refine ⟨hlength ▸ (List.takeWhile_prefix _).length_le, fun {gap after comments} hdrop hgap => ?_⟩
    refine .lineComment ?_ ?_ ?_ hgap
    · rw [hline]
      exact prefix_firstLine hopening (by decide)
    · rw [hline]
      exact fun hmem => by simpa using List.mem_takeWhile_imp hmem
    · rw [← hdrop, hrest]
      exact endsLine_dropWhile s
  next =>
    split at h
    next hopening =>
      obtain ⟨rest, rfl⟩ := List.isPrefixOf_iff_prefix.mp hopening
      have htwo : ("/*" : Text).length = 2 := by decide
      rw [← htwo, List.drop_left] at h
      obtain ⟨inside, after, rfl, hn, hinside⟩ := blockCommentBody_eq_ok h
      have hlength : n + 1 = ("/*" ++ inside ++ "*/" : Text).length := by
        have htwo' : ("*/" : Text).length = 2 := by decide
        rw [hn, List.length_append, List.length_append]
        omega
      have hs : "/*" ++ (inside ++ "*/" ++ after) = ("/*" ++ inside ++ "*/" : Text) ++ after := by
        simp only [List.append_assoc]
      rw [hs, hlength, List.take_left, List.drop_left]
      exact ⟨(List.prefix_append _ _).length_le, fun {gap after comments} _ hgap => .blockComment hinside hgap⟩
    next => cases h

lemma drop_later (c : UInt8) (rest : Text) (m n : Nat) :
    (c :: rest).drop (m + 1 + n) = (rest.drop m).drop n := by
  rw [List.drop_drop, Nat.add_right_comm, List.drop_succ_cons]

lemma shift_eq_ok {α : Type} {n k : Nat} {r : Scan α} {a : α} (h : shift n r = .ok (a, k)) :
    ∃ m, r = .ok (a, m) ∧ k = n + m := by
  cases r with
  | error e => cases h
  | ok r =>
    obtain ⟨rfl, rfl⟩ := Prod.mk.inj (Except.ok.inj h)
    exact ⟨r.2, rfl, rfl⟩

/-- The scanner of gaps finds a gap with its comments. -/
theorem gap_isGap {s : Text} {comments : List Text} {n : Nat} (h : gap s = .ok (comments, n)) :
    n ≤ s.length ∧ IsGap (s.take n) (s.drop n) comments := by
  fun_induction gap s generalizing comments n with
  | case1 =>
    obtain ⟨rfl, rfl⟩ := Prod.mk.inj (Except.ok.inj h)
    exact ⟨Nat.le_refl _, .empty _⟩
  | case2 c rest m hblank ih =>
    obtain ⟨k, hgap, rfl⟩ := shift_eq_ok h
    obtain ⟨hlength, hgap⟩ := ih hgap
    obtain ⟨hmem, hle⟩ := take_blankLength hblank
    rw [List.take_add, List.drop_succ_cons, drop_later]
    refine ⟨?_, .blank hmem hgap⟩
    simp only [List.length_drop, List.length_cons] at hlength hle ⊢
    omega
  | case3 => cases h
  | case4 =>
    obtain ⟨rfl, rfl⟩ := Prod.mk.inj (Except.ok.inj h)
    exact ⟨Nat.zero_le _, .empty _⟩
  | case5 => cases h
  | case6 c rest hblank m hcomment later size hlater ih =>
    obtain ⟨rfl, rfl⟩ := Prod.mk.inj (Except.ok.inj h)
    obtain ⟨k, hgap, rfl⟩ := shift_eq_ok hlater
    obtain ⟨hlength, hgap⟩ := ih hgap
    obtain ⟨hle, hextends⟩ := commentLength_eq_ok hcomment
    rw [List.take_add, List.drop_succ_cons, drop_later]
    refine ⟨?_, hextends (by simp) hgap⟩
    simp only [List.length_drop, List.length_cons] at hlength hle ⊢
    omega

end Scan

end PlainScript
