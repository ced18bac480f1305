import PlainScript.Proofs.Extents
import Mathlib.Data.List.DropRight

/-! The tokens of a source tell where they come from. Each is a slice of the source, what lies between two of
them is a gap, and the comments and the line feeds of a gap are known to the token behind it. -/
namespace PlainScript

/-! ### Lines and columns -/

/-- The position of an offset: the line feeds before it, and the bytes since the last of them. -/
def positionAt (source : Text) (offset : Nat) : Position :=
  let before := source.take offset
  ⟨1 + before.count lineFeed, 1 + (before.rtakeWhile (· != lineFeed)).length⟩

lemma Position.start_after (t : Text) :
    Position.start.after t = ⟨1 + t.count lineFeed, 1 + (t.rtakeWhile (· != lineFeed)).length⟩ := by
  induction t using List.reverseRecOn with
  | nil => rfl
  | append_singleton t c ih =>
    rw [Position.after_append, ih, Position.after_cons, Position.after_nil, Position.next,
      List.rtakeWhile_concat, List.count_append]
    by_cases hc : c = lineFeed
    · subst hc
      simp [lineFeed, Nat.add_assoc]
    · simp [hc, Nat.add_assoc]

/-- A place in the course of reading a source. -/
structure Cursor.IsIn (source : Text) (place : Cursor) : Prop where
  rest_eq : place.rest = source.drop place.offset
  le : place.offset ≤ source.length
  position_eq : place.position = positionAt source place.offset

namespace Cursor.IsIn

variable {source : Text} {place : Cursor} {n : Nat}

lemma take_eq (h : place.IsIn source) (n : Nat) :
    place.rest.take n = source.extract place.offset (place.offset + n) := by
  rw [List.extract_eq_take_drop, Nat.add_sub_cancel_left, h.rest_eq]

lemma add_le (h : place.IsIn source) (hn : n ≤ place.rest.length) : place.offset + n ≤ source.length := by
  have hle := h.le
  rw [h.rest_eq, List.length_drop] at hn
  omega

lemma advance (h : place.IsIn source) (hn : n ≤ place.rest.length) : (place.advance n).IsIn source where
  rest_eq := by
    rw [Cursor.advance_rest, h.rest_eq, List.drop_drop]
    rfl
  le := h.add_le hn
  position_eq := by
    change place.position.after (place.rest.take n) = positionAt source (place.offset + n)
    rw [h.position_eq, positionAt, ← Position.start_after, ← Position.after_append, h.rest_eq,
      ← List.take_add, Position.start_after]
    rfl

end Cursor.IsIn

/-! ### Tokens over a source -/

/-- A token as part of a source, behind what ends at `previous`. -/
structure Token.Stands (source : Text) (previous : Nat) (t : Token) : Prop where
  behind : previous ≤ t.start
  ordered : t.start ≤ t.stop
  inside : t.stop ≤ source.length
  text_eq : t.text = source.extract t.start t.stop
  gap : IsGap (source.extract previous t.start) (source.drop t.start) t.comments
  newline_iff : t.newlineBefore = true ↔ lineFeed ∈ source.extract previous t.start
  position_eq : t.position = positionAt source t.start

/-- The tokens of a source from an offset on. -/
inductive Laid (source : Text) : Nat → List Token → Prop
  | ending {previous : Nat} {t : Token} (h : t.Stands source previous) (hend : t.isEnd = true)
      (hstart : t.start = source.length) : Laid source previous [t]
  | token {previous : Nat} {t : Token} {later : List Token} (h : t.Stands source previous)
      (hkind : t.isEnd = false) (hsize : t.start < t.stop) (hlater : Laid source t.stop later) :
      Laid source previous (t :: later)

lemma Cursor.scan_eq_ok {α : Type} {place : Cursor} {scanner : Text → Scan α} {r : α × Nat}
    (h : place.scan scanner = .ok r) : scanner place.rest = .ok r := by
  rw [Cursor.scan] at h
  split at h
  next hr => rw [hr, Except.ok.inj h]
  next => cases h

/-- Behind a gap, whatever is taken next stands in the source. -/
lemma Cursor.IsIn.stands {source : Text} {place : Cursor} {comments : List Text} {n : Nat}
    (hplace : place.IsIn source) (h : place.scan Scan.gap = .ok (comments, n)) :
    (place.advance n).IsIn source ∧ ∀ kind size, size ≤ (place.advance n).rest.length →
      Token.Stands source place.offset
        { kind, text := (place.advance n).rest.take size, position := (place.advance n).position, comments,
          newlineBefore := (place.rest.take n).contains '\n'.toUInt8,
          start := (place.advance n).offset, stop := (place.advance n).offset + size } := by
  obtain ⟨hle, hgap⟩ := Scan.gap_isGap (Cursor.scan_eq_ok h)
  have hhere : (place.advance n).IsIn source := hplace.advance hle
  refine ⟨hhere, fun kind size hsize => ?_⟩
  refine ⟨Nat.le_add_right .., Nat.le_add_right .., hhere.add_le hsize, hhere.take_eq size, ?_, ?_,
    hhere.position_eq⟩
  · rw [hplace.take_eq] at hgap
    exact hhere.rest_eq ▸ hgap
  · change (place.rest.take n).contains '\n'.toUInt8 = true ↔ _
    rw [List.contains_iff_mem, hplace.take_eq]
    rfl

/-- The tokens read from a place in a source are laid out from there. -/
lemma tokensFrom_laid {source : Text} {previous : Option Token} {place : Cursor} {tokens : List Token}
    (hplace : place.IsIn source) (h : tokensFrom previous place = .ok tokens) :
    Laid source place.offset tokens := by
  fun_induction tokensFrom generalizing tokens with
  | case1 | case3 | case4 => cases h
  | case2 previous place comments gapSize hgap here token =>
    rename_i hrest
    obtain rfl := Except.ok.inj h
    obtain ⟨hhere, hstands⟩ := hplace.stands hgap
    have hend : here.offset = source.length := by
      have hbound : here.offset ≤ source.length := hhere.le
      have hdone : source.drop here.offset = [] := hhere.rest_eq.symm.trans hrest
      exact Nat.le_antisymm hbound (List.drop_eq_nil_iff.mp hdone)
    exact .ending (hstands _ 0 (Nat.zero_le _)) rfl hend
  | case5 previous place comments gapSize hgap here token c rest hrest kind size htoken t next after hafter =>
    rename_i ih
    obtain rfl := Except.ok.inj h
    obtain ⟨hhere, hstands⟩ := hplace.stands hgap
    have htoken := Cursor.scan_eq_ok htoken
    rw [hrest] at htoken
    obtain ⟨hkind, hpos, hsize⟩ := Scan.token_gives htoken
    rw [← hrest] at hsize
    have hdrop : rest.drop (size - 1) = here.rest.drop size := by
      obtain ⟨m, rfl⟩ : ∃ m, size = m + 1 := ⟨size - 1, by omega⟩
      rw [hrest]
      rfl
    have hnext : next = here.advance size := congrArg (Cursor.mk · t.stop (here.position.after t.text)) hdrop
    have hlaid : Laid source next.offset after := ih (hnext ▸ hhere.advance hsize) hafter
    exact .token (hstands kind size hsize) (beq_eq_false_iff_ne.mpr hkind) (Nat.lt_add_of_pos_right hpos) hlaid

namespace Laid

variable {source : Text} {previous : Nat} {t u : Token} {tokens before after : List Token}

/-- Where the tokens end that come before some token. -/
lemma stands (h : Laid source previous (before ++ t :: after)) :
    t.Stands source (before.getLast?.elim previous Token.stop) := by
  induction before generalizing previous with
  | nil =>
    cases h with
    | ending h => exact h
    | token h => exact h
  | cons u before ih =>
    rw [List.cons_append] at h
    generalize hlater : before ++ t :: after = later at h
    cases h with
    | ending => simp at hlater
    | token hu hkind hsize h =>
      have ht := ih (hlater ▸ h)
      rw [List.getLast?_cons]
      cases hlast : before.getLast? with
      | none => rwa [hlast] at ht
      | some v => rwa [hlast] at ht

lemma stands_of_mem (h : Laid source previous tokens) (ht : t ∈ tokens) :
    ∃ from_, previous ≤ from_ ∧ t.Stands source from_ := by
  induction h with
  | ending h =>
    obtain rfl := List.mem_singleton.mp ht
    exact ⟨_, Nat.le_refl _, h⟩
  | token h hkind hsize hlater ih =>
    obtain rfl | ht := List.mem_cons.mp ht
    · exact ⟨_, Nat.le_refl _, h⟩
    · obtain ⟨from_, hle, hstands⟩ := ih ht
      exact ⟨from_, (h.behind.trans h.ordered).trans hle, hstands⟩

lemma ranges (h : Laid source previous tokens) :
    tokens.Pairwise fun t u => t.start < t.stop ∧ t.stop ≤ u.start := by
  induction h with
  | ending h => exact List.pairwise_singleton ..
  | token h hkind hsize hlater ih =>
    refine List.pairwise_cons.mpr ⟨fun u hu => ⟨hsize, ?_⟩, ih⟩
    obtain ⟨from_, hle, hstands⟩ := hlater.stands_of_mem hu
    exact hle.trans hstands.behind

lemma exists_last (h : Laid source previous tokens) :
    ∃ before last, tokens = before ++ [last] ∧ (∀ t ∈ before, t.isEnd = false) ∧ last.isEnd = true ∧
      last.start = source.length ∧ last.stop = source.length := by
  induction h with
  | @ending _ t h hend hstart =>
    exact ⟨[], t, rfl, nofun, hend, hstart, Nat.le_antisymm h.inside (hstart ▸ h.ordered)⟩
  | @token _ t _ h hkind hsize hlater ih =>
    obtain ⟨before, last, rfl, hbefore, hlast⟩ := ih
    exact ⟨t :: before, last, rfl, List.forall_mem_cons.mpr ⟨hkind, hbefore⟩, hlast⟩

end Laid

/-! ### Whole sources -/

/-- A line that names an interpreter, given the text after it. -/
structure IsInterpreterLine (line after : Text) : Prop where
  opening : List.IsPrefix ("#!" : Text) line
  inside : lineFeed ∉ line
  ends : EndsLine after

/-- Tokens that keep everything of a source. -/
structure Lossless (source : Text) (tokens : List Token) : Prop where
  ranges : tokens.Pairwise fun t u => t.start < t.stop ∧ t.stop ≤ u.start
  slices : ∀ t ∈ tokens, t.start ≤ t.stop ∧ t.stop ≤ source.length ∧ t.text = source.extract t.start t.stop
  ending : ∃ before last, tokens = before ++ [last] ∧ (∀ t ∈ before, t.isEnd = false) ∧
    last.isEnd = true ∧ last.start = source.length ∧ last.stop = source.length
  gaps : ∀ before t after, tokens = before ++ t :: after →
    ∃ line gap, source.extract (before.getLast?.elim 0 Token.stop) t.start = line ++ gap ∧
      (line = [] ∨ before = [] ∧ IsInterpreterLine line (gap ++ source.drop t.start)) ∧
      IsGap gap (source.drop t.start) t.comments
  newlines : ∀ before t after, tokens = before ++ t :: after →
    (t.newlineBefore = true ↔ lineFeed ∈ source.extract (before.getLast?.elim 0 Token.stop) t.start)
  positions : ∀ t ∈ tokens, t.position = positionAt source t.start

/-- The first line of a source that names an interpreter, and the rest of the source. -/
lemma exists_interpreterLine (source : Text) :
    ∃ line after, source = line ++ after ∧ interpreterLine source = line.length ∧ lineFeed ∉ line ∧
      (line = [] ∨ IsInterpreterLine line after) := by
  rw [interpreterLine]
  split
  next hopening =>
    have hinside : lineFeed ∉ source.takeWhile (· != lineFeed) :=
      fun hmem => by simpa using List.mem_takeWhile_imp hmem
    refine ⟨source.takeWhile (· != lineFeed), source.dropWhile (· != lineFeed),
      List.takeWhile_append_dropWhile.symm, rfl, hinside, .inr ⟨?_, hinside, Scan.endsLine_dropWhile source⟩⟩
    exact Scan.prefix_firstLine hopening (by decide)
  next => exact ⟨[], source, rfl, rfl, List.not_mem_nil, .inl rfl⟩

/-- In front of the first token stands the line, and then its gap. -/
lemma Token.Stands.first {line after : Text} {t : Token} (h : t.Stands (line ++ after) line.length) :
    (line ++ after).extract 0 t.start = line ++ (line ++ after).extract line.length t.start ∧
      (line ++ after).extract line.length t.start ++ (line ++ after).drop t.start = after := by
  obtain ⟨k, hk⟩ := Nat.exists_eq_add_of_le h.behind
  simp only [List.extract_eq_take_drop, hk, List.drop_zero, Nat.sub_zero, Nat.add_sub_cancel_left,
    List.drop_left, List.take_length_add_append, List.drop_length_add_append, List.take_append_drop, and_self]

/-- The tokens of a source are laid out behind the line that names an interpreter. -/
lemma tokenize_laid {source : Text} {tokens : List Token} (h : tokenize source = .ok tokens) :
    Laid source (interpreterLine source) tokens := by
  obtain ⟨line, after, rfl, hlength, -⟩ := exists_interpreterLine source
  have hstart : (Cursor.mk (line ++ after) 0 .start).IsIn (line ++ after) := ⟨rfl, Nat.zero_le _, rfl⟩
  have hline : interpreterLine (line ++ after) ≤ (line ++ after).length :=
    hlength ▸ (List.prefix_append line after).length_le
  have hread := tokensFrom_laid (hstart.advance hline) h
  rwa [show (Cursor.advance ⟨line ++ after, 0, .start⟩ (interpreterLine (line ++ after))).offset =
    interpreterLine (line ++ after) from Nat.zero_add _] at hread

/-- Tokens keep everything of their source. -/
theorem tokenize_lossless {source : Text} {tokens : List Token} (h : tokenize source = .ok tokens) :
    Lossless source tokens := by
  have hlaid := tokenize_laid h
  obtain ⟨line, after, rfl, hlength, hinside, hline⟩ := exists_interpreterLine source
  rw [hlength] at hlaid
  refine ⟨hlaid.ranges, fun t ht => ?_, hlaid.exists_last, ?_, ?_, fun t ht => ?_⟩
  · obtain ⟨_, -, hstands⟩ := hlaid.stands_of_mem ht
    exact ⟨hstands.ordered, hstands.inside, hstands.text_eq⟩
  · rintro before t later rfl
    have hstands := hlaid.stands
    cases hlast : before.getLast? with
    | none =>
      rw [hlast] at hstands
      obtain ⟨hfront, hrest⟩ := hstands.first
      have hfirst : before = [] := List.getLast?_eq_none_iff.mp hlast
      refine ⟨line, _, hfront, hline.imp_right fun hline => ⟨hfirst, ?_⟩, hstands.gap⟩
      exact hrest.symm ▸ hline
    | some u =>
      rw [hlast] at hstands
      exact ⟨[], _, rfl, .inl rfl, hstands.gap⟩
  · rintro before t later rfl
    have hstands := hlaid.stands
    cases hlast : before.getLast? with
    | none =>
      rw [hlast] at hstands
      exact hstands.newline_iff.trans (by simp [hstands.first.1, hinside])
    | some u =>
      rw [hlast] at hstands
      exact hstands.newline_iff
  · obtain ⟨_, -, hstands⟩ := hlaid.stands_of_mem ht
    exact hstands.position_eq

theorem tokenize_lossless_comment :
    ∃ tokens, tokenize "#!x\na /*b*/\n= 'c'" = .ok tokens ∧ tokens.length = 4 ∧
      Lossless "#!x\na /*b*/\n= 'c'" tokens := by
  have htokens : (tokenize "#!x\na /*b*/\n= 'c'").toOption = some [
      { kind := .identifier, text := "a", newlineBefore := true, start := 4, stop := 5, position := ⟨2, 1⟩ },
      { kind := .punctuator, text := "=", newlineBefore := true, start := 12, stop := 13, position := ⟨3, 1⟩,
        comments := ["/*b*/"] },
      { kind := .string "c", text := "'c'", start := 14, stop := 17, position := ⟨3, 3⟩ },
      { kind := .endOfFile, start := 17, stop := 17, position := ⟨3, 6⟩ }] := by
    decide +kernel
  cases h : tokenize "#!x\na /*b*/\n= 'c'" with
  | error e => simp [h, Except.toOption] at htokens
  | ok tokens =>
    rw [h] at htokens
    exact ⟨tokens, rfl, by rw [Option.some.inj htokens]; rfl, tokenize_lossless h⟩

end PlainScript
