import PlainScript.Proofs.Lexing

/-! Tokens and what separates them. The tokens of a source, written with blanks between them, are read again as the same
tokens. A blank may be exchanged for another one behind a token that the first byte of the other ends, and a name behind
a point for a reserved word, unless a slash follows that would begin a regular expression behind the word. -/
namespace PlainScript

open Scan

variable {previous last : Option (TokenKind × Text)} {text rest s after line : Text} {spelled : List (TokenKind × Text)}
  {source blank word : Text} {t u point name : Token} {tokens before later : List Token}

/-! ### The line that names an interpreter -/

/-- No token begins with a hash and an exclamation mark. -/
lemma interpreterLine_of_readsAll (h : ReadsAll previous s spelled) : interpreterLine s = 0 := by
  rw [interpreterLine, if_neg]
  intro hopening
  obtain ⟨more, rfl⟩ := List.isPrefixOf_iff_prefix.mp hopening
  have hhash : ("#!" ++ more : Text) = '#'.toUInt8 :: '!'.toUInt8 :: more := rfl
  have hzero : gap ("#!" ++ more) = .ok ([], 0) :=
    gap_of_ascii (by decide) (by decide) fun hc => absurd hc (by decide)
  obtain ⟨text, rest, last, comments, hsplit, hreads, hend⟩ := h
  rw [hsplit] at hzero
  cases hreads with
  | done =>
    rw [List.nil_append] at hsplit hzero
    rw [hend, ← hsplit] at hzero
    cases hzero
  | @token _ _ g t text _ kind spelled comments hne hgap htoken =>
    simp only [List.append_assoc] at hsplit hzero
    obtain rfl : g = [] := List.length_eq_zero_iff.mp (Prod.mk.inj (Except.ok.inj (hgap.symm.trans hzero))).2
    rw [List.nil_append] at hsplit
    have hstray : word ("#!" ++ more) = .error (.strayHash, 1) := rfl
    rw [← hsplit, hhash, Scan.token_word (.inr rfl), ← hhash, hstray] at htoken
    cases htoken

lemma interpreterLine_congr (h : interpreterLine (line ++ s) = line.length) (hne : line ≠ [])
    (hhead : after.head? = s.head?) : interpreterLine (line ++ after) = line.length := by
  rw [interpreterLine] at h
  split at h
  next hopening =>
    have hgoes : GoesOn (fun _ => False) s after := fun c hc => .inr (hhead ▸ hc)
    have hline : (line ++ after).takeWhile (· != lineFeed) = (line ++ s).takeWhile (· != lineFeed) :=
      hgoes.takeWhile_eq (fun _ _ => not_false) (Nat.le_of_eq h)
    have hinside : ("#!" : Text) <+: (line ++ after).takeWhile (· != lineFeed) :=
      hline ▸ prefix_firstLine hopening (by decide)
    rw [interpreterLine, if_pos]
    · exact (congrArg List.length hline).trans h
    · exact List.isPrefixOf_iff_prefix.mpr (hinside.trans (List.takeWhile_prefix _))
  next => exact absurd h.symm (by simpa using hne)

/-- A row of tokens behind the first line is what the source holds. -/
lemma tokenize_of_readsAll (hline : interpreterLine (line ++ s) = line.length) (h : ReadsAll none s spelled) :
    ∃ tokens, tokenize (line ++ s) = .ok tokens ∧ tokens.map Token.spelled = spelled ++ [(.endOfFile, [])] := by
  rw [tokenize, hline, Cursor.advance_append]
  exact tokensFrom_of_readsAll (show ReadsAll (Option.map Token.spelled none) s spelled from h) _ _

/-- The first line is the same in front of a text that begins alike. -/
lemma tokenize_of_head (hline : interpreterLine (line ++ (text ++ rest)) = line.length) (hne : text ≠ [])
    (h : ReadsAll none (text ++ after) spelled) : ∃ tokens, tokenize (line ++ (text ++ after)) = .ok tokens ∧
      tokens.map Token.spelled = spelled ++ [(.endOfFile, [])] := by
  apply tokenize_of_readsAll _ h
  obtain ⟨c, text, rfl⟩ := List.exists_cons_of_ne_nil hne
  by_cases hempty : line = []
  · subst hempty
    exact interpreterLine_of_readsAll h
  · exact interpreterLine_congr hline hempty rfl

/-- A source up to some token, and what is read behind that. -/
lemma exists_reads (h : tokenize source = .ok (before ++ t :: u :: later)) :
    ∃ line text after position, source = line ++ (text ++ after) ∧ interpreterLine (line ++ (text ++ after)) = line.length ∧
      Reads none text ((before ++ [t]).map Token.spelled) (some t.spelled) after ∧ t.stop = (line ++ text).length ∧
      tokensFrom (some t) ⟨after, t.stop, position⟩ = .ok (u :: later) := by
  obtain ⟨line, s, rfl, hline, -⟩ := exists_interpreterLine source
  rw [tokenize, hline, Cursor.advance_append, Nat.zero_add] at h
  rw [show before ++ t :: u :: later = (before ++ [t]) ++ u :: later by simp] at h
  obtain ⟨text, after, position, rfl, hreads, hlength, hafter⟩ := reads_of_tokensFrom h
  rw [List.getLast?_concat] at hreads hlength hafter
  have hstop : t.stop = (line ++ text).length := hlength.trans List.length_append.symm
  refine ⟨line, text, after, position, rfl, hline, hreads, hstop, ?_⟩
  rw [hstop, List.length_append]
  exact hafter

/-! ### Blanks between tokens -/

lemma join_cons {separator : Text} {texts : List Text} (hne : texts ≠ []) :
    Text.join separator (text :: texts) = text ++ (separator ++ Text.join separator texts) := by
  cases texts with
  | nil => exact absurd rfl hne
  | cons s texts => rfl

/-- Tokens with blanks between them are read as they were. -/
lemma Reads.joined (h : Reads previous text spelled last rest) :
    Reads previous (Text.join " " (spelled.map Prod.snd)) spelled last [] := by
  induction h with
  | done => exact .done
  | @token previous last g t text rest kind spelled comments ht hgap htoken h ih =>
    have hzero := gap_drop hgap
    rw [List.drop_left] at hzero
    have hread (more : Text) (hmore : Reads (some (kind, t)) more spelled last [])
        (hfirst : ∀ c ∈ more.head?, c = 0x20) : Reads previous (t ++ more) ((kind, t) :: spelled) last [] := by
      have hfollows : Follows kind (text ++ rest) (more ++ []) := by
        rw [List.append_nil]
        exact .inl fun c hc => hfirst c hc ▸ .of_outside (by decide) (by decide)
      have hgap' : gap (t ++ (more ++ [])) = .ok ([], 0) := gap_follows ht htoken hzero hfollows
      exact .token (g := []) ht hgap' (token_follows ht htoken hfollows) hmore
    rw [List.map_cons]
    cases spelled with
    | nil =>
      have hlone := hread [] (h.last_eq ▸ .done) nofun
      rwa [List.append_nil] at hlone
    | cons u spelled =>
      rw [join_cons (by simp)]
      apply hread
      · exact ih.blank (List.cons_ne_nil u spelled)
      · intro c hc
        exact (Option.some.inj hc).symm

/-- Tokens are independent of their surroundings: written with blanks between them they are read again. -/
theorem tokenize_joined (h : tokenize source = .ok tokens) :
    ∃ again, tokenize (Text.join " " ((tokens.filter (!·.isEnd)).map Token.text)) = .ok again ∧
      again.map (fun t => (t.kind, t.text)) = tokens.map fun t => (t.kind, t.text) := by
  obtain ⟨before, last, rfl, hbefore, hlast, -⟩ := (tokenize_lossless h).ending
  obtain ⟨spelled, hspelled, text, rest, final, comments, hsplit, hreads, hend⟩ := readsAll_of_tokensFrom h
  obtain ⟨rfl, -⟩ := List.append_inj' ((List.map_append (f := Token.spelled)).symm.trans hspelled) rfl
  have htexts : ((before ++ [last]).filter (!·.isEnd)).map Token.text = (before.map Token.spelled).map Prod.snd := by
    rw [List.filter_append, List.filter_eq_self.mpr (by simpa using hbefore), List.filter_singleton, hlast, List.map_map]
    exact congrArg (List.map Token.text) (List.append_nil before)
  have hall : ReadsAll none (Text.join " " ((before.map Token.spelled).map Prod.snd)) (before.map Token.spelled) :=
    ⟨_, [], final, [], (List.append_nil _).symm, hreads.joined, gap_nil⟩
  have hline : interpreterLine ([] ++ Text.join " " ((before.map Token.spelled).map Prod.snd)) = ([] : Text).length :=
    interpreterLine_of_readsAll hall
  obtain ⟨again, hagain, hsame⟩ := tokenize_of_readsAll hline hall
  rw [htexts]
  exact ⟨again, hagain, hsame.trans hspelled.symm⟩

theorem tokenize_joined_question :
    ∃ tokens, tokenize "a?.5:b=/[/]/g.c>>1e3" = .ok tokens ∧
      ∃ again, tokenize (Text.join " " ((tokens.filter (!·.isEnd)).map Token.text)) = .ok again ∧
        again.map (fun t => (t.kind, t.text)) = tokens.map fun t => (t.kind, t.text) := by
  have hreads : (tokenize "a?.5:b=/[/]/g.c>>1e3").toOption.isSome = true := by decide +kernel
  cases h : tokenize "a?.5:b=/[/]/g.c>>1e3" with
  | error e => simp [h, Except.toOption] at hreads
  | ok tokens => exact ⟨tokens, rfl, tokenize_joined h⟩

/-! ### Other blanks -/

/-- A blank may be exchanged for another one in front of whatever is read. -/
lemma ReadsAll.exchange {old : Text} (h : ReadsAll previous (old ++ s) spelled) (hold : old ∈ blanks)
    (hblank : blank ∈ blanks) : ReadsAll previous (blank ++ s) spelled := by
  obtain ⟨text, rest, last, comments, hsplit, hreads, hend⟩ := h
  cases hreads with
  | done =>
    rw [List.nil_append] at hsplit
    rw [← hsplit, gap_blank_append old hold] at hend
    obtain ⟨k, hgap, hlength⟩ := shift_eq_ok hend
    refine ⟨[], blank ++ s, previous, comments, rfl, .done, ?_⟩
    rw [gap_blank_append blank hblank, hgap, shift, List.length_append]
    rw [List.length_append] at hlength
    rw [Nat.add_left_cancel hlength]
  | @token _ _ g t text _ kind spelled comments' hne hgap htoken h =>
    have hwhole : old ++ s = g ++ (t ++ (text ++ rest)) := by
      rw [hsplit, List.append_assoc, List.append_assoc]
    rw [← hwhole, gap_blank_append old hold] at hgap
    obtain ⟨k, hlater, hlength⟩ := shift_eq_ok hgap
    obtain ⟨g, rfl⟩ : ∃ g', g = old ++ g' := by
      obtain ⟨u, rfl, -⟩ := exists_append_of_le hwhole.symm (by omega)
      exact ⟨u, rfl⟩
    rw [List.append_assoc] at hwhole
    obtain rfl := List.append_cancel_left hwhole
    have hgap' : gap (blank ++ g ++ (t ++ (text ++ rest))) = .ok (comments', (blank ++ g).length) := by
      rw [List.append_assoc, gap_blank_append blank hblank, hlater, shift, List.length_append]
      rw [List.length_append] at hlength
      rw [Nat.add_left_cancel hlength]
    refine ⟨blank ++ g ++ (t ++ text), rest, last, comments, ?_, .token hne hgap' htoken h, hend⟩
    simp only [List.append_assoc]

/-- Between two tokens any blank does as well as any other whose first byte ends the first of them. -/
theorem tokenize_exchange (h : tokenize source = .ok (before ++ t :: u :: later))
    (hgap : source.extract t.stop u.start = [0x20]) (hblank : blank ∈ blanks) (hends : ∀ c ∈ blank.head?, Ends t.kind c) :
    ∃ again, tokenize (source.take t.stop ++ blank ++ source.drop u.start) = .ok again ∧
      again.map (fun t => (t.kind, t.text)) = (before ++ t :: u :: later).map fun t => (t.kind, t.text) := by
  obtain ⟨line, text, after, position, rfl, hline, hreads, hstop, hafter⟩ := exists_reads h
  obtain ⟨g, rest, hsplit, hstart⟩ := (finds_of_tokensFrom hafter).exists_gap
  obtain rfl : after = g ++ rest := hsplit
  have htake : (line ++ (text ++ (g ++ rest))).take t.stop = line ++ text := by
    rw [hstop, ← List.append_assoc, List.take_left]
  have hdrop : (line ++ (text ++ (g ++ rest))).drop u.start = rest := by
    rw [hstart, hstop, ← List.length_append, ← List.append_assoc, ← List.append_assoc, List.drop_left]
  obtain rfl : g = [0x20] := by
    rw [← hgap, List.extract_eq_take_drop, hstart, hstop, ← List.append_assoc, List.drop_left, Nat.add_sub_cancel_left,
      List.take_left]
  obtain ⟨spelled, hspelled, hall⟩ := readsAll_of_tokensFrom hafter
  have hne : ∀ b ∈ blanks, b ≠ [] := by decide
  obtain ⟨d, blank, rfl⟩ := List.exists_cons_of_ne_nil (hne blank hblank)
  have hchanged : Reads none text ((before ++ [t]).map Token.spelled) (some t.spelled) (d :: blank ++ rest) := by
    apply hreads.change (z := []) (by decide) (hends d rfl).1
    rintro - u hu
    obtain rfl := Option.some.inj hu
    exact hends d rfl
  have hexchanged : ReadsAll (some t.spelled) (d :: blank ++ rest) spelled := by
    have hold : ([0x20] : Text) ∈ blanks := by decide
    exact hall.exchange hold hblank
  have hread := hchanged.appendAll hexchanged
  obtain ⟨again, hagain, hsame⟩ := tokenize_of_head hline (hreads.ne_nil (by simp)) hread
  refine ⟨again, ?_, ?_⟩
  · rw [htake, hdrop, ← hagain]
    simp only [List.append_assoc]
  · refine hsame.trans ?_
    rw [List.append_assoc, ← hspelled, ← List.map_append, List.append_assoc]
    rfl

/-- A no-break space behind a name belongs to the name. -/
theorem tokenize_exchange_name :
    (tokenize "a b").toOption.map (·.map Token.spelled) =
        some ([(.identifier, "a"), (.identifier, "b"), (.endOfFile, "")] : List (TokenKind × Text)) ∧
      (tokenize [0x61, 0xC2, 0xA0, 0x62]).toOption.map (·.map Token.spelled) =
        some ([(.identifier, [0x61, 0xC2, 0xA0, 0x62]), (.endOfFile, "")] : List (TokenKind × Text)) := by
  decide +kernel

/-! ### Names behind a point -/

/-- No punctuator has a byte in it that begins a word. -/
lemma neutral_of_wordStart (c : UInt8) (hc : isNameStart c = true ∨ c = '#'.toUInt8) : Neutral c := by
  have hmarks : (punctuators.all fun p => p.all fun x => !(isNameStart x || x == '#'.toUInt8)) = true := by
    decide +kernel
  constructor
  · revert c
    exact Byte.forall_of_lt (by decide +kernel)
  · intro p hp hmem
    have hfree := List.all_eq_true.mp (List.all_eq_true.mp hmarks p hp) c hmem
    obtain hstart | rfl := hc
    · simp [hstart] at hfree
    · simp at hfree

lemma token_of_slash {p q : Option Token} (h : slashBeginsRegExp p = slashBeginsRegExp q ∨ s.head? ≠ some '/'.toUInt8) :
    Scan.token p s = Scan.token q s := by
  cases h with
  | inl h => simp only [Scan.token, h]
  | inr h =>
    cases s with
    | nil => rfl
    | cons c s =>
      have hc : (c == '/'.toUInt8) = false := beq_false_of_ne fun hc => h (congrArg some hc)
      simp only [token_cons, hc, Bool.false_and]

/-- What a row of tokens stands behind matters by what a slash would be there. -/
lemma ReadsAll.of_slash {other : Option (TokenKind × Text)} (h : ReadsAll previous s spelled)
    (hslash : slashBeginsRegExp (previous.map Token.ofSpelled) = slashBeginsRegExp (other.map Token.ofSpelled) ∨
      ∀ t ∈ spelled.head?, t.2.head? ≠ some '/'.toUInt8) : ReadsAll other s spelled := by
  obtain ⟨text, rest, last, comments, rfl, hreads, hend⟩ := h
  cases hreads with
  | done => exact ⟨[], rest, other, comments, rfl, .done, hend⟩
  | @token _ _ g t text _ kind spelled comments' hne hgap htoken h =>
    have hsame : slashBeginsRegExp (previous.map Token.ofSpelled) = slashBeginsRegExp (other.map Token.ofSpelled) ∨
        (t ++ (text ++ rest)).head? ≠ some '/'.toUInt8 := by
      apply hslash.imp_right
      intro hfirst
      obtain ⟨c, t, rfl⟩ := List.exists_cons_of_ne_nil hne
      exact hfirst _ rfl
    rw [token_of_slash hsame] at htoken
    exact ⟨g ++ (t ++ text), rest, last, comments, rfl, .token hne hgap htoken h, hend⟩

/-- Where a word ends, behind a gap, a reserved word ends as well. -/
lemma ReadsAll.keyword {g old : Text} {comments : List Text} (hold : old ≠ [])
    (hgap : gap (g ++ (old ++ rest)) = .ok (comments, g.length)) (hrest : EndsWord rest) (hword : word ∈ reservedWords)
    (h : ReadsAll (some (.keyword, word)) rest spelled) :
    ReadsAll previous (g ++ (word ++ rest)) ((.keyword, word) :: spelled) := by
  have hisWord := Piece.isWord_of_reserved word hword
  have hkeyword : isReservedWord word = true := List.contains_iff_mem.mpr hword
  have hne : word ≠ [] := by
    obtain ⟨c, more, rfl, -⟩ := hisWord.first
    exact List.cons_ne_nil c more
  have hgap' : gap (g ++ (word ++ rest)) = .ok (comments, g.length) := by
    apply gap_append (List.append_ne_nil_of_left_ne_nil hold rest) hgap
    exact gap_word hisWord (Piece.gap_reserved hword) hrest
  apply ReadsAll.token hne hgap' _ h
  rw [Piece.token_word hisWord hrest, if_pos hkeyword]

/-- A name behind a point may be exchanged for a reserved word, unless a slash follows it that is then taken for the
beginning of a regular expression. -/
theorem tokenize_memberName (h : tokenize source = .ok (before ++ point :: name :: later))
    (hpoint : point.kind = .punctuator) (hname : name.kind = .identifier) (hword : word ∈ reservedWords)
    (hslash : slashBeginsRegExp (some { kind := .keyword, text := word }) = false ∨
      ∀ next ∈ later.head?, next.text.head? ≠ some '/'.toUInt8) :
    ∃ again, tokenize (source.take name.start ++ word ++ source.drop name.stop) = .ok again ∧
      again.map (fun t => (t.kind, t.text)) =
        (before ++ point :: { name with kind := .keyword, text := word } :: later).map
          fun t => (t.kind, t.text) := by
  obtain ⟨line, text, after, position, rfl, hline, hreads, hstop, hafter⟩ := exists_reads h
  cases finds_of_tokensFrom hafter with
  | ending hgap ht =>
    have hend : name.kind = .endOfFile := congrArg Prod.fst ht
    cases hname.symm.trans hend
  | @token _ g rest comments position' _ hrest hgap hne htoken hstart hend hlater =>
    obtain rfl : after = g ++ (name.text ++ rest) := hrest
    rw [hname] at htoken
    obtain ⟨c, cs, hspelling⟩ := List.exists_cons_of_ne_nil hne
    rw [hspelling, List.cons_append] at htoken
    obtain ⟨hstart', hread⟩ := word_of_identifier htoken
    have hrest := (of_word hstart' hread).2
    obtain ⟨d, ds, rfl, hd⟩ := (Piece.isWord_of_reserved word hword).first
    have hchanged : Reads none text ((before ++ [point]).map Token.spelled) (some point.spelled)
        (g ++ d :: (ds ++ rest)) := by
      rw [hspelling] at hreads
      refine hreads.change (neutral_of_wordStart c hstart') (neutral_of_wordStart d hd) ?_
      rintro - u hu
      obtain rfl := Option.some.inj hu
      rw [Token.spelled, hpoint]
      exact ⟨neutral_of_wordStart d hd, trivial⟩
    obtain ⟨spelled, hspelled, hall⟩ := readsAll_of_tokensFrom hlater
    have hbehind : ReadsAll (some (.keyword, d :: ds)) rest spelled := by
      apply hall.of_slash
      cases hslash with
      | inl hslash =>
        apply Or.inl
        have hbefore : slashBeginsRegExp (some (Token.ofSpelled name.spelled)) = false := by
          simp [slashBeginsRegExp, Token.ofSpelled, Token.spelled, hname]
        exact hbefore.trans hslash.symm
      | inr hslash =>
        apply Or.inr
        intro n hn
        have hnext : later.head?.map Token.spelled = some n := by
          rw [← List.head?_map, hspelled, List.head?_append, Option.mem_def.mp hn]
          rfl
        obtain ⟨next, hfirst, rfl⟩ := Option.map_eq_some_iff.mp hnext
        exact hslash next hfirst
    have hread := hchanged.appendAll (.keyword hne hgap hrest hword hbehind)
    obtain ⟨again, hagain, hsame⟩ := tokenize_of_head hline (hreads.ne_nil (by simp)) hread
    have htake : (line ++ (text ++ (g ++ (name.text ++ rest)))).take name.start = line ++ text ++ g := by
      rw [hstart, hstop, ← List.length_append, ← List.append_assoc, ← List.append_assoc, List.take_left]
    have hdrop : (line ++ (text ++ (g ++ (name.text ++ rest)))).drop name.stop = rest := by
      rw [hend, hstart, hstop, ← List.length_append, ← List.length_append, ← List.append_assoc, ← List.append_assoc,
        ← List.append_assoc, List.drop_left]
    refine ⟨again, ?_, ?_⟩
    · rw [htake, hdrop, ← hagain]
      simp only [List.append_assoc, List.cons_append]
    · refine hsame.trans ?_
      rw [List.append_assoc, List.cons_append, ← hspelled, List.map_append, List.append_assoc, List.map_append]
      rfl

/-- Behind a reserved word a slash begins a regular expression, even if the word names a member. -/
theorem tokenize_memberName_slash :
    (tokenize "a.b / c").toOption.map (·.map Token.spelled) =
        some ([(.identifier, "a"), (.punctuator, "."), (.identifier, "b"), (.punctuator, "/"), (.identifier, "c"),
          (.endOfFile, "")] : List (TokenKind × Text)) ∧
      (tokenize "a.default / c").toOption = none := by
  decide +kernel

end PlainScript
