import PlainScript.Proofs.Boundaries
import PlainScript.Proofs.Lossless
import PlainScript.Proofs.Pieces

/-! Rows of tokens. A text is read as a row of tokens, each in front of all that is left, and that does not depend on
where the text stands. -/
namespace PlainScript

/-! ### Rows of tokens -/

/-- What the lexer says of a token apart from its place. -/
def Token.spelled (t : Token) : TokenKind × Text := (t.kind, t.text)

/-- A token that stands nowhere. -/
def Token.ofSpelled (s : TokenKind × Text) : Token := { kind := s.1, text := s.2 }

lemma Scan.token_spelled (previous : Option Token) (s : Text) :
    Scan.token ((previous.map Token.spelled).map Token.ofSpelled) s = Scan.token previous s := by
  cases previous with
  | none => rfl
  | some t =>
    have hslash : slashBeginsRegExp (some (Token.ofSpelled t.spelled)) = slashBeginsRegExp (some t) :=
      slashBeginsRegExp_congr rfl rfl
    simp only [Option.map_some, Scan.token, hslash]

/-- A text in front of another one is read as some tokens. Each of them is read with all that is behind it there. -/
inductive Reads : (previous : Option (TokenKind × Text)) → (text : Text) → (spelled : List (TokenKind × Text)) →
    (last : Option (TokenKind × Text)) → (rest : Text) → Prop
  | done {previous : Option (TokenKind × Text)} {rest : Text} : Reads previous [] [] previous rest
  | token {previous last : Option (TokenKind × Text)} {g t text rest : Text} {kind : TokenKind}
      {spelled : List (TokenKind × Text)} {comments : List Text} (hne : t ≠ [])
      (hgap : Scan.gap (g ++ (t ++ (text ++ rest))) = .ok (comments, g.length))
      (htoken : Scan.token (previous.map Token.ofSpelled) (t ++ (text ++ rest)) = .ok (kind, t.length))
      (h : Reads (some (kind, t)) text spelled last rest) :
      Reads previous (g ++ (t ++ text)) ((kind, t) :: spelled) last rest

/-- A whole text is read as some tokens, and a gap ends it. -/
def ReadsAll (previous : Option (TokenKind × Text)) (s : Text) (spelled : List (TokenKind × Text)) : Prop :=
  ∃ text rest last comments, s = text ++ rest ∧ Reads previous text spelled last rest ∧
    Scan.gap rest = .ok (comments, rest.length)

namespace Reads

variable {previous last final : Option (TokenKind × Text)} {text more rest after : Text}
  {spelled others : List (TokenKind × Text)}

lemma append (h : Reads previous text spelled last (more ++ rest)) (hmore : Reads last more others final rest) :
    Reads previous (text ++ more) (spelled ++ others) final rest := by
  generalize hrest : more ++ rest = s at h
  induction h with
  | done => exact hmore
  | @token previous last g t text s kind spelled comments hne hgap htoken h ih =>
    subst hrest
    rw [List.append_assoc, List.append_assoc, List.cons_append]
    rw [← List.append_assoc text] at hgap htoken
    exact .token hne hgap htoken (ih hmore rfl)

lemma ne_nil (h : Reads previous text spelled last rest) (hne : spelled ≠ []) : text ≠ [] := by
  cases h with
  | done => exact absurd rfl hne
  | token ht => exact List.append_ne_nil_of_right_ne_nil _ (List.append_ne_nil_of_left_ne_nil ht _)

lemma last_eq (h : Reads previous text [] last rest) : last = previous := by
  cases h
  rfl

/-- A blank in front of a token changes nothing. -/
lemma blank (h : Reads previous text spelled last rest) (hne : spelled ≠ []) :
    Reads previous (0x20 :: text) spelled last rest := by
  cases h with
  | done => exact absurd rfl hne
  | @token _ _ g t text _ kind spelled comments ht hgap htoken h =>
    have hgap' : Scan.gap (0x20 :: g ++ (t ++ (text ++ rest))) = .ok (comments, (0x20 :: g).length) := by
      rw [List.cons_append, Scan.gap_blank, hgap, Scan.shift, List.length_cons, Nat.add_comm]
    exact .token ht hgap' htoken h

/-- Where the text goes on in another way behind a neutral byte, the same tokens are read before it. -/
lemma change {z s s' : Text} {c d : UInt8} (h : Reads previous text spelled last (z ++ c :: s)) (hc : Scan.Neutral c)
    (hd : Scan.Neutral d) (hends : z = [] → ∀ t ∈ last, Scan.Ends t.1 d) :
    Reads previous text spelled last (z ++ d :: s') := by
  generalize hrest : z ++ c :: s = rest at h
  induction h with
  | done => exact .done
  | @token previous last g t text rest kind spelled comments hne hgap htoken h ih =>
    subst hrest
    have hfollows : Scan.Follows kind (text ++ (z ++ c :: s)) (text ++ (z ++ d :: s')) := by
      by_cases hfront : text ++ z = []
      · obtain ⟨rfl, rfl⟩ := List.append_eq_nil_iff.mp hfront
        apply Or.inl
        intro e he
        obtain rfl : d = e := Option.some.inj he
        cases spelled with
        | cons u spelled => exact absurd rfl (h.ne_nil (List.cons_ne_nil u spelled))
        | nil =>
          obtain rfl := h.last_eq
          exact hends rfl _ rfl
      · rw [← List.append_assoc, ← List.append_assoc]
        exact .inr (.intro hfront hc hd)
    have hzero := Scan.gap_drop hgap
    rw [List.drop_left] at hzero
    have hafter := Scan.gap_follows hne htoken hzero hfollows
    have hwhole : t ++ (text ++ (z ++ c :: s)) ≠ [] := List.append_ne_nil_of_left_ne_nil hne _
    exact .token hne (Scan.gap_append hwhole hgap hafter) (Scan.token_follows hne htoken hfollows) (ih hends rfl)

lemma appendAll {s : Text} (h : Reads previous text spelled last s) (hs : ReadsAll last s others) :
    ReadsAll previous (text ++ s) (spelled ++ others) := by
  obtain ⟨more, rest, final, comments, rfl, hmore, hrest⟩ := hs
  exact ⟨text ++ more, rest, final, comments, (List.append_assoc ..).symm, h.append hmore, hrest⟩

end Reads

lemma ReadsAll.token {previous : Option (TokenKind × Text)} {g t s : Text} {kind : TokenKind} {comments : List Text}
    {spelled : List (TokenKind × Text)} (hne : t ≠ []) (hgap : Scan.gap (g ++ (t ++ s)) = .ok (comments, g.length))
    (htoken : Scan.token (previous.map Token.ofSpelled) (t ++ s) = .ok (kind, t.length))
    (h : ReadsAll (some (kind, t)) s spelled) : ReadsAll previous (g ++ (t ++ s)) ((kind, t) :: spelled) := by
  obtain ⟨text, rest, last, final, rfl, hreads, hend⟩ := h
  refine ⟨g ++ (t ++ text), rest, last, final, ?_, .token hne hgap htoken hreads, hend⟩
  simp only [List.append_assoc]

/-! ### The lexer -/

variable {previous : Option Token} {place : Cursor} {t u : Token} {tokens before later : List Token}

/-- What the lexer finds at a place: the end of the text, or a token and what is behind it. -/
inductive Finds (previous : Option Token) (place : Cursor) : List Token → Prop
  | ending {t : Token} {comments : List Text} (hgap : Scan.gap place.rest = .ok (comments, place.rest.length))
      (ht : t.spelled = (.endOfFile, [])) (hstart : t.start = place.offset + place.rest.length) :
      Finds previous place [t]
  | token {t : Token} {g after : Text} {comments : List Text} {position : Position} {later : List Token}
      (hrest : place.rest = g ++ (t.text ++ after)) (hgap : Scan.gap place.rest = .ok (comments, g.length))
      (hne : t.text ≠ []) (htoken : Scan.token previous (t.text ++ after) = .ok (t.kind, t.text.length))
      (hstart : t.start = place.offset + g.length) (hstop : t.stop = t.start + t.text.length)
      (hlater : tokensFrom (some t) ⟨after, t.stop, position⟩ = .ok later) : Finds previous place (t :: later)

/-- In front of what is found stands its gap. -/
lemma Finds.exists_gap (h : Finds previous place (t :: later)) :
    ∃ g rest, place.rest = g ++ rest ∧ t.start = place.offset + g.length := by
  cases h with
  | ending hgap ht hstart => exact ⟨place.rest, [], (List.append_nil _).symm, hstart⟩
  | token hrest hgap hne htoken hstart => exact ⟨_, _, hrest, hstart⟩

lemma finds_of_tokensFrom (h : tokensFrom previous place = .ok tokens) : Finds previous place tokens := by
  fun_induction tokensFrom generalizing tokens with
  | case1 | case3 | case4 => cases h
  | case2 previous place comments n hgap here token =>
    rename_i hrest
    obtain rfl := Except.ok.inj h
    have hgap := Cursor.scan_eq_ok hgap
    have hle := (Scan.gap_isGap hgap).1
    obtain rfl : n = place.rest.length := Nat.le_antisymm hle (List.drop_eq_nil_iff.mp hrest)
    apply Finds.ending hgap
    · rfl
    · rfl
  | case5 previous place comments n hgap here token c rest hrest kind size htoken t next after hafter =>
    obtain rfl := Except.ok.inj h
    have hgap := Cursor.scan_eq_ok hgap
    have htoken := Cursor.scan_eq_ok htoken
    obtain ⟨-, hpos, hsize⟩ := Scan.token_gives (hrest ▸ htoken)
    rw [← hrest] at hsize
    have htext : t.text = here.rest.take size := rfl
    have hlength : t.text.length = size := List.length_take_of_le hsize
    have hsplit : t.text ++ here.rest.drop size = here.rest := List.take_append_drop size here.rest
    have hgapLength : (place.rest.take n).length = n := List.length_take_of_le (Scan.gap_isGap hgap).1
    have hnext : rest.drop (size - 1) = here.rest.drop size := by
      obtain ⟨m, rfl⟩ : ∃ m, size = m + 1 := ⟨size - 1, by omega⟩
      rw [hrest]
      rfl
    have hlater : tokensFrom (some t) ⟨here.rest.drop size, t.stop, here.position.after t.text⟩ = .ok after := by
      rw [← hnext]
      exact hafter
    have hgap : Scan.gap place.rest = .ok (comments, (place.rest.take n).length) := by rw [hgapLength, hgap]
    refine .token ?_ hgap ?_ ?_ ?_ ?_ hlater
    · rw [hsplit]
      exact (List.take_append_drop n place.rest).symm
    · exact List.length_pos_iff.mp (hlength ▸ hpos)
    · rw [hsplit, htoken, hlength]
    · rw [hgapLength]
      rfl
    · rw [hlength]

/-- The lexer reads a row of tokens to the end. -/
theorem reads_of_tokensFrom (h : tokensFrom previous place = .ok (before ++ t :: later)) :
    ∃ text after position, place.rest = text ++ after ∧
      Reads (previous.map Token.spelled) text (before.map Token.spelled) ((before.getLast?.or previous).map Token.spelled)
        after ∧
      before.getLast?.elim place.offset Token.stop = place.offset + text.length ∧
      tokensFrom (before.getLast?.or previous) ⟨after, place.offset + text.length, position⟩ = .ok (t :: later) := by
  induction before generalizing previous place with
  | nil => exact ⟨[], place.rest, place.position, rfl, .done, rfl, h⟩
  | cons u before ih =>
    generalize htokens : u :: before ++ t :: later = tokens at h
    cases finds_of_tokensFrom h with
    | ending => simp at htokens
    | @token u' g after comments position later' hrest hgap hne htoken hstart hstop hlater =>
      rw [List.cons_append] at htokens
      obtain ⟨rfl, rfl⟩ := List.cons.inj htokens
      obtain ⟨text, rest, position, rfl, hreads, hlength, htokens⟩ := ih hlater
      have hlast : (u :: before).getLast?.or previous = before.getLast?.or (some u) := by
        rw [List.getLast?_cons]
        cases before.getLast? <;> rfl
      have hoffset : place.offset + (g ++ (u.text ++ text)).length = u.stop + text.length := by
        rw [List.length_append, List.length_append, ← Nat.add_assoc, ← Nat.add_assoc, ← hstart, ← hstop]
      rw [← Scan.token_spelled] at htoken
      rw [hrest] at hgap
      refine ⟨g ++ (u.text ++ text), rest, position, ?_, ?_, ?_, ?_⟩
      · rw [hrest]
        simp only [List.append_assoc]
      · rw [hlast]
        exact .token hne hgap htoken hreads
      · rw [hoffset, ← hlength, List.getLast?_cons]
        cases before.getLast? <;> rfl
      · rw [hlast, hoffset]
        exact htokens

lemma readsAll_of_tokensFrom (h : tokensFrom previous place = .ok tokens) :
    ∃ spelled, tokens.map Token.spelled = spelled ++ [(.endOfFile, [])] ∧
      ReadsAll (previous.map Token.spelled) place.rest spelled := by
  induction tokens generalizing previous place with
  | nil => cases finds_of_tokensFrom h
  | cons t later ih =>
    cases finds_of_tokensFrom h with
    | ending hgap ht => exact ⟨[], by rw [List.map_singleton, ht]; rfl, [], place.rest, _, _, rfl, .done, hgap⟩
    | @token _ g after comments position _ hrest hgap hne htoken hstart hstop hlater =>
      obtain ⟨spelled, hspelled, hreads⟩ := ih hlater
      rw [← Scan.token_spelled] at htoken
      rw [hrest] at hgap ⊢
      refine ⟨t.spelled :: spelled, ?_, .token hne hgap htoken hreads⟩
      rw [List.map_cons, hspelled, List.cons_append]

/-- A token is found behind its gap. -/
lemma tokensFrom_token {g text after : Text} {kind : TokenKind} {comments : List Text} {spelled : List (TokenKind × Text)}
    (hne : text ≠ []) (hgap : Scan.gap (g ++ (text ++ after)) = .ok (comments, g.length))
    (htoken : Scan.token previous (text ++ after) = .ok (kind, text.length))
    (hlater : ∀ t : Token, t.spelled = (kind, text) → ∀ offset position, ∃ tokens,
      tokensFrom (some t) ⟨after, offset, position⟩ = .ok tokens ∧ tokens.map Token.spelled = spelled)
    (offset : Nat) (position : Position) :
    ∃ tokens, tokensFrom previous ⟨g ++ (text ++ after), offset, position⟩ = .ok tokens ∧
      tokens.map Token.spelled = (kind, text) :: spelled := by
  obtain ⟨c, text, rfl⟩ := List.exists_cons_of_ne_nil hne
  have hadvance : Cursor.advance ⟨g ++ (c :: text ++ after), offset, position⟩ g.length =
      ⟨c :: (text ++ after), offset + g.length, position.after g⟩ := Cursor.advance_append ..
  rw [tokensFrom]
  simp only [Cursor.scan, hgap, hadvance]
  rw [List.cons_append] at htoken
  simp only [htoken]
  split
  · next h => simp at h
  · next d more h =>
    obtain ⟨-, rfl⟩ := List.cons.inj ((congrArg Cursor.rest hadvance).symm.trans h)
    have htext : (c :: (text ++ after)).take (c :: text).length = c :: text := by simp
    have hafter : (text ++ after).drop ((c :: text).length - 1) = after := by simp
    simp only [htext, hafter]
    generalize hplaced : Token.mk kind (c :: text) _ _ _ _ _ = placed
    obtain ⟨tokens, htokens, hspelled⟩ := hlater placed (by rw [← hplaced]; rfl)
      (offset + g.length + (c :: text).length) ((position.after g).after (c :: text))
    refine ⟨placed :: tokens, ?_, ?_⟩
    · rw [htokens]
    · rw [List.map_cons, hspelled, ← hplaced]
      rfl

/-- What is read as a row of tokens is found by the lexer, wherever it stands. -/
lemma tokensFrom_of_readsAll {s : Text} {spelled : List (TokenKind × Text)}
    (h : ReadsAll (previous.map Token.spelled) s spelled) (offset : Nat) (position : Position) :
    ∃ tokens, tokensFrom previous ⟨s, offset, position⟩ = .ok tokens ∧
      tokens.map Token.spelled = spelled ++ [(.endOfFile, [])] := by
  obtain ⟨text, rest, last, comments, rfl, hreads, hend⟩ := h
  generalize hprevious : previous.map Token.spelled = before at hreads
  induction hreads generalizing previous offset position with
  | @done _ rest =>
    have hadvance : (Cursor.advance ⟨rest, offset, position⟩ rest.length).rest = [] := List.drop_length
    rw [List.nil_append, tokensFrom]
    simp only [Cursor.scan, hend]
    split
    · refine ⟨_, rfl, ?_⟩
      rw [List.map_singleton, List.nil_append]
      exact congrArg (fun text => [(TokenKind.endOfFile, text)]) rfl
    next c more hmore => cases hadvance.symm.trans hmore
  | @token before last g t text rest kind spelled comments hne hgap htoken h ih =>
    rw [← hprevious, Scan.token_spelled] at htoken
    rw [List.append_assoc, List.append_assoc]
    apply tokensFrom_token hne hgap htoken
    intro u hu offset position
    exact ih offset position hend (congrArg some hu)

end PlainScript
