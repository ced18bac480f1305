import PlainScript.Proofs.StatementLayout

/-! The printer writes statements around operator expressions in their pieces. -/
namespace PlainScript

open Print

variable {ps : List Piece} {indent : Nat} {body : List Tree}

/-! ### Texts of lines -/

namespace Phrase

lemma margin_head (h : Phrase ps) : ∃ p ∈ ps.head?, p.margin = .none :=
  h.begins.imp fun _ hp => ⟨hp.1, hp.2.margin_eq⟩

lemma spellings_spaced (h : Phrase ps) : spellings (PlainScript.spaced ps) = 0x20 :: spellings ps :=
  PlainScript.spellings_spaced h.margin_head

lemma lined_ne_nil (h : Phrase ps) : PlainScript.lined indent ps ≠ [] := by
  obtain ⟨p, rest, rfl⟩ := List.exists_cons_of_ne_nil h.ne_nil
  exact List.cons_ne_nil _ _

lemma spellings_lined (h : Phrase ps) :
    spellings (PlainScript.lined indent ps) = 0x0A :: (pad indent ++ spellings ps) := by
  obtain ⟨p, hp, hmargin⟩ := h.margin_head
  obtain ⟨rest, rfl⟩ := List.head?_eq_some_iff.mp hp
  simp [PlainScript.lined, Piece.spelling, Margin.text, hmargin]

end Phrase

/-- The text of a statement with its indentation. -/
def Tree.line (indent : Nat) (s : Tree) : Text := pad indent ++ spellings (s.written indent)

lemma spellings_lines (h : ∀ s ∈ body, Phrase (s.written indent)) :
    spellings (Tree.writtenLines indent (body.map some)) = (body.map (Tree.line indent)).flatMap (0x0A :: ·) := by
  induction body with
  | nil => rfl
  | cons s rest ih =>
    rw [List.map_cons, Tree.writtenLines, spellings_append, (h s (by simp)).spellings_lined,
      ih fun s hs => h s (by simp [hs])]
    rfl

lemma lineFeed_linesBefore (rest : Text) (lines : List Text) :
    0x0A :: linesBefore rest lines = lines.flatMap (0x0A :: ·) ++ 0x0A :: rest := by
  induction lines with
  | nil => rfl
  | cons line lines ih =>
    rw [linesBefore, List.flatMap_cons, List.append_assoc, ← ih]
    rfl

lemma join_lines (line : Text) (lines : List Text) :
    Text.join "\n" (line :: lines) = line ++ lines.flatMap (0x0A :: ·) := by
  induction lines generalizing line with
  | nil => simp [Text.join]
  | cons next lines ih =>
    rw [Text.join, ih, List.flatMap_cons]
    · rfl
    · simp

/-- Lines between braces have the text of their pieces. -/
lemma spellings_inBraces (hne : ps ≠ []) {lines : List Text} (h : spellings ps = lines.flatMap (0x0A :: ·)) :
    spellings (inBraces indent ps) = Print.braced indent lines := by
  have hempty : ps.isEmpty = false := by simpa using hne
  have hbraced : Print.braced indent lines = openBrace ++ 0x0A :: linesBefore (pad indent ++ closeBrace) lines :=
    List.append_assoc openBrace [0x0A] _
  rw [hbraced, lineFeed_linesBefore, ← h]
  simp [inBraces, hempty, Piece.spelling, Piece.punctuator, Margin.text]

lemma spellings_parenthesized (ps : List Piece) :
    spellings (spaced (inBrackets "(" ps ")")) = 0x20 :: (("(" : Text) ++ (spellings ps ++ (")" : Text))) := by
  rw [spellings_spaced ⟨_, rfl, rfl⟩, spellings_inBrackets]

/-! ### Statements -/

section Printing

variable {source : NodeSource Tree} (hsource : ∀ t, source.node? t = some t.node)
  {inner : Part → Tree → Except PrintError Text}

lemma mem_children_block {x : Tree} (hx : x ∈ body) : x ∈ (Payload.blockStatement (body.map some)).children := by
  change x ∈ (body.map some).filterMap id ++ []
  simpa using hx

lemma Statements.silent {t : Tree} (h : Statements t) : t.node.leading = [] ∧ t.node.trailing = [] := by
  cases h <;> assumption

lemma Statements.exists_body {t : Tree} {slots : List (Option Tree)} (h : Statements t)
    (hp : t.node.payload = .blockStatement slots) :
    ∃ body : List Tree, slots = body.map some ∧ ∀ s ∈ body, Statements s := by
  cases h with
  | block _ h hbody => exact ⟨_, Payload.blockStatement.inj (hp.symm.trans h), hbody⟩
  | empty _ h | debugger _ h | expression _ h | throw _ h | «return» _ h | «break» _ h | «continue» _ h | labeled _ h
  | «while» _ h | doWhile _ h | «for» _ h | ifThen _ h | ifElse _ h => cases hp.symm.trans h

/-- Some way to print parts writes statements as their pieces. -/
def Writes (inner : Part → Tree → Except PrintError Text) (s : Tree) : Prop :=
  ∀ indent, inner (.statement indent) s = .ok (spellings (s.written indent))

include hsource

lemma statementLines_ok (h : ∀ s ∈ body, Statements s ∧ Writes inner s) (indent : Nat) :
    statementLines source inner indent (body.map some) [] = .ok (body.map (Tree.line indent)) := by
  have hline (s : Tree) (hs : s ∈ body) : statementLine source inner indent (some s) = .ok (s.line indent) := by
    obtain ⟨hstatements, hwrites⟩ := h s hs
    rw [statementLine, need_some hsource, ok_bind]
    simp only [hstatements.silent.1, commentLines, List.flatMap_nil, List.append_nil, hwrites indent, ok_bind]
    rfl
  have hall : (body.map some).mapM (statementLine source inner indent) = .ok (body.map (Tree.line indent)) := by
    rw [List.mapM_map]
    exact mapM_ok hline
  rw [statementLines, hall, ok_bind, closingComments, List.map_nil, List.append_nil]
  rfl

lemma block_ok {t : Tree} (ht : Statements t) (hp : t.node.payload = .blockStatement (body.map some))
    (h : ∀ s ∈ body, Statements s ∧ Writes inner s) (indent : Nat) :
    block source inner indent (some t) = .ok (spellings (t.written indent)) := by
  have hphrase (s : Tree) (hs : s ∈ body) : Phrase (s.written (indent + 1)) := (h s hs).1.phrase _
  obtain ⟨node⟩ := t
  rw [Tree.node_mk] at hp
  rw [block, need_some hsource, ok_bind, Tree.written_block hp]
  simp only [Tree.node_mk, hp, show node.trailing = [] from ht.silent.2, List.isEmpty_nil, Bool.and_true]
  cases body with
  | nil => rfl
  | cons s rest =>
    have hne : Tree.writtenLines (indent + 1) ((s :: rest).map some) ≠ [] := by
      rw [List.map_cons, Tree.writtenLines]
      exact List.append_ne_nil_of_left_ne_nil (hphrase s (by simp)).lined_ne_nil _
    rw [statementLines_ok hsource h, spellings_inBraces hne (spellings_lines hphrase)]
    rfl

/-- What stands inside a statement. -/
lemma nested_ok {s : Tree} (h : Statements s) (hwrites : ∀ x, Statements x → x.size ≤ s.size → Writes inner x)
    (indent : Nat) :
    nested source inner indent (some s) = .ok (spellings (spaced (s.written (s.bodyIndent indent)))) := by
  rw [nested, need_some hsource, ok_bind, (h.phrase _).spellings_spaced]
  dsimp only
  split
  · next slots hp =>
    obtain ⟨body, rfl, hbody⟩ := h.exists_body hp
    have hindent : s.bodyIndent indent = indent := if_pos (congrArg Payload.kind hp)
    have hinner (x : Tree) (hx : x ∈ body) : Writes inner x :=
      hwrites x (hbody x hx) (Nat.le_of_lt (Tree.size_lt (hp ▸ mem_children_block hx)))
    rw [block_ok hsource h hp fun x hx => ⟨hbody x hx, hinner x hx⟩, ok_bind, hindent]
    rfl
  · next hother =>
    have hindent : s.bodyIndent indent = indent + 1 := if_neg fun hkind => by
      cases hp : s.node.payload with
      | blockStatement body => exact hother body hp
      | _ => simp [Tree.kind, hp, Payload.kind] at hkind
    rw [hwrites s h (Nat.le_refl _), ok_bind, h.silent.1, hindent]
    rfl

/-- The expression that a statement is decided by, between parentheses. -/
lemma condition_ok {test : Tree} (hprints : Prints inner test) (indent : Nat) (what : Text) :
    ∃ text, expression source inner indent 0 what (some test) = .ok text ∧
      spellings test.conditionPieces = " (" ++ (text ++ ")") := by
  have hblank : Text.ofString " (" = 0x20 :: "(" := by decide
  refine ⟨_, expression_ok hsource hprints indent 0 what, ?_⟩
  rw [Layout.within_of_le (Nat.zero_le _), Tree.conditionPieces, spellings_parenthesized, hblank]
  rfl

omit hsource in
lemma optional_ok {e : Option Tree} (h : ∀ x ∈ e, Operators x) (hprints : ∀ x ∈ e, Prints inner x) (indent : Nat) :
    optionalPart inner indent e = .ok (spellings (Tree.optionalPieces e)) := by
  cases e with
  | none => rfl
  | some x =>
    have htext : inner (.expression indent 0) x = .ok (spellings x.layout.pieces) := by
      rw [hprints x rfl, Layout.within_of_le (Nat.zero_le _)]
    rw [optionalPart, htext]
    exact congrArg Except.ok (spellings_spaced (h x rfl).sound.unspaced).symm

omit hsource in
lemma jump_eq (word label : Text) : jump word label = spellings (jumpPieces word label) := by
  have hblank : Text.ofString " " = [0x20] := by decide
  unfold jump jumpPieces
  split <;> simp [spaced, Piece.spelling, Piece.keyword, Piece.punctuator, hblank]

lemma takesElse_eq (s : Tree) : takesElse source s = s.takesElse := by
  rw [takesElse, payload?_eq hsource, Tree.takesElse]
  cases s.node.payload with
  | ifStatement test consequent alternate => cases alternate <;> rfl
  | _ => rfl

section Statement

variable {t : Tree} (hexpressions : ∀ e, Operators e → e.size < t.size → Prints inner e)
  (hwrites : ∀ s, Statements s → s.size < t.size → Writes inner s)

include hwrites

/-- What stands inside a statement, as a branch or a body. -/
lemma body_ok {s : Tree} (h : Statements s) (hs : s.size < t.size) (indent : Nat) :
    nested source inner indent (some s) = .ok (spellings (spaced (s.written (s.bodyIndent indent)))) :=
  nested_ok hsource h (fun x hx hle => hwrites x hx (Nat.lt_of_le_of_lt hle hs)) indent

/-- The branch in front of an `else`, whatever its text is used for. -/
lemma branch_ok {s : Tree} (h : Statements s) (hs : s.size < t.size) (indent : Nat)
    (f : Text → Except PrintError Text) :
    (if takesElse source s then do
        let text ← inner (.statement (indent + 1)) s
        let body ← pure (" " ++ braced indent [pad (indent + 1) ++ commentLines (indent + 1) s.node.leading ++ text])
        f body
      else nested source inner indent (some s) >>= f) =
    f (spellings (spaced (if s.takesElse then inBraces indent (lined (indent + 1) (s.written (indent + 1)))
      else s.written (s.bodyIndent indent)))) := by
  rw [takesElse_eq hsource]
  split
  · have hphrase := h.phrase (indent + 1)
    have htext : spellings (inBraces indent (lined (indent + 1) (s.written (indent + 1)))) =
        braced indent [s.line (indent + 1)] :=
      spellings_inBraces hphrase.lined_ne_nil (hphrase.spellings_lined.trans (List.append_nil _).symm)
    rw [hwrites s h hs, ok_bind, (Phrase.inBraces hphrase.lined).spellings_spaced, htext, h.silent.1]
    simp [commentLines, Tree.line]
    rfl
  · rw [body_ok hsource hwrites h hs indent, ok_bind]

/-- The branch behind an `else`. -/
lemma alternate_ok {s : Tree} (h : Statements s) (hs : s.size < t.size) (indent : Nat)
    (f : Text → Except PrintError Text) :
    (if (source.node? s).any fun n => n.payload.kind == .ifStatement && n.leading.isEmpty then do
        let text ← inner (.statement indent) s
        let other ← pure (" else " ++ text)
        f other
      else do
        let text ← nested source inner indent (some s)
        let other ← pure (" else" ++ text)
        f other) =
    f (" else" ++ spellings (spaced (s.written (s.elseIndent indent)))) := by
  have hmark : Text.ofString " else " = (" else" : Text) ++ [0x20] := by decide
  rw [hsource, Option.any_some, h.silent.1, List.isEmpty_nil, Bool.and_true, Tree.elseIndent]
  by_cases hkind : s.kind = .ifStatement
  · have hchains : (s.node.payload.kind == .ifStatement) = true := by simpa [Tree.kind] using hkind
    rw [if_pos hchains, if_pos hkind, hwrites s h hs, ok_bind, (h.phrase _).spellings_spaced, hmark]
    simp
  · have hchains : ¬(s.node.payload.kind == .ifStatement) = true := by simpa [Tree.kind] using hkind
    rw [if_neg hchains, if_neg hkind, body_ok hsource hwrites h hs]
    rfl

section Kinds

variable {node : Node Tree} {e test taken other body' : Tree} {result update : Option Tree} {label : Text}

omit hwrites

lemma expressionStatement_ok (h : node.payload = .expressionStatement (some e)) (he : Prints inner e) (indent : Nat) :
    statementText source inner indent (.mk node) node = .ok (spellings ((Tree.mk node).written indent)) := by
  have htext := expression_ok hsource he indent 0 "expression"
  rw [Layout.within_of_le (Nat.zero_le _)] at htext
  simp only [statementText, h, htext, ok_bind, Tree.written_expression h, Tree.statementPieces]
  split <;> simp [spellings_inBrackets, parenthesize, Piece.spelling, Piece.punctuator] <;> rfl

lemma throwText_ok (h : node.payload = .throwStatement (some e)) (he : Operators e) (he' : Prints inner e)
    (indent : Nat) :
    statementText source inner indent (.mk node) node = .ok (spellings ((Tree.mk node).written indent)) := by
  have hword : Text.ofString "throw " = ("throw" : Text) ++ [0x20] := by decide
  have htext := expression_ok hsource he' indent 0 "throw argument"
  rw [Layout.within_of_le (Nat.zero_le _)] at htext
  simp only [statementText, h, htext, ok_bind, Tree.written_throw h]
  simp [spellings_spaced he.sound.unspaced, Piece.spelling, Piece.punctuator, Piece.keyword, hword]
  rfl

omit hsource in
lemma returnText_ok (h : node.payload = .returnStatement result) (he : ∀ x ∈ result, Operators x)
    (he' : ∀ x ∈ result, Prints inner x) (indent : Nat) :
    statementText source inner indent (.mk node) node = .ok (spellings ((Tree.mk node).written indent)) := by
  simp only [statementText, h, optional_ok he he', ok_bind, Tree.written_return h]
  simp [Piece.spelling, Piece.punctuator, Piece.keyword]
  rfl

lemma labeledText_ok (h : node.payload = .labeledStatement label (some body')) (hbody : Statements body')
    (hbody' : Writes inner body') (indent : Nat) :
    statementText source inner indent (.mk node) node = .ok (spellings ((Tree.mk node).written indent)) := by
  have hmark : Text.ofString ": " = (":" : Text) ++ [0x20] := by decide
  simp only [statementText, h, need_some hsource, ok_bind, hbody.silent.1, List.isEmpty_nil, if_true, hbody' indent,
    Tree.written_labeled h]
  simp [(hbody.phrase indent).spellings_spaced, Piece.spelling, Piece.punctuator, hmark]
  rfl

variable {indent : Nat}
  (hbody : nested source inner indent (some body') = .ok (spellings (spaced (body'.written (body'.bodyIndent indent)))))

include hbody

lemma whileText_ok (h : node.payload = .whileStatement (some test) (some body')) (htest : Prints inner test) :
    statementText source inner indent (.mk node) node = .ok (spellings ((Tree.mk node).written indent)) := by
  have hhead : Text.ofString "while (" = ("while" : Text) ++ (" (" : Text) := by decide
  obtain ⟨text, htext, hpieces⟩ := condition_ok hsource htest indent "while test"
  simp only [statementText, h, hbody, htext, ok_bind, Tree.written_while h]
  simp [hpieces, Piece.spelling, Piece.keyword, hhead]
  rfl

lemma doWhileText_ok (h : node.payload = .doWhileStatement (some body') (some test)) (htest : Prints inner test) :
    statementText source inner indent (.mk node) node = .ok (spellings ((Tree.mk node).written indent)) := by
  have hwhile : Text.ofString " while (" = 0x20 :: (("while" : Text) ++ (" (" : Text)) := by decide
  have hclosing : Text.ofString ");" = (")" : Text) ++ (";" : Text) := by decide
  obtain ⟨text, htext, hpieces⟩ := condition_ok hsource htest indent "do-while test"
  simp only [statementText, h, hbody, htext, ok_bind, Tree.written_doWhile h]
  simp [hpieces, spaced, Piece.spelling, Piece.keyword, Piece.punctuator, hwhile, hclosing]
  rfl

omit hsource in
lemma forText_ok {test : Option Tree} (h : node.payload = .forStatement none test update (some body'))
    (htest : ∀ x ∈ test, Operators x) (htest' : ∀ x ∈ test, Prints inner x) (hupdate : ∀ x ∈ update, Operators x)
    (hupdate' : ∀ x ∈ update, Prints inner x) :
    statementText source inner indent (.mk node) node = .ok (spellings ((Tree.mk node).written indent)) := by
  have hhead : Text.ofString "for (" = ("for" : Text) ++ (0x20 :: ("(" : Text)) := by decide
  simp only [statementText, h, optional_ok htest htest', optional_ok hupdate hupdate', hbody, ok_bind, pure_bind,
    Tree.written_for h]
  simp [spellings_parenthesized, Piece.spelling, Piece.keyword, Piece.punctuator, hhead]
  rfl

lemma ifThenText_ok (h : node.payload = .ifStatement (some test) (some body') none) (htest : Prints inner test) :
    statementText source inner indent (.mk node) node = .ok (spellings ((Tree.mk node).written indent)) := by
  have hhead : Text.ofString "if (" = ("if" : Text) ++ (" (" : Text) := by decide
  obtain ⟨text, htext, hpieces⟩ := condition_ok hsource htest indent "if test"
  simp only [statementText, h, ifText, need_some hsource, hbody, htext, ok_bind, Tree.written_ifThen h,
    Option.isSome_none, Bool.false_and, Bool.false_eq_true, if_false]
  simp [hpieces, Piece.spelling, Piece.keyword, hhead]
  rfl

omit hbody

include hwrites

lemma ifElseText_ok (h : node.payload = .ifStatement (some test) (some taken) (some other)) (htest : Prints inner test)
    (htaken : Statements taken) (htaken' : taken.size < t.size) (hother : Statements other)
    (hother' : other.size < t.size) :
    statementText source inner indent (.mk node) node = .ok (spellings ((Tree.mk node).written indent)) := by
  have hhead : Text.ofString "if (" = ("if" : Text) ++ (" (" : Text) := by decide
  have hmark : Text.ofString " else" = 0x20 :: ("else" : Text) := by decide
  obtain ⟨text, htext, hpieces⟩ := condition_ok hsource htest indent "if test"
  simp only [statementText, h, ifText, need_some hsource, htext, ok_bind, Tree.written_ifElse h,
    Option.isSome_some, Bool.true_and]
  rw [branch_ok hsource hwrites htaken htaken' indent, alternate_ok hsource hwrites hother hother' indent]
  simp [hpieces, spaced, Piece.spelling, Piece.keyword, hhead, hmark]
  rfl

end Kinds

include hexpressions

/-- The text of a statement is that of its pieces. -/
lemma Statements.statementText_ok (h : Statements t) (indent : Nat) :
    statementText source inner indent t t.node = .ok (spellings (t.written indent)) := by
  have hprints (e : Tree) (he : Operators e) (hmem : e ∈ t.node.payload.children) : Prints inner e :=
    hexpressions e he (Tree.size_lt hmem)
  have hnested (s : Tree) (hs : Statements s) (hmem : s ∈ t.node.payload.children) :=
    body_ok hsource hwrites hs (Tree.size_lt hmem) indent
  cases h with
  | empty _ h =>
    rw [statementText, Tree.node_mk, h, Tree.written_empty h]
    rfl
  | debugger _ h =>
    rw [statementText, Tree.node_mk, h, Tree.written_debugger h]
    rfl
  | expression _ h he => exact expressionStatement_ok hsource h (hprints _ he (h ▸ .head _)) indent
  | throw _ h he => exact throwText_ok hsource h he (hprints _ he (h ▸ .head _)) indent
  | «return» _ h he =>
    refine returnText_ok h he (fun x hx => hprints x (he x hx) ?_) indent
    cases hx
    exact h ▸ .head _
  | «break» _ h hlabel =>
    rw [statementText, Tree.node_mk, h, Tree.written_break h, ← jump_eq]
    rfl
  | «continue» _ h hlabel =>
    rw [statementText, Tree.node_mk, h, Tree.written_continue h, ← jump_eq]
    rfl
  | labeled _ h hlabel hbody =>
    exact labeledText_ok hsource h hbody (hwrites _ hbody (Tree.size_lt (h ▸ .head _))) indent
  | «while» _ h htest hbody =>
    exact whileText_ok hsource (hnested _ hbody (h ▸ .tail _ (.head _))) h (hprints _ htest (h ▸ .head _))
  | doWhile _ h htest hbody =>
    exact doWhileText_ok hsource (hnested _ hbody (h ▸ .head _)) h (hprints _ htest (h ▸ .tail _ (.head _)))
  | @«for» node test update body _ h htest hupdate hbody =>
    have hmem : ∀ x ∈ test.toList ++ update.toList ++ [body], x ∈ node.payload.children := fun x hx => by
      rw [h]
      change x ∈ test.toList ++ (update.toList ++ ([body] ++ []))
      simpa using hx
    exact forText_ok (hnested body hbody (hmem body (by simp))) h
      htest (fun x hx => hprints x (htest x hx) (hmem x (by simp_all)))
      hupdate (fun x hx => hprints x (hupdate x hx) (hmem x (by simp_all)))
  | ifThen _ h htest htaken =>
    exact ifThenText_ok hsource (hnested _ htaken (h ▸ .tail _ (.head _))) h (hprints _ htest (h ▸ .head _))
  | ifElse _ h htest htaken hother hends =>
    exact ifElseText_ok hsource hwrites h (hprints _ htest (h ▸ .head _)) htaken
      (Tree.size_lt (h ▸ .tail _ (.head _))) hother (Tree.size_lt (h ▸ .tail _ (.tail _ (.head _))))
  | @block _ body hsilent h hbody =>
    have hinner (x : Tree) (hx : x ∈ body) : Statements x ∧ Writes inner x :=
      ⟨hbody x hx, hwrites x (hbody x hx) (Tree.size_lt (h ▸ mem_children_block hx))⟩
    simp only [statementText, Tree.node_mk, h]
    exact block_ok hsource (.block hsilent h hbody) h hinner indent

end Statement

lemma Statements.writes {t : Tree} (h : Statements t) {limit : Int} {room : Nat} (hroom : t.size ≤ room)
    (hsize : t.size ≤ source.size) : Writes (partUpTo source limit room) t := by
  induction room generalizing t with
  | zero =>
    have := t.size_pos
    omega
  | succ room ih =>
    intro indent
    simp only [partUpTo, partText, need_some hsource, ok_bind]
    exact h.statementText_ok hsource (fun e he hlt => he.prints hsource (by omega) (by omega))
      (fun s hs hlt => ih hs (by omega) (by omega)) indent

end Printing

/-! ### Scripts -/

namespace Tree

/-- A script of some statements. -/
def asScript (body : List Tree) : Tree := of (.program (body.map some)) {}

/-- The pieces of a script. -/
def scriptPieces : List Tree → List Piece
  | [] => []
  | s :: rest => s.written 0 ++ writtenLines 0 (rest.map some)

lemma size_lt_asScript {s : Tree} (hs : s ∈ body) : s.size < (asScript body).size := by
  refine size_lt ?_
  change s ∈ (body.map some).filterMap id ++ []
  simpa using hs

end Tree

lemma join_script (h : ∀ s ∈ body, Statements s) :
    Text.join "\n" (body.map (Tree.line 0)) = spellings (Tree.scriptPieces body) := by
  cases body with
  | nil => rfl
  | cons s rest =>
    rw [List.map_cons, join_lines, Tree.scriptPieces, spellings_append,
      spellings_lines fun s hs => (h s (by simp [hs])).phrase 0]
    rfl

theorem print_script (h : ∀ s ∈ body, Statements s) {options : PrintOptions}
    (hdepth : ∀ s ∈ body, (s.size : Int) ≤ options.maxDepth) :
    (Tree.asScript body).print options = .ok (spellings (Tree.scriptPieces body)) := by
  have hsource : ∀ t : Tree, (Tree.asScript body).source.node? t = some t.node := fun _ => rfl
  have hwrites (s : Tree) (hs : s ∈ body) : Statements s ∧
      Writes (partUpTo (Tree.asScript body).source options.maxDepth options.maxDepth.toNat) s := by
    have := hdepth s hs
    exact ⟨h s hs, (h s hs).writes hsource (by omega) (Nat.le_of_lt (Tree.size_lt_asScript hs))⟩
  rw [Tree.print, NodeSource.print, need_some hsource, ok_bind]
  change (statementLines _ _ 0 (body.map some) [] >>= fun lines => pure (Text.join "\n" lines)) = _
  rw [statementLines_ok hsource hwrites, ok_bind, join_script h]
  rfl

end PlainScript
