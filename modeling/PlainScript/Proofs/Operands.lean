import PlainScript.Proofs.Reading
import Mathlib.Data.List.Forall2

/-! How operands are read back: names and literals, arrays, and the members, calls and constructions
made of them. -/
namespace PlainScript

open Print Grammar

/-! ### Copies of lists -/

lemma Tree.Copies.map_fold {copies ts : List Tree} (h : List.Forall₂ Copies copies ts)
    {f g : Node Tree → Tree} (hfold : ∀ copy t : Tree, copy.Copies t → copy.fold f = t.fold g) :
    (copies.map some).map (Option.map (fold f)) = (ts.map some).map (Option.map (fold g)) := by
  induction h with
  | nil => rfl
  | cons hcopy _ ih => simp only [List.map_cons, Option.map_some, hfold _ _ hcopy, ih]

lemma Tree.Copies.map_fold_slots {copies ts : List (Option Tree)}
    (h : List.Forall₂ (Option.Rel Copies) copies ts) {f g : Node Tree → Tree}
    (hfold : ∀ copy t : Tree, copy.Copies t → copy.fold f = t.fold g) :
    copies.map (Option.map (fold f)) = ts.map (Option.map (fold g)) := by
  induction h with
  | nil => rfl
  | cons hcopy _ ih =>
    rw [List.map_cons, List.map_cons, ih]
    cases hcopy with
    | some hcopy => rw [Option.map_some, Option.map_some, hfold _ _ hcopy]
    | none => rfl

/-! ### First tokens -/

/-- The words that are operands, with what they stand for. -/
def wordPayloads : List (Text × Payload Tree) :=
  [("this", .thisExpression), ("null", .nullLiteral), ("true", .booleanLiteral true),
    ("false", .booleanLiteral false)]

/-- The punctuators that begin an operand. -/
def openings : List Text := ["(", "[", "!", "~", "+", "-", "++", "--"]

lemma Piece.BeginsOperand.not_isPunctuator {p : Piece} {u : Lexeme} (h : p.BeginsOperand)
    (hkind : u.kind = p.kind) (htext : u.text = p.text) {x : Text} (hx : x ∉ openings) :
    u.token.isPunctuator x = false := by
  refine Lexeme.not_isPunctuator fun hpunct heq => hx ?_
  obtain ⟨kind, text, margin⟩ := p
  obtain rfl : kind = .punctuator := hkind.symm.trans hpunct
  obtain rfl : u.text = text := htext
  exact heq ▸ h.2

lemma Sound.first {ps : List Piece} {ts rest : List Lexeme} (h : Sound ps) (hts : Spells ps ts rest) :
    ∃ u us, ts = u :: us ∧ rest.length ≤ us.length ∧ ∀ x ∉ openings, u.token.isPunctuator x = false := by
  obtain ⟨p, hp, hbegins⟩ := h.begins
  obtain ⟨ps, rfl⟩ := List.head?_eq_some_iff.mp hp
  obtain ⟨u, us, rfl, hkind, htext, -, hus⟩ := Spells.cons_iff.mp hts
  refine ⟨u, us, rfl, ?_, fun x hx => hbegins.not_isPunctuator hkind htext hx⟩
  rw [hus.length]
  exact Nat.le_add_left _ _

section Operands

variable {c : Context} {last : Lexeme} (hc : c.inGenerator = false)

include hc

/-! ### Leaves -/

lemma Readable.leaf {t : Tree} {p : Piece} (hlayout : t.layout = .leaf p) (hhead : p.BeginsHead)
    (hnew : p.kind = .keyword → p.text ≠ "new")
    (h : ∀ d base u us, u.kind = p.kind → u.text = p.text →
      Gives c last (primary (rulesUpTo d) base) t (u :: us) us) : Readable c last t := by
  have hlevel : Level.call ≤ t.layout.level := by
    rw [hlayout]
    exact (by decide : Level.call ≤ Level.primary)
  apply Readable.of_operand hc hlevel
  intro d _
  rw [hlayout]
  apply ReadsOperand.of_primary hhead hnew _
  intro base ts rest hts
  obtain ⟨u, us, rfl, hkind, htext, -, hus⟩ := Spells.cons_iff.mp hts
  obtain rfl := Spells.nil_iff.mp hus
  exact h d base u us hkind htext

lemma readable_identifier {node : Node Tree} {name : Text} (h : node.payload = .identifier name)
    (hplain : name ∉ contextualNames) : Readable c last (.mk node) := by
  refine .leaf hc (Tree.layout_identifier (t := .mk node) h) hplain nofun fun d base u us hkind htext =>
    ⟨.of (.identifier u.text) u.position, ?_, .of fun f g _ => ?_⟩
  · have hname : u.token.kind = .identifier := hkind
    have hasync : u.token.isName "async" = false := by
      have : name ≠ "async" := by
        rintro rfl
        exact hplain (by decide)
      simp [Token.isName, Lexeme.token, htext, this]
    simp only [primary, run_bind, run_here, run_current, current_stateAt, hname, run_ahead, hasync,
      Bool.false_and, Bool.false_eq_true, if_false, identifierHere, run_advance, run_pure]
    rfl
  · simp [h, Tree.foldPayload, htext]

omit hc in
/-- The words that are operands are read as what they stand for. -/
lemma run_word {rules : Rules} {base : Parser Tree} {u : Lexeme} {us : List Lexeme} {word : Text}
    {payload : Payload Tree} (hkind : u.kind = .keyword) (htext : u.text = word)
    (h : (word, payload) ∈ wordPayloads) :
    primary rules base c (stateAt last (u :: us)) = .ok (.of payload u.position) (stateAt last us) := by
  have hkeyword : u.token.kind = .keyword := hkind
  have hword : u.token.text = word := htext
  have hne : (("null" : Text) == "this") = false ∧ (("true" : Text) == "this") = false ∧
      (("true" : Text) == "null") = false ∧ (("false" : Text) == "this") = false ∧
      (("false" : Text) == "null") = false ∧ (("false" : Text) == "true") = false := by decide
  simp only [wordPayloads, List.mem_cons, Prod.mk.injEq, List.not_mem_nil, or_false] at h
  rcases h with ⟨rfl, rfl⟩ | ⟨rfl, rfl⟩ | ⟨rfl, rfl⟩ | ⟨rfl, rfl⟩ <;>
  · simp only [primary, run_bind, run_here, run_current, current_stateAt, hkeyword, hword, hne,
      Bool.false_eq_true, if_false, beq_self_eq_true, if_true, run_skip, run_pure]
    rfl

lemma Readable.word {node : Node Tree} {word : Text} (h : (word, node.payload) ∈ wordPayloads)
    (hlayout : (Tree.mk node).layout = .leaf (.keyword word)) : Readable c last (.mk node) := by
  have hwords : ∀ entry ∈ wordPayloads, entry.1 ∈ Piece.operandWords ∧ entry.1 ≠ "new" := by
    simp only [wordPayloads, List.forall_mem_cons]
    decide
  refine .leaf hc hlayout (.inr (hwords _ h).1) (fun _ => (hwords _ h).2) fun d base u us hkind htext =>
    ⟨_, run_word hkind htext h, .of fun f g _ => ?_⟩
  simp only [wordPayloads, List.mem_cons, Prod.mk.injEq, List.not_mem_nil, or_false] at h
  rcases h with ⟨-, h⟩ | ⟨-, h⟩ | ⟨-, h⟩ | ⟨-, h⟩ <;> simp [h, Tree.foldPayload]

lemma readable_string {node : Node Tree} {value : Text} (h : node.payload = .stringLiteral value []) :
    Readable c last (.mk node) := by
  refine .leaf hc (Tree.layout_string (t := .mk node) h) trivial nofun fun d base u us hkind htext =>
    ⟨.of (.stringLiteral value u.text) u.position, ?_, .of fun f g _ => ?_⟩
  · have hstring : u.token.kind = .string value := hkind
    simp only [primary, run_bind, run_here, run_current, current_stateAt, hstring, run_skip, run_pure]
    rfl
  · simp [h, Tree.foldPayload, Payload.unspelled]

/-! ### Lists -/

section Lists

variable {rules : Rules}

omit hc

/-- An item of a list in brackets takes an element and the comma behind it, if there is one. -/
def TakesElement (c : Context) (last : Lexeme) {α : Type} (closing : Text) (item : Parser α)
    (P : α → Prop) (e : Tree) : Prop :=
  ∀ ts next rest, Spells (e.layout.within Level.assignment) ts (next :: rest) →
    next.reach < Level.assignment → ∃ a, P a ∧
      (next.token.isPunctuator closing = true →
        item c (stateAt last ts) = .ok a (stateAt last (next :: rest))) ∧
      (next.token.isPunctuator "," = true → next.token.isPunctuator closing = false →
        item c (stateAt last ts) = .ok a (stateAt last rest))

lemma repeats_list {α : Type} {closing : Text} {item : Parser α} {R : α → Option Tree → Prop}
    (es : List (Option Tree)) (hne : closing ≠ ",") (hopening : closing ∉ openings)
    (hsound : ∀ e, some e ∈ es → Sound e.layout.pieces)
    (hhole : none ∈ es → ∀ comma vs, comma.token.isPunctuator "," = true →
      ∃ a, R a none ∧ item c (stateAt last (comma :: vs)) = .ok a (stateAt last vs))
    (helement : ∀ e, some e ∈ es → TakesElement c last closing item (R · (some e)) e)
    {ts rest : List Lexeme} {close : Lexeme}
    (hts : Spells (Layout.list (es.map (Option.map Tree.layout))) ts (close :: rest))
    (hclose : close.token.isPunctuator closing = true) (hreach : close.reach = 0) :
    ∃ as, List.Forall₂ R as es ∧ Repeats c last (atPunct closing) item ts as (close :: rest) := by
  have hstop : atPunct closing c (stateAt last (close :: rest)) = .ok true (stateAt last (close :: rest)) := by
    rw [run_atPunct, current_stateAt, hclose]
  have hcomma {comma : Lexeme} (hkind : comma.kind = .punctuator) (htext : comma.text = ",") :
      comma.token.isPunctuator "," = true ∧ comma.token.isPunctuator closing = false ∧
        comma.reach < Level.assignment := by
    refine ⟨Lexeme.isPunctuator_of hkind htext, Lexeme.not_isPunctuator fun _ => ?_, ?_⟩
    · rw [htext]
      exact Ne.symm hne
    · rw [Lexeme.reach, hkind, htext]
      decide
  induction es generalizing ts with
  | nil =>
    obtain rfl := Spells.nil_iff.mp hts
    exact ⟨[], .nil, .nil hstop⟩
  | cons slot es ih =>
    have ih {ts : List Lexeme}
        (hts : Spells (Layout.list (es.map (Option.map Tree.layout))) ts (close :: rest)) :=
      ih (fun e he => hsound e (by simp [he])) (fun h => hhole (by simp [h]))
        (fun e he => helement e (by simp [he])) hts
    cases slot with
    | none =>
      obtain ⟨comma, vs, rfl, hkind, htext, -, hvs⟩ := Spells.cons_iff.mp
        (by simpa only [List.map_cons, Option.map_none, Layout.list] using hts)
      obtain ⟨heat, hnot, -⟩ := hcomma hkind htext
      obtain ⟨a, ha, hitem⟩ := hhole (by simp) comma vs heat
      obtain ⟨as, has, hrepeats⟩ := ih (Spells.spaced_iff.mp hvs)
      refine ⟨a :: as, .cons ha has, .cons ?_ hitem (Nat.lt_succ_self _) hrepeats⟩
      rw [run_atPunct, current_stateAt, hnot]
    | some e =>
      have hwithin := (hsound e (by simp)).within Level.assignment
      cases es with
      | nil =>
        obtain ⟨a, ha, hitem, -⟩ := helement e (by simp) ts close rest hts (by rw [hreach]; decide)
        obtain ⟨u, us, rfl, hlt, hfirst⟩ := hwithin.first hts
        refine ⟨[a], .cons ha .nil, .cons ?_ (hitem hclose) (Nat.lt_succ_of_le hlt) (.nil hstop)⟩
        rw [run_atPunct, current_stateAt, hfirst _ hopening]
      | cons slot es =>
        obtain ⟨mid, hmid, hrest, -⟩ := Spells.append
          (by simpa only [List.map_cons, Option.map_some, Layout.list] using hts)
        obtain ⟨comma, vs, rfl, hkind, htext, -, hvs⟩ := Spells.cons_iff.mp hrest
        obtain ⟨heat, hnot, hloose⟩ := hcomma hkind htext
        obtain ⟨a, ha, -, hitem⟩ := helement e (by simp) ts comma vs hmid hloose
        obtain ⟨u, us, rfl, hlt, hfirst⟩ := hwithin.first hmid
        obtain ⟨as, has, hrepeats⟩ := ih (Spells.spaced_iff.mp hvs)
        refine ⟨a :: as, .cons ha has, .cons ?_ (hitem heat hnot)
          (Nat.lt_succ_of_le (Nat.le_of_succ_le hlt)) hrepeats⟩
        rw [run_atPunct, current_stateAt, hfirst _ hopening]

/-- What a list in brackets needs of an element. -/
structure Listable (c : Context) (last : Lexeme) (rules : Rules) (t : Tree) : Prop where
  sound : Sound t.layout.pieces
  gives : ∀ ts next rest, Spells (t.layout.within Level.assignment) ts (next :: rest) →
    next.reach < Level.assignment → Gives c last (rules (.assignment true)) t ts (next :: rest)

lemma Listable.run_spreadOr {t : Tree} (h : Listable c last rules t) {ts rest : List Lexeme}
    {next : Lexeme} (hts : Spells (t.layout.within Level.assignment) ts (next :: rest))
    (hnext : next.reach < Level.assignment) :
    Gives c last (spreadOr (rules (.assignment true))) t ts (next :: rest) ∧
      eat "," c (stateAt last ts) = .ok false (stateAt last ts) := by
  obtain ⟨copy, hrun, hcopy⟩ := h.gives ts next rest hts hnext
  obtain ⟨u, us, rfl, -, hfirst⟩ := (h.sound.within _).first hts
  have hdots : u.token.isPunctuator "..." = false := hfirst _ (by decide)
  refine ⟨⟨copy, ?_, hcopy⟩, run_eat_not (s := stateAt last (u :: us)) (hfirst "," (by decide))⟩
  simp only [spreadOr, run_bind, run_here, run_eat_not (s := stateAt last (u :: us)) hdots,
    Bool.false_eq_true, if_false, hrun]

lemma Listable.takesArgument {e : Tree} (h : Listable c last rules e) (closing : Text) :
    TakesElement c last closing (do
      let a ← spreadOr (rules (.assignment true))
      if !(← atPunct closing) then expect ","
      return a) (·.Copies e) e := by
  intro ts next rest hts hnext
  obtain ⟨⟨copy, hrun, hcopy⟩, -⟩ := h.run_spreadOr hts hnext
  refine ⟨copy, hcopy, fun hclose => ?_, fun hcomma hnot => ?_⟩
  · simp only [run_bind, hrun, run_atPunct, current_stateAt, hclose, Bool.not_true, Bool.false_eq_true,
      if_false, run_pure]
  · simp only [run_bind, hrun, run_atPunct, current_stateAt, hnot, Bool.not_false, if_true,
      run_expect hcomma, run_pure]

lemma Listable.takesElement {e : Tree} (h : Listable c last rules e) :
    TakesElement c last "]" (do
      if ← eat "," then return none
      let element ← spreadOr (rules (.assignment true))
      if !(← atPunct "]") then expect ","
      return some element) (Option.Rel Tree.Copies · (some e)) e := by
  intro ts next rest hts hnext
  obtain ⟨⟨copy, hrun, hcopy⟩, hnone⟩ := h.run_spreadOr hts hnext
  refine ⟨some copy, .some hcopy, fun hclose => ?_, fun hcomma hnot => ?_⟩
  · simp only [run_bind, hnone, hrun, run_atPunct, current_stateAt, hclose, Bool.not_true,
      Bool.false_eq_true, if_false, run_pure]
  · simp only [run_bind, hnone, hrun, run_atPunct, current_stateAt, hnot, Bool.not_false,
      Bool.false_eq_true, if_false, if_true, run_expect hcomma, run_pure]

/-- The tokens between brackets, and the brackets. -/
lemma Spells.inBrackets {opening closing : Text} {ps : List Piece} {ts rest : List Lexeme}
    (h : Spells (inBrackets opening ps closing) ts rest) : ∃ u us v, ts = u :: us ∧
      Spells ps us (v :: rest) ∧ u.kind = .punctuator ∧ u.text = opening ∧
        v.kind = .punctuator ∧ v.text = closing := by
  obtain ⟨u, us, rfl, hkind, htext, -, hus⟩ := Spells.cons_iff.mp h
  obtain ⟨mid, hps, hclosing, -⟩ := Spells.append hus
  obtain ⟨v, vs, rfl, hkind', htext', -, hvs⟩ := Spells.cons_iff.mp hclosing
  obtain rfl := Spells.nil_iff.mp hvs
  exact ⟨u, us, v, rfl, hps, hkind, htext, hkind', htext'⟩

lemma run_arguments {es : List Tree} (hes : ∀ e ∈ es, Listable c last rules e) {ts rest : List Lexeme}
    (hts : Spells (inBrackets "(" (Layout.list (es.map fun e => some e.layout)) ")") ts rest) :
    ∃ copies : List Tree, List.Forall₂ Tree.Copies copies es ∧
      arguments rules c (stateAt last ts) = .ok (copies.map some) (stateAt last rest) := by
  obtain ⟨u, us, v, rfl, hlist, hkind, htext, hkind', htext'⟩ := hts.inBrackets
  have hopen : u.token.isPunctuator "(" = true := Lexeme.isPunctuator_of hkind htext
  have hclose : v.token.isPunctuator ")" = true := Lexeme.isPunctuator_of hkind' htext'
  have hmem {e : Tree} (he : some e ∈ es.map some) : e ∈ es := by simpa using he
  obtain ⟨copies, hcopies, hrepeats⟩ := repeats_list (es.map some)
    (R := fun (a : Tree) slot => ∀ e ∈ slot, a.Copies e) (by decide) (by decide)
    (fun e he => (hes e (hmem he)).sound) (fun h => by simp at h) (fun e he ts next rest hts hnext => by
      obtain ⟨a, ha, hitem⟩ := (hes e (hmem he)).takesArgument ")" ts next rest hts hnext
      exact ⟨a, by simpa using ha, hitem⟩) (by simpa [Function.comp_def] using hlist) hclose (by
      rw [Lexeme.reach, hkind', htext']
      decide)
  refine ⟨copies, by simpa using hcopies, ?_⟩
  simp only [arguments, run_bind, run_expect hopen, commaList, run_repeatUntil hrepeats,
    run_expect hclose, run_pure]

lemma run_arrayLiteral {es : List (Option Tree)} (hes : ∀ e, some e ∈ es → Listable c last rules e)
    {ts rest : List Lexeme}
    (hts : Spells (inBrackets "[" (Layout.list (es.map (Option.map Tree.layout))) "]") ts rest) :
    ∃ copies position, List.Forall₂ (Option.Rel Tree.Copies) copies es ∧
      arrayLiteral rules c (stateAt last ts) =
        .ok (.of (.arrayExpression copies) position) (stateAt last rest) := by
  obtain ⟨u, us, v, rfl, hlist, hkind, htext, hkind', htext'⟩ := hts.inBrackets
  have hopen : u.token.isPunctuator "[" = true := Lexeme.isPunctuator_of hkind htext
  have hclose : v.token.isPunctuator "]" = true := Lexeme.isPunctuator_of hkind' htext'
  obtain ⟨copies, hcopies, hrepeats⟩ := repeats_list es (R := Option.Rel Tree.Copies) (by decide)
    (by decide) (fun e he => (hes e he).sound) (fun _ comma vs hcomma => ⟨none, .none, by
      simp only [run_bind, run_eat hcomma, if_true, run_pure]⟩)
    (fun e he => (hes e he).takesElement) hlist hclose (by
      rw [Lexeme.reach, hkind', htext']
      decide)
  refine ⟨copies, u.position, hcopies, ?_⟩
  simp only [arrayLiteral, run_bind, run_here, run_expect hopen, run_repeatUntil hrepeats,
    run_expect hclose, run_pure]
  rfl

end Lists

lemma Readable.listable {t : Tree} (h : Readable c last t) (hsound : Sound t.layout.pieces) {d : Nat}
    (hd : 4 * t.size ≤ d) : Listable c last (rulesUpTo d) t := by
  have := t.size_pos
  obtain ⟨d, rfl⟩ := Nat.exists_eq_add_one_of_ne_zero (by omega : d ≠ 0)
  exact ⟨hsound, h.assignment_within hc hd⟩

lemma readable_array {node : Node Tree} {es : List (Option Tree)}
    (h : node.payload = .arrayExpression es) (hsound : ∀ e, some e ∈ es → Sound e.layout.pieces)
    (hread : ∀ e, some e ∈ es → Readable c last e) : Readable c last (.mk node) := by
  have hlayout := Tree.layout_array (t := .mk node) h
  apply Readable.of_operand hc (by rw [hlayout]; exact (by decide : Level.call ≤ Level.primary))
  intro d hd
  rw [hlayout]
  refine .of_primary (p := .punctuator "[") (.tail _ (.head _)) nofun _ fun base ts rest hts => ?_
  have hes (e : Tree) (he : some e ∈ es) : Listable c last (rulesUpTo d) e := by
    have := Tree.size_lt (t := .mk node) (h ▸ mem_children_array he)
    exact (hread e he).listable hc (hsound e he) (by omega)
  obtain ⟨copies, position, hcopies, hrun⟩ := run_arrayLiteral hes hts
  obtain ⟨u, us, v, rfl, -, hkind, htext, -⟩ := hts.inBrackets
  have hpunct : u.token.kind = .punctuator := hkind
  have hparen : u.token.isPunctuator "(" = false :=
    Lexeme.not_isPunctuator fun _ => by rw [htext]; decide
  have hbracket : (u.token.text == "[") = true := beq_iff_eq.mpr htext
  refine ⟨.of (.arrayExpression copies) position, ?_, .of fun f g hfold => ?_⟩
  · simp only [primary, run_bind, run_here, run_current, current_stateAt, hpunct,
      run_eat_not (s := stateAt last (u :: us)) hparen, hbracket, Bool.false_eq_true, if_false, if_true]
    exact hrun
  · simp [h, Tree.foldPayload, Tree.Copies.map_fold_slots hcopies hfold]

/-! ### Members, calls and constructions -/

section Suffixes

variable (c last) (rules : Rules) (owner : Tree) (position : Position)

omit hc in
lemma run_dot {ts rest : List Lexeme} {name : Text}
    (hts : Spells [.punctuator ".", { kind := .identifier, text := name }] ts rest) :
    ∃ place, plainMember rules owner position c (stateAt last ts) =
      .ok (some (.of (.memberExpression (some owner) (some (.of (.identifier name) place)) false false)
        position)) (stateAt last rest) := by
  obtain ⟨u, us, rfl, hkind, htext, -, hus⟩ := Spells.cons_iff.mp hts
  obtain ⟨v, vs, rfl, hkind', htext', -, hvs⟩ := Spells.cons_iff.mp hus
  obtain rfl := Spells.nil_iff.mp hvs
  have hdot : u.token.isPunctuator "." = true := Lexeme.isPunctuator_of hkind htext
  have hname : v.token.kind = .identifier := hkind'
  have hspelling : v.token.text = name := htext'
  refine ⟨v.position, ?_⟩
  simp only [plainMember, run_bind, run_eat hdot, if_true, memberName, run_current, current_stateAt, hname,
    identifierHere, run_here, run_advance, run_pure, hspelling]
  rfl

omit hc in
lemma run_bracket {ps : List Piece} {key : Tree} {ts rest : List Lexeme}
    (hts : Spells (inBrackets "[" ps "]") ts rest)
    (hkey : ∀ us next rest, Spells ps us (next :: rest) → next.reach < Level.sequence →
      Gives c last (expression rules true) key us (next :: rest)) :
    ∃ copy : Tree, copy.Copies key ∧ plainMember rules owner position c (stateAt last ts) =
      .ok (some (.of (.memberExpression (some owner) (some copy) true false) position))
        (stateAt last rest) := by
  obtain ⟨u, us, v, rfl, hps, hkind, htext, hkind', htext'⟩ := hts.inBrackets
  have hdot : u.token.isPunctuator "." = false := Lexeme.not_isPunctuator fun _ => by rw [htext]; decide
  have hopen : u.token.isPunctuator "[" = true := Lexeme.isPunctuator_of hkind htext
  have hclose : v.token.isPunctuator "]" = true := Lexeme.isPunctuator_of hkind' htext'
  obtain ⟨copy, hrun, hcopy⟩ := hkey us v rest hps (by rw [Lexeme.reach, hkind', htext']; decide)
  refine ⟨copy, hcopy, ?_⟩
  simp only [plainMember, run_bind, run_eat_not (s := stateAt last (u :: us)) hdot, run_eat hopen,
    Bool.false_eq_true, if_false, if_true, indexRest, hrun, run_expect hclose, run_pure]

variable {c last rules}

omit hc in
lemma run_call {es : List Tree} (hes : ∀ e ∈ es, Listable c last rules e)
    {ts rest : List Lexeme}
    (hts : Spells (inBrackets "(" (Layout.list (es.map fun e => some e.layout)) ")") ts rest) :
    ∃ copies : List Tree, List.Forall₂ Tree.Copies copies es ∧
      suffix rules position owner c (stateAt last ts) =
        .ok (some (.of (.callExpression (some owner) (copies.map some) false) position))
          (stateAt last rest) := by
  obtain ⟨copies, hcopies, hrun⟩ := run_arguments hes hts
  obtain ⟨u, us, v, rfl, -, hkind, htext, -⟩ := hts.inBrackets
  have hnot (p : Text) (hp : p ≠ "(") : u.token.isPunctuator p = false :=
    Lexeme.not_isPunctuator fun _ => htext ▸ Ne.symm hp
  have hopen : u.token.isPunctuator "(" = true := Lexeme.isPunctuator_of hkind htext
  refine ⟨copies, hcopies, ?_⟩
  simp only [suffix, run_bind, plainMember_stop (hnot "." (by decide)) (hnot "[" (by decide)),
    run_eat_not (s := stateAt last (u :: us)) (hnot "?." (by decide)), Bool.false_eq_true, if_false,
    run_atPunct, current_stateAt, hopen, if_true, hrun, run_pure]

variable {owner}

omit hc in
/-- A plain member follows an operand at every place. -/
lemma run_follow {ts rest : List Lexeme} {t : Tree}
    (h : ∀ position, ∃ copy : Tree, copy.Copies t ∧
      plainMember rules owner position c (stateAt last ts) = .ok (some copy) (stateAt last rest))
    (place : Option Position) : ∃ copy : Tree, copy.Copies t ∧
      follow rules place owner c (stateAt last ts) = .ok (some copy) (stateAt last rest) := by
  cases place with
  | none =>
    obtain ⟨copy, hcopy, hrun⟩ := h (stateAt last ts).current.position
    refine ⟨copy, hcopy, ?_⟩
    simp only [follow, run_bind, run_here, hrun]
  | some position =>
    obtain ⟨copy, hcopy, hrun⟩ := h position
    refine ⟨copy, hcopy, ?_⟩
    simp only [follow, suffix, run_bind, hrun, run_pure]

end Suffixes

lemma readable_member {node : Node Tree} {object key : Tree} {name : Text}
    (h : node.payload = .memberExpression (some object) (some key) false false)
    (hkey : key.node.payload = .identifier name) (hread : Readable c last object) :
    Readable c last (.mk node) := by
  have hlayout := Tree.layout_member (t := .mk node) h hkey
  apply Readable.of_operand hc (by rw [hlayout])
  intro d hd
  rw [hlayout]
  have := Tree.size_lt (t := .mk node) (c := object) (h ▸ .head _)
  refine (hread.operand_within (d := d) (by omega)).extended id (by simp)
    fun ts rest place owner hts hcopy _ => run_follow (fun position => ?_) place
  obtain ⟨place, hrun⟩ := run_dot c last (rulesUpTo d) owner position hts
  have hname : (Tree.of (.identifier name) place).Copies key := by
    obtain ⟨n⟩ := key
    exact .of fun f g _ => by rw [show n.payload = .identifier name from hkey]; rfl
  exact ⟨_, .of fun f g hfold => by simp [h, Tree.foldPayload, hfold _ _ hcopy, hfold _ _ hname], hrun⟩

lemma readable_index {node : Node Tree} {object key : Tree}
    (h : node.payload = .memberExpression (some object) (some key) true false)
    (hread : Readable c last object) (hkey : Readable c last key) : Readable c last (.mk node) := by
  have hlayout := Tree.layout_index (t := .mk node) h
  apply Readable.of_operand hc (by rw [hlayout])
  intro d hd
  rw [hlayout]
  have := Tree.size_lt (t := .mk node) (c := object) (h ▸ .head _)
  have := Tree.size_lt (t := .mk node) (c := key) (h ▸ .tail _ (.head _))
  refine (hread.operand_within (d := d) (by omega)).extended id (by simp [inBrackets])
    fun ts rest place owner hts hcopy _ => run_follow (fun position => ?_) place
  obtain ⟨copy, hcopy', hrun⟩ := run_bracket c last (rulesUpTo d) owner position hts
    fun us next rest => hkey.expression d (by omega) us next rest
  exact ⟨_, .of fun f g hfold => by simp [h, Tree.foldPayload, hfold _ _ hcopy, hfold _ _ hcopy'], hrun⟩

lemma readable_call {node : Node Tree} {callee : Tree} {args : List Tree}
    (h : node.payload = .callExpression (some callee) (args.map some) false)
    (hread : Readable c last callee) (hsound : ∀ e ∈ args, Sound e.layout.pieces)
    (hargs : ∀ e ∈ args, Readable c last e) : Readable c last (.mk node) := by
  have hlayout := Tree.layout_call (t := .mk node) h
  apply Readable.of_operand hc (by rw [hlayout])
  intro d hd
  rw [hlayout]
  have := Tree.size_lt (t := .mk node) (c := callee) (h ▸ .head _)
  have hes (e : Tree) (he : e ∈ args) : Listable c last (rulesUpTo d) e := by
    have := Tree.size_lt (t := .mk node) (h ▸ mem_children_call (some callee) false he)
    exact (hargs e he).listable hc (hsound e he) (by omega)
  refine (hread.operand_within (d := d) (by omega)).extended (fun _ => rfl) (by simp [inBrackets])
    fun ts rest place owner hts hcopy hplace => ?_
  obtain ⟨position, rfl⟩ := Option.isSome_iff_exists.mp (hplace rfl)
  obtain ⟨copies, hcopies, hrun⟩ := run_call owner position hes hts
  exact ⟨_, .of fun f g hfold => by
    simp only [h, Tree.foldPayload, Tree.foldSlot_eq, Tree.foldSlots_eq, Option.map_some,
      hfold _ _ hcopy, Tree.Copies.map_fold hcopies hfold], hrun⟩

lemma readable_new {node : Node Tree} {callee : Tree} {args : List Tree}
    (h : node.payload = .newExpression (some callee) (args.map some))
    (hlevel : callee.layout.level < Level.parenthesized) (hsound : Sound callee.layout.pieces)
    (hread : Readable c last callee) (hsounds : ∀ e ∈ args, Sound e.layout.pieces)
    (hargs : ∀ e ∈ args, Readable c last e) : Readable c last (.mk node) := by
  have hlayout := Tree.layout_new (t := .mk node) h
  apply Readable.of_operand hc (by rw [hlayout])
  intro d hd
  rw [hlayout]
  have := Tree.size_lt (t := .mk node) (c := callee) (h ▸ .head _)
  have hes (e : Tree) (he : e ∈ args) : Listable c last (rulesUpTo d) e := by
    have := Tree.size_lt (t := .mk node) (h ▸ mem_children_new (some callee) he)
    exact (hargs e he).listable hc (hsounds e he) (by omega)
  refine ⟨⟨.keyword "new", rfl, .inl rfl⟩, fun ts rest n hts hn => ?_⟩
  obtain ⟨mid, hcallee, hargs, -⟩ := Spells.append hts
  obtain ⟨u, us, rfl, hkind, htext, -, hus⟩ := Spells.cons_iff.mp hcallee
  replace hus := Spells.spaced_iff.mp hus
  obtain ⟨n, rfl⟩ := Nat.exists_eq_add_one_of_ne_zero (by simp at hn; omega : n ≠ 0)
  obtain ⟨head, vs, hhead, hgrows⟩ := (hread.callee_within hlevel (d := d) (by omega)).2 us mid n hus
    (by simpa using hn)
  obtain ⟨copy, hcopy, hgrows⟩ := hgrows none nofun
  obtain ⟨copies, hcopies, hrun⟩ := run_arguments hes hargs
  obtain ⟨w, ws, v, rfl, -, hkind', htext', -⟩ := hargs.inBrackets
  have hopen : w.token.isPunctuator "(" = true := Lexeme.isPunctuator_of hkind' htext'
  have hnot (p : Text) (hp : p ≠ "(") : w.token.isPunctuator p = false :=
    Lexeme.not_isPunctuator fun _ => htext' ▸ Ne.symm hp
  have hextend : extend (fun owner => do plainMember (rulesUpTo d) owner (← here)) head c
      (stateAt last vs) = .ok copy (stateAt last (w :: ws)) := run_extend hgrows (by
    simp only [follow, run_bind, run_here, plainMember_stop (hnot "." (by decide)) (hnot "[" (by decide))])
  have hword : u.token.isKeyword "new" = true := by
    simp [Token.isKeyword, Lexeme.token, hkind, htext, Piece.keyword]
  obtain ⟨x, xs, rfl, -, hfirst⟩ := (hsound.within _).first hus
  have hdot : x.token.isPunctuator "." = false := hfirst _ (by decide)
  refine ⟨.of (.newExpression (some copy) (copies.map some)) u.position, rest, ?_, fun place _ =>
    ⟨_, .of fun f g hfold => ?_, .refl⟩⟩
  · simp only [headUpTo, run_bind, run_atWord, current_stateAt, hword, if_true, constructionWith, run_here,
      expectWord, Bool.not_true, Bool.false_eq_true, if_false, run_skip,
      run_eat_not (s := stateAt last (x :: xs)) hdot, hhead, hextend, run_atPunct, hopen, hrun, run_pure]
    rfl
  · simp only [h, Tree.foldPayload, Tree.foldSlot_eq, Tree.foldSlots_eq, Option.map_some,
      hfold _ _ hcopy, Tree.Copies.map_fold hcopies hfold]

end Operands

end PlainScript
