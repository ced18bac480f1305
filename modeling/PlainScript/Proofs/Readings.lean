import PlainScript.Proofs.Improvement
import PlainScript.Proofs.Places
import Mathlib.Data.List.Nodup

/-! What a node is read as when its slots change, or the readings of its children. -/
namespace PlainScript

open Statement Payload

/-- Readings of the same sort, with related statements. -/
inductive Reading.Rel (rel : Statement → Statement → Prop) : Reading → Reading → Prop
  | expression (e : Expression) : Rel rel (.expression e) (.expression e)
  | statement {s t : Statement} (h : rel s t) : Rel rel (.statement s) (.statement t)
  | clause (test : Option Expression) {s t : Statement} (h : rel s t) :
      Rel rel (.clause test s) (.clause test t)

/-- What could be read can still be read, and is related. -/
def Follows (rel : Statement → Statement → Prop) (before after : Option Reading) : Prop :=
  ∀ r, before = some r → ∃ r', after = some r' ∧ r.Rel rel r'

/-- What could be read in a slot can still be read in it. A statement may leave a slot that may do without. -/
def Slot.Follows (rel : Statement → Statement → Prop) (read read' : NodeId → Option Reading) (role : Role) :
    Slot NodeId → Slot NodeId → Prop
  | .one c, .one c' =>
    (c = none → c' = none) ∧ (∀ e, expressionIn read c = some e → expressionIn read' c' = some e) ∧
      ∀ s, statementIn read c = some s → (∃ t, statementIn read' c' = some t ∧ rel s t) ∨
        role ≠ .statement ∧ c' = none ∧ rel s .empty
  | .many cs, .many cs' =>
    (∀ ss, cs.mapM (statementIn read) = some ss →
      ∃ ts, cs'.mapM (statementIn read') = some ts ∧ rel (.block ss) (.block ts)) ∧
    ∀ clauses, cs.mapM (clauseIn read) = some clauses →
      ∃ clauses', cs'.mapM (clauseIn read') = some clauses' ∧
        List.Forall₂ (fun x y => x.1 = y.1 ∧ rel x.2 y.2) clauses clauses'
  | _, _ => False

variable {rel : Statement → Statement → Prop} {read read' : NodeId → Option Reading}

lemma Reading.Rel.refl (h : ∀ s, rel s s) : ∀ r : Reading, r.Rel rel r
  | .expression e => .expression e
  | .statement s => .statement (h s)
  | .clause test s => .clause test (h s)

lemma Reading.Rel.trans (h : ∀ ⦃s t u⦄, rel s t → rel t u → rel s u) {r r' r'' : Reading} (hr : r.Rel rel r')
    (hr' : r'.Rel rel r'') : r.Rel rel r'' := by
  cases hr with
  | expression => exact hr'
  | statement hst =>
    cases hr' with
    | statement htu => exact .statement (h hst htu)
  | clause test hst =>
    cases hr' with
    | clause _ htu => exact .clause test (h hst htu)

lemma Follows.refl (h : ∀ s, rel s s) (x : Option Reading) : Follows rel x x :=
  fun r hr => ⟨r, hr, .refl h r⟩

lemma Follows.trans {x y z : Option Reading} (hxy : Follows rel x y)
    (h : ∀ ⦃s t u⦄, rel s t → rel t u → rel s u) (hyz : Follows rel y z) : Follows rel x z := by
  intro r hr
  obtain ⟨r', hr', hrel⟩ := hxy r hr
  obtain ⟨r'', hr'', hrel'⟩ := hyz r' hr'
  exact ⟨r'', hr'', hrel.trans h hrel'⟩

namespace Payload

/-! ### Parts of a node -/

section Parts

variable {α : Type} {c c' : Option NodeId} {cs cs' : List (Option NodeId)} {role : Role}

lemma follows_some {r r' : Reading} (h : r.Rel rel r') : Follows rel (some r) (some r') := by
  rintro _ ⟨⟩
  exact ⟨r', rfl, h⟩

lemma follows_bind {x x' : Option α} {f f' : α → Option Reading}
    (h : ∀ a, x = some a → ∃ a', x' = some a' ∧ Follows rel (f a) (f' a')) :
    Follows rel (x >>= f) (x' >>= f') := by
  intro r hr
  obtain ⟨a, ha, hr⟩ := Option.bind_eq_some_iff.mp hr
  obtain ⟨a', ha', hfollows⟩ := h a ha
  obtain ⟨r', hr', hrel⟩ := hfollows r hr
  exact ⟨r', Option.bind_eq_some_iff.mpr ⟨a', ha', hr'⟩, hrel⟩

lemma follows_expression {f f' : Expression → Option Reading}
    (h : (Slot.one c).Follows rel read read' role (.one c')) (hf : ∀ e, Follows rel (f e) (f' e)) :
    Follows rel (expressionIn read c >>= f) (expressionIn read' c' >>= f') :=
  follows_bind fun e he => ⟨e, h.2.1 e he, hf e⟩

/-- An expression that may be missing. -/
lemma follows_part (g : Option Expression → Option α) (hg : g none = none) {missing : α}
    {f f' : α → Option Reading} (h : (Slot.one c).Follows rel read read' role (.one c'))
    (hf : ∀ a, Follows rel (f a) (f' a)) :
    Follows rel (orMissing missing (fun slot => g (expressionIn read slot)) c >>= f)
      (orMissing missing (fun slot => g (expressionIn read' slot)) c' >>= f') := by
  refine follows_bind fun a ha => ⟨a, ?_, hf a⟩
  cases c with
  | none => simpa [h.1 rfl, orMissing] using ha
  | some x =>
    cases he : expressionIn read (some x) with
    | none => simp [orMissing, he, hg] at ha
    | some e =>
      have hx := h.2.1 e he
      cases c' with
      | none => simp [expressionIn] at hx
      | some y => simpa [orMissing, he, hx] using ha

lemma follows_statement {f f' : Statement → Option Reading}
    (h : (Slot.one c).Follows rel read read' role (.one c')) (hrole : role = .statement)
    (hf : ∀ s t, rel s t → Follows rel (f s) (f' t)) :
    Follows rel (statementIn read c >>= f) (statementIn read' c' >>= f') :=
  follows_bind fun s hs => by
    obtain ⟨t, ht, hst⟩ := (h.2.2 s hs).resolve_right fun h => h.1 hrole
    exact ⟨t, ht, hf s t hst⟩

lemma follows_alternate (hrefl : rel .empty .empty) {f f' : Statement → Option Reading}
    (h : (Slot.one c).Follows rel read read' role (.one c'))
    (hf : ∀ s t, rel s t → Follows rel (f s) (f' t)) :
    Follows rel (orMissing .empty (statementIn read) c >>= f)
      (orMissing .empty (statementIn read') c' >>= f') := by
  refine follows_bind fun s hs => ?_
  cases c with
  | none =>
    obtain rfl := Option.some.inj hs
    exact ⟨.empty, by simp [h.1 rfl, orMissing], hf _ _ hrefl⟩
  | some x =>
    obtain ⟨t, ht, hst⟩ | ⟨-, rfl, hst⟩ := h.2.2 s hs
    · cases c' with
      | none => simp [statementIn] at ht
      | some y => exact ⟨t, ht, hf s t hst⟩
    · exact ⟨.empty, rfl, hf s _ hst⟩

lemma follows_block {f f' : List Statement → Option Reading}
    (h : (Slot.many cs).Follows rel read read' role (.many cs'))
    (hf : ∀ ss ts, rel (.block ss) (.block ts) → Follows rel (f ss) (f' ts)) :
    Follows rel (cs.mapM (statementIn read) >>= f) (cs'.mapM (statementIn read') >>= f') :=
  follows_bind fun ss hss => by
    obtain ⟨ts, hts, hst⟩ := h.1 ss hss
    exact ⟨ts, hts, hf ss ts hst⟩

end Parts

/-! ### Nodes -/

lemma modifySlot_id (p : Payload NodeId) : p.modifySlot 0 id id = p := by
  cases p <;> rfl

/-- The same statement with other children, or a node that is read without a look at its children. -/
inductive Reslotted : Payload NodeId → Payload NodeId → Prop
  | program (body body' : List (Option NodeId)) : Reslotted (program body) (program body')
  | block (body body' : List (Option NodeId)) : Reslotted (blockStatement body) (blockStatement body')
  | branch (test test' consequent consequent' alternate alternate' : Option NodeId) :
      Reslotted (ifStatement test consequent alternate) (ifStatement test' consequent' alternate')
  | loop (test test' body body' : Option NodeId) : Reslotted (whileStatement test body) (whileStatement test' body')
  | doWhile (body body' test test' : Option NodeId) :
      Reslotted (doWhileStatement body test) (doWhileStatement body' test')
  | counting (init init' test test' update update' body body' : Option NodeId) :
      Reslotted (forStatement init test update body) (forStatement init' test' update' body')
  | switch (discriminant discriminant' : Option NodeId) (cases cases' : List (Option NodeId)) :
      Reslotted (switchStatement discriminant cases) (switchStatement discriminant' cases')
  | clause (test test' : Option NodeId) (consequent consequent' : List (Option NodeId)) :
      Reslotted (switchCase test consequent) (switchCase test' consequent')
  | labeled (label : Text) (body body' : Option NodeId) :
      Reslotted (labeledStatement label body) (labeledStatement label body')
  | returning (argument argument' : Option NodeId) : Reslotted (returnStatement argument) (returnStatement argument')
  | throwing (argument argument' : Option NodeId) : Reslotted (throwStatement argument) (throwStatement argument')
  | evaluating (e e' : Option NodeId) : Reslotted (expressionStatement e) (expressionStatement e')
  | other {p q : Payload NodeId} (h : ∀ read read' x, p.reading? read x = q.reading? read' x) : Reslotted p q

lemma reslotted_modifySlot (p : Payload NodeId) (n : Nat) (one : Option NodeId → Option NodeId)
    (many : List (Option NodeId) → List (Option NodeId)) : Reslotted p (p.modifySlot n one many) := by
  cases p with
  | program => rcases n with _ | n <;> exact .program ..
  | blockStatement => rcases n with _ | n <;> exact .block ..
  | ifStatement => rcases n with _ | _ | _ | n <;> exact .branch ..
  | whileStatement => rcases n with _ | _ | n <;> exact .loop ..
  | doWhileStatement => rcases n with _ | _ | n <;> exact .doWhile ..
  | forStatement => rcases n with _ | _ | _ | _ | n <;> exact .counting ..
  | switchStatement => rcases n with _ | _ | n <;> exact .switch ..
  | switchCase => rcases n with _ | _ | n <;> exact .clause ..
  | labeledStatement => rcases n with _ | n <;> exact .labeled ..
  | returnStatement => rcases n with _ | n <;> exact .returning ..
  | throwStatement => rcases n with _ | n <;> exact .throwing ..
  | expressionStatement => rcases n with _ | n <;> exact .evaluating ..
  | _ => rcases n with _ | _ | _ | _ | _ | n <;> exact .other fun _ _ _ => rfl

/-- A switch follows if its clauses do, one by one. -/
lemma reading_switch_follows (hrel : Congruent rel) (x : NodeId) {discriminant discriminant' : Option NodeId}
    {cases cases' : List (Option NodeId)} {role role' : Role}
    (hdiscriminant : (Slot.one discriminant).Follows rel read read' role (.one discriminant'))
    (hcases : (Slot.many cases).Follows rel read read' role' (.many cases')) :
    Follows rel ((switchStatement discriminant cases).reading? read x)
      ((switchStatement discriminant' cases').reading? read' x) := by
  refine follows_expression hdiscriminant fun e => follows_bind fun clauses hclauses => ?_
  obtain ⟨clauses', hclauses', hall⟩ := hcases.2 clauses hclauses
  have htests : List.Forall₂ (· = ·) (clauses.map (·.1)) (clauses'.map (·.1)) :=
    List.forall₂_map_left_iff.mpr (List.forall₂_map_right_iff.mpr (hall.imp fun _ _ => And.left))
  have hbodies : List.Forall₂ rel (clauses.map (·.2)) (clauses'.map (·.2)) :=
    List.forall₂_map_left_iff.mpr (List.forall₂_map_right_iff.mpr (hall.imp fun _ _ => And.right))
  rw [List.forall₂_eq_eq_eq] at htests
  exact ⟨clauses', hclauses', htests ▸ follows_some (.statement (hrel.switch hbodies))⟩

/-- A node follows if all its slots do. -/
theorem reading_follows (hrel : Congruent rel) (x : NodeId) (p : Payload NodeId) (n : Nat)
    (one : Option NodeId → Option NodeId) (many : List (Option NodeId) → List (Option NodeId))
    (h : List.Forall₂ (fun x y => x.1 = y.1 ∧ x.2.Follows rel read read' x.1 y.2) p.slots
      (p.modifySlot n one many).slots) :
    Follows rel (p.reading? read x) ((p.modifySlot n one many).reading? read' x) := by
  have hslots := p.reslotted_modifySlot n one many
  generalize p.modifySlot n one many = q at h hslots ⊢
  cases hslots with
  | program | block =>
    obtain _ | ⟨⟨-, hbody⟩, _⟩ := h
    exact follows_block hbody fun ss ts hst => follows_some (.statement hst)
  | branch =>
    obtain _ | ⟨⟨-, htest⟩, _ | ⟨⟨-, htaken⟩, _ | ⟨⟨-, hotherwise⟩, _⟩⟩⟩ := h
    exact follows_expression htest fun e => follows_statement htaken rfl fun s t hst =>
      follows_alternate (hrel.refl _) hotherwise fun s' t' hst' =>
        follows_some (.statement (hrel.branch hst hst'))
  | loop =>
    obtain _ | ⟨⟨-, htest⟩, _ | ⟨⟨-, hbody⟩, _⟩⟩ := h
    exact follows_expression htest fun e => follows_statement hbody rfl fun s t hst =>
      follows_some (.statement (hrel.loop hst))
  | doWhile =>
    obtain _ | ⟨⟨-, hbody⟩, _ | ⟨⟨-, htest⟩, _⟩⟩ := h
    exact follows_statement hbody rfl fun s t hst => follows_expression htest fun e =>
      follows_some (.statement (hrel.doWhile hst))
  | counting =>
    obtain _ | ⟨⟨-, hinit⟩, _ | ⟨⟨-, htest⟩, _ | ⟨⟨-, hupdate⟩, _ | ⟨⟨-, hbody⟩, _⟩⟩⟩⟩ := h
    exact follows_part id rfl hinit fun e => follows_part id rfl htest fun e' =>
      follows_part id rfl hupdate fun e'' => follows_statement hbody rfl fun s t hst =>
        follows_some (.statement (hrel.loop hst))
  | switch =>
    obtain _ | ⟨⟨-, hdiscriminant⟩, _ | ⟨⟨-, hcases⟩, _⟩⟩ := h
    exact reading_switch_follows hrel x hdiscriminant hcases
  | clause =>
    obtain _ | ⟨⟨-, htest⟩, _ | ⟨⟨-, hconsequent⟩, _⟩⟩ := h
    exact follows_part (Option.map some) rfl htest fun test => follows_block hconsequent fun ss ts hst =>
      follows_some (.clause test hst)
  | labeled =>
    obtain _ | ⟨⟨-, hbody⟩, _⟩ := h
    exact follows_statement hbody rfl fun s t hst => follows_some (.statement (hrel.labeled hst))
  | returning =>
    obtain _ | ⟨⟨-, hargument⟩, _⟩ := h
    exact follows_part (Option.map some) rfl hargument fun e => follows_some (.refl hrel.refl _)
  | throwing =>
    obtain _ | ⟨⟨-, hargument⟩, _⟩ := h
    exact follows_expression hargument fun e => follows_some (.refl hrel.refl _)
  | evaluating =>
    obtain _ | ⟨⟨-, he⟩, _⟩ := h
    exact follows_expression he fun e => follows_some (.refl hrel.refl _)
  | other heq => exact fun r hr => ⟨r, by rwa [← heq read read' x], .refl hrel.refl r⟩

end Payload

/-! ### Slots that keep their children -/

section Children

variable {x : NodeId} {c : Option NodeId} {cs : List (Option NodeId)}

lemma statementIn_some {s : Statement} : statementIn read (some x) = some s ↔ read x = some (.statement s) := by
  cases h : read x with
  | none => simp [statementIn, h]
  | some r => cases r <;> simp [statementIn, h, Reading.statement?]

lemma statementIn_follows (h : ∀ x ∈ c, Follows rel (read x) (read' x)) {s : Statement}
    (hs : statementIn read c = some s) : ∃ t, statementIn read' c = some t ∧ rel s t := by
  obtain ⟨r, hr, hs⟩ := Option.bind_eq_some_iff.mp hs
  obtain ⟨x, rfl, hr⟩ := Option.bind_eq_some_iff.mp hr
  obtain ⟨r', hr', hrel⟩ := h x rfl r hr
  cases hrel with
  | statement hst =>
    cases hs
    exact ⟨_, statementIn_some.mpr hr', hst⟩
  | _ => cases hs

lemma expressionIn_follows (h : ∀ x ∈ c, Follows rel (read x) (read' x)) {e : Expression}
    (he : expressionIn read c = some e) : expressionIn read' c = some e := by
  obtain ⟨r, hr, he⟩ := Option.bind_eq_some_iff.mp he
  obtain ⟨x, rfl, hr⟩ := Option.bind_eq_some_iff.mp hr
  obtain ⟨r', hr', hrel⟩ := h x rfl r hr
  cases hrel with
  | expression =>
    cases he
    simp [expressionIn, hr', Reading.expression?]
  | _ => cases he

lemma clauseIn_follows (h : ∀ x ∈ c, Follows rel (read x) (read' x)) {a : Option Expression × Statement}
    (ha : clauseIn read c = some a) : ∃ b, clauseIn read' c = some b ∧ a.1 = b.1 ∧ rel a.2 b.2 := by
  obtain ⟨r, hr, ha⟩ := Option.bind_eq_some_iff.mp ha
  obtain ⟨x, rfl, hr⟩ := Option.bind_eq_some_iff.mp hr
  obtain ⟨r', hr', hrel⟩ := h x rfl r hr
  cases hrel with
  | @clause test s t hst =>
    cases ha
    exact ⟨(test, t), by simp [clauseIn, hr', Reading.clause?], rfl, hst⟩
  | _ => cases ha

lemma mapM_follows {α : Type} {g g' : Option NodeId → Option α} {Q : α → α → Prop}
    (h : ∀ c ∈ cs, ∀ a, g c = some a → ∃ b, g' c = some b ∧ Q a b) {as : List α}
    (has : cs.mapM g = some as) : ∃ bs, cs.mapM g' = some bs ∧ List.Forall₂ Q as bs := by
  induction cs generalizing as with
  | nil =>
    cases has
    exact ⟨[], rfl, .nil⟩
  | cons c rest ih =>
    rw [List.mapM_cons] at has
    obtain ⟨a, ha, has⟩ := Option.bind_eq_some_iff.mp has
    obtain ⟨as', has', ⟨⟩⟩ := Option.bind_eq_some_iff.mp has
    obtain ⟨b, hb, hab⟩ := h c (by simp) a ha
    obtain ⟨bs, hbs, hall⟩ := ih (fun c hc => h c (by simp [hc])) has'
    exact ⟨b :: bs, by rw [List.mapM_cons, hb, hbs]; rfl, .cons hab hall⟩

lemma exists_of_mapM {α : Type} {g : Option NodeId → Option α} {as : List α} (has : cs.mapM g = some as)
    (hc : c ∈ cs) : ∃ a, g c = some a := by
  induction cs generalizing as with
  | nil => simp at hc
  | cons d rest ih =>
    rw [List.mapM_cons] at has
    obtain ⟨a, ha, has⟩ := Option.bind_eq_some_iff.mp has
    obtain ⟨as', has', -⟩ := Option.bind_eq_some_iff.mp has
    rcases List.mem_cons.mp hc with rfl | hc
    · exact ⟨a, ha⟩
    · exact ih has' hc

lemma exists_ids {ss : List Statement} (h : cs.mapM (statementIn read) = some ss) :
    ∃ xs : List NodeId, cs = xs.map some := by
  induction cs generalizing ss with
  | nil => exact ⟨[], rfl⟩
  | cons c rest ih =>
    rw [List.mapM_cons] at h
    obtain ⟨s, hs, h⟩ := Option.bind_eq_some_iff.mp h
    obtain ⟨ss', hss', -⟩ := Option.bind_eq_some_iff.mp h
    obtain ⟨xs, rfl⟩ := ih hss'
    cases c with
    | none => cases hs
    | some x => exact ⟨x :: xs, rfl⟩

lemma mapM_append_eq_some {α : Type} {g : Option NodeId → Option α} {cs' : List (Option NodeId)} {as : List α} :
    (cs ++ cs').mapM g = some as ↔ ∃ bs bs', cs.mapM g = some bs ∧ cs'.mapM g = some bs' ∧ as = bs ++ bs' := by
  rw [List.mapM_append]
  refine ⟨fun h => ?_, ?_⟩
  · obtain ⟨bs, hbs, h⟩ := Option.bind_eq_some_iff.mp h
    obtain ⟨bs', hbs', ⟨⟩⟩ := Option.bind_eq_some_iff.mp h
    exact ⟨bs, bs', hbs, hbs', rfl⟩
  · rintro ⟨bs, bs', hbs, hbs', rfl⟩
    rw [hbs, hbs']
    rfl

/-- A slot follows if its children do. -/
lemma slot_follows (hrel : Congruent rel) (role : Role) {slot : Slot NodeId}
    (h : ∀ x ∈ slot.children, Follows rel (read x) (read' x)) : slot.Follows rel read read' role slot := by
  cases slot with
  | one c =>
    have hc (x : NodeId) (hx : x ∈ c) : Follows rel (read x) (read' x) := h x (by simpa using hx)
    exact ⟨id, fun e => expressionIn_follows hc, fun s hs => .inl (statementIn_follows hc hs)⟩
  | many cs =>
    have hcs (c : Option NodeId) (hc : c ∈ cs) (x : NodeId) (hx : x ∈ c) : Follows rel (read x) (read' x) :=
      h x (List.mem_filterMap.mpr ⟨c, hc, hx⟩)
    refine ⟨fun ss hss => ?_, fun clauses => mapM_follows fun c hc a => clauseIn_follows (hcs c hc)⟩
    obtain ⟨ts, hts, hst⟩ := mapM_follows (fun c hc s => statementIn_follows (hcs c hc)) hss
    exact ⟨ts, hts, hrel.block hst⟩

end Children

/-- A node with the same children follows if they do. -/
lemma reading_follows_children (hrel : Congruent rel) (x : NodeId) (p : Payload NodeId)
    (h : ∀ c ∈ p.children, Follows rel (read c) (read' c)) :
    Follows rel (p.reading? read x) (p.reading? read' x) := by
  have hslots := @reading_follows rel read read' hrel x p 0 id id
  rw [p.modifySlot_id] at hslots
  refine hslots (List.forall₂_same.mpr fun entry hentry => ⟨rfl, slot_follows hrel _ fun c hc => h c ?_⟩)
  exact List.mem_flatMap.mpr ⟨entry, hentry, hc⟩

/-! ### Depth -/

lemma Reading.Rel.eq {r r' : Reading} (h : r.Rel (· = ·) r') : r = r' := by
  cases h with
  | expression => rfl
  | statement h | clause _ h => rw [h]

lemma reading_mono {x : NodeId} {p : Payload NodeId} (h : ∀ c r, read c = some r → read' c = some r)
    {r : Reading} (hr : p.reading? read x = some r) : p.reading? read' x = some r := by
  have hchildren : ∀ c ∈ p.children, Follows (· = ·) (read c) (read' c) :=
    fun c _ r hr => ⟨r, h c r hr, .refl (fun _ => rfl) r⟩
  obtain ⟨r', hr', hrel⟩ := reading_follows_children eq_congruent x p hchildren r hr
  rw [hrel.eq]
  exact hr'

/-- What can be read can be read with more depth. -/
lemma Arena.readUpTo_succ {a : Arena} {n : Nat} {x : NodeId} {r : Reading} (h : a.readUpTo n x = some r) :
    a.readUpTo (n + 1) x = some r := by
  induction n generalizing x r with
  | zero => cases h
  | succ n ih =>
    obtain ⟨p, hp, hr⟩ := Option.bind_eq_some_iff.mp h
    rw [readUpTo, hp]
    exact reading_mono (fun c r => ih) hr

/-- What can be read can be read in an arena with more nodes. -/
lemma Arena.readUpTo_extends {a b : Arena} (hab : ∀ x p, a.payload? x = some p → b.payload? x = some p)
    {n : Nat} {x : NodeId} {r : Reading} (h : a.readUpTo n x = some r) : b.readUpTo n x = some r := by
  induction n generalizing x r with
  | zero => cases h
  | succ n ih =>
    obtain ⟨p, hp, hr⟩ := Option.bind_eq_some_iff.mp h
    rw [readUpTo, hab x p hp]
    exact reading_mono (fun c r => ih) hr

lemma Arena.readUpTo_mono {a : Arena} {n m : Nat} (hnm : n ≤ m) {x : NodeId} {r : Reading}
    (h : a.readUpTo n x = some r) : a.readUpTo m x = some r := by
  induction hnm with
  | refl => exact h
  | step _ ih => exact readUpTo_succ ih

/-! ### Statements in the place of another -/

section Splice

variable {x f : NodeId} {p : Payload NodeId} {place : Place} {rs : List NodeId}

/-- What comes in the place of a statement stands for it. In a list it may be any number of statements,
elsewhere it is only one, or nothing where a statement may be missing. -/
def StandsFor (read read' : NodeId → Option Reading) (f : NodeId) (place : Place) (rs : List NodeId) : Prop :=
  ∀ r, read f = some r → ∃ s, r = .statement s ∧
    (place.index.isSome → ∃ ts, (rs.map some).mapM (statementIn read') = some ts ∧
      (Statement.block [s]).Improves (.block ts)) ∧
    (place.index = none → (∃ t, statementIn read' rs.head? = some t ∧ s.Improves t) ∨
      place.role ≠ .statement ∧ rs = [] ∧ s.Improves .empty)

lemma StandsFor.expressionIn (h : StandsFor read read' f place rs) {e : Expression} :
    expressionIn read (some f) ≠ some e := by
  intro he
  obtain ⟨r, hr, he⟩ := Option.bind_eq_some_iff.mp he
  obtain ⟨s, rfl, -⟩ := h r hr
  cases he

lemma StandsFor.clauseIn (h : StandsFor read read' f place rs) {c : Option Expression × Statement} :
    clauseIn read (some f) ≠ some c := by
  intro hc
  obtain ⟨r, hr, hc⟩ := Option.bind_eq_some_iff.mp hc
  obtain ⟨s, rfl, -⟩ := h r hr
  cases hc

/-- A list in which other statements come in the place of one. -/
lemma list_splice (hstands : StandsFor read read' f place rs) (hi : place.index.isSome)
    {before after : List (Option NodeId)}
    (hothers : ∀ c ∈ before ++ after, ∀ x ∈ c, Follows Improves (read x) (read' x)) :
    (Slot.many (before ++ some f :: after)).Follows Improves read read' place.role
      (.many (before ++ rs.map some ++ after)) := by
  refine ⟨fun ss hss => ?_, fun clauses hclauses => ?_⟩
  · obtain ⟨us, rest, hus, hrest, rfl⟩ := mapM_append_eq_some.mp hss
    obtain ⟨ss, vs, hs, hvs, rfl⟩ := mapM_append_eq_some.mp (show ([some f] ++ after).mapM _ = _ from hrest)
    obtain ⟨s, hs', rfl⟩ : ∃ s, statementIn read (some f) = some s ∧ ss = [s] := by
      rw [List.mapM_cons, List.mapM_nil] at hs
      obtain ⟨s, hs', ⟨⟩⟩ := Option.bind_eq_some_iff.mp hs
      exact ⟨s, hs', rfl⟩
    obtain ⟨_, ⟨⟩, hlist, -⟩ := hstands _ (statementIn_some.mp hs')
    obtain ⟨ts, hts, hst⟩ := hlist hi
    obtain ⟨us', hus', hu⟩ := mapM_follows (fun c hc _ => statementIn_follows (hothers c (by simp [hc]))) hus
    obtain ⟨vs', hvs', hv⟩ := mapM_follows (fun c hc _ => statementIn_follows (hothers c (by simp [hc]))) hvs
    refine ⟨us' ++ ts ++ vs', mapM_append_eq_some.mpr ⟨_, _, mapM_append_eq_some.mpr ⟨_, _, hus', hts, rfl⟩,
      hvs', rfl⟩, ?_⟩
    rw [List.append_assoc]
    exact (improves_congruent.block hu).append (hst.append (improves_congruent.block hv))
  · obtain ⟨a, ha⟩ := exists_of_mapM hclauses (List.mem_append_right before (List.mem_cons_self ..))
    exact absurd ha hstands.clauseIn

/-- A node follows when other statements come in the place of one of its children. -/
theorem reading_splice (hplace : p.place? f = some place) (hnodup : p.children.Nodup)
    (hstands : StandsFor read read' f place rs)
    (hothers : ∀ c ∈ p.children, c ≠ f → Follows Improves (read c) (read' c)) :
    Follows Improves (p.reading? read x) ((p.splice place rs).reading? read' x) := by
  obtain ⟨pre, slot, post, hs, hn, hi⟩ := placeIn_eq_some hplace
  rw [Nat.zero_add] at hn
  have hsplit : p.children = pre.flatMap (·.2.children) ++ slot.children ++ post.flatMap (·.2.children) := by
    simp [children, hs]
  have hfslot : f ∈ slot.children := mem_children_of_place hi
  rw [hsplit, List.nodup_append', List.nodup_append'] at hnodup
  obtain ⟨⟨-, hslotNodup, hpre⟩, -, hpost⟩ := hnodup
  -- The slots before and behind that of `f` keep their children.
  have hbeside (entries : List (Role × Slot NodeId)) (hsub : entries.flatMap (·.2.children) ⊆ p.children)
      (hnot : f ∉ entries.flatMap (·.2.children)) :
      List.Forall₂ (fun x y => x.1 = y.1 ∧ x.2.Follows Improves read read' x.1 y.2) entries entries := by
    refine List.forall₂_same.mpr fun e he => ⟨rfl, slot_follows improves_congruent _ fun c hc => ?_⟩
    have hc' : c ∈ entries.flatMap (·.2.children) := List.mem_flatMap.mpr ⟨e, he, hc⟩
    exact hothers c (hsub hc') (ne_of_mem_of_not_mem hc' hnot)
  have hmodify (one : Option NodeId → Option NodeId) (many : List (Option NodeId) → List (Option NodeId))
      (hslot : slot.Follows Improves read read' place.role (slot.change one many)) :
      Follows Improves (p.reading? read x) ((p.modifySlot place.slot one many).reading? read' x) := by
    refine reading_follows improves_congruent x p place.slot one many ?_
    have hnew : (p.modifySlot place.slot one many).slots =
        pre ++ (place.role, slot.change one many) :: post := by
      simp [slots_modifySlot, hs, hn, List.modify_eq_take_cons_drop]
    rw [hs, hnew]
    refine List.rel_append (hbeside pre (fun c hc => ?_) fun hm => hpre hm hfslot)
      (.cons ⟨rfl, hslot⟩ (hbeside post (fun c hc => ?_) fun hm => hpost (by simp [hfslot]) hm))
    · exact hsplit ▸ by simp [hc]
    · exact hsplit ▸ by simp [hc]
  rcases hi with ⟨hi, rfl⟩ | ⟨i, cs, hi, rfl, hcs⟩
  · rw [splice, hi]
    refine hmodify _ _ ⟨fun h => absurd h (Option.some_ne_none f), fun e he => absurd he hstands.expressionIn,
      fun s hs => ?_⟩
    obtain ⟨_, ⟨⟩, -, hone⟩ := hstands _ (statementIn_some.mp hs)
    exact (hone hi).imp_right fun hgone => ⟨hgone.1, by simp [hgone.2.1], hgone.2.2⟩
  · have hindex : place.index.isSome := by simp [hi]
    have hcs := idxOf?_split hcs
    rw [splice, hi]
    refine hmodify _ _ ?_
    have hchildren : ∀ c ∈ cs.take i ++ cs.drop (i + 1), ∀ x ∈ c, Follows Improves (read x) (read' x) := by
      rintro _ hc x rfl
      have hx : x ∈ (cs.take i).filterMap id ++ (cs.drop (i + 1)).filterMap id := by
        rw [← List.filterMap_append]
        exact List.mem_filterMap.mpr ⟨some x, hc, rfl⟩
      have hkids : (Slot.many cs).children =
          (cs.take i).filterMap id ++ f :: (cs.drop (i + 1)).filterMap id := by
        rw [Slot.children_many]
        nth_rewrite 1 [hcs]
        simp
      rw [hkids, List.nodup_middle, List.nodup_cons] at hslotNodup
      refine hothers x ?_ (ne_of_mem_of_not_mem hx hslotNodup.1)
      rw [hsplit, hkids]
      grind
    have hfollows : (Slot.many _).Follows Improves read read' place.role _ := list_splice hstands hindex hchildren
    rw [← hcs] at hfollows
    exact hfollows

end Splice

end PlainScript
