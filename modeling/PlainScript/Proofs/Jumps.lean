import PlainScript.Proofs.Meaning

/-! Where jumps lead, and statements that stand for others. The labels around a statement are known from
the inside out, each with whether it is the label of a loop. A labeled `continue` leads to the innermost
statement with its label, so that a loop may take over the labels of a statement that is no loop. -/
namespace PlainScript

variable {σ V : Type} {E : Evaluator σ V}

namespace Statement

/-- The statements that a statement is made of. -/
def parts : Statement → List Statement
  | block body => body
  | branch _ taken otherwise => [taken, otherwise]
  | loop _ _ _ body | doWhile body _ | labeled _ body => [body]
  | switch _ _ bodies => bodies
  | _ => []

lemma sizeOf_part_lt {s part : Statement} (h : part ∈ s.parts) : sizeOf part < sizeOf s := by
  cases s with
  | block body | switch _ _ body =>
    have := List.sizeOf_lt_of_mem (show part ∈ body from h)
    simp
    omega
  | branch =>
    rw [branch.sizeOf_spec]
    obtain rfl | rfl := List.mem_pair.mp h <;> omega
  | loop =>
    obtain rfl := List.mem_singleton.mp h
    rw [loop.sizeOf_spec]
    omega
  | doWhile =>
    obtain rfl := List.mem_singleton.mp h
    rw [doWhile.sizeOf_spec]
    omega
  | labeled =>
    obtain rfl := List.mem_singleton.mp h
    rw [labeled.sizeOf_spec]
    omega
  | _ => exact (List.not_mem_nil h).elim

theorem induction {P : Statement → Prop} (h : ∀ s, (∀ part ∈ s.parts, P part) → P s) : ∀ s, P s :=
  fun s => h s fun part hpart =>
    have := sizeOf_part_lt hpart
    induction h part

/-! ### Equality -/

mutual

def same : Statement → Statement → Bool
  | block body, block body' => sameAll body body'
  | branch test s t, branch test' s' t' => test = test' && same s s' && same t t'
  | loop init test update s, loop init' test' update' s' =>
    init = init' && test = test' && update = update' && same s s'
  | doWhile s test, doWhile s' test' => same s s' && test = test'
  | switch e tests bodies, switch e' tests' bodies' => e = e' && tests = tests' && sameAll bodies bodies'
  | labeled label s, labeled label' s' => label = label' && same s s'
  | breaking label, breaking label' | continuing label, continuing label' => label = label'
  | returning e, returning e' => e = e'
  | throwing e, throwing e' | evaluating e, evaluating e' => e = e'
  | empty, empty => true
  | _, _ => false

def sameAll : List Statement → List Statement → Bool
  | [], [] => true
  | s :: rest, s' :: rest' => same s s' && sameAll rest rest'
  | _, _ => false

end

lemma sameAll_iff {ss ts : List Statement} (h : ∀ s ∈ ss, ∀ t, s.same t = true ↔ s = t) :
    sameAll ss ts = true ↔ ss = ts := by
  induction ss generalizing ts with
  | nil => cases ts <;> simp [sameAll]
  | cons s rest ih => cases ts <;> simp_all [sameAll]

lemma same_iff (s t : Statement) : s.same t = true ↔ s = t := by
  induction s using Statement.induction generalizing t with
  | h s ih =>
    cases s <;> cases t
    -- Most pairs are of two kinds, and then neither side holds.
    all_goals first
      | refine iff_of_false ?_ ?_ <;> · intro h; cases h
      | simp_all [same, parts, sameAll_iff, and_assoc]

instance : DecidableEq Statement := fun s t => decidable_of_iff _ (same_iff s t)

/-! ### Labels -/

@[simp] lemma meanings_eq (body : List Statement) : meanings E body = body.map (meaning E · []) := by
  induction body with
  | nil => rfl
  | cons s rest ih => simp [meanings, ih]

/-- A loop, with labels of its own or without. -/
def isLoop : Statement → Bool
  | loop .. | doWhile .. => true
  | labeled _ body => body.isLoop
  | _ => false

mutual

/-- Every labeled jump in a statement has a label to go to, which for a `continue` has to meet something
more. -/
def jumpsMeet (meets : List (Text × Bool) → Text → Bool) : List (Text × Bool) → Statement → Bool
  | env, block body => allMeet meets env body
  | env, branch _ taken otherwise => jumpsMeet meets env taken && jumpsMeet meets env otherwise
  | env, loop _ _ _ body => jumpsMeet meets env body
  | env, doWhile body _ => jumpsMeet meets env body
  | env, switch _ _ bodies => allMeet meets env bodies
  | env, labeled label body => jumpsMeet meets ((label, body.isLoop) :: env) body
  | env, breaking label => label.isEmpty || env.any (·.1 == label)
  | env, continuing label => label.isEmpty || meets env label
  | _, _ => true

def allMeet (meets : List (Text × Bool) → Text → Bool) : List (Text × Bool) → List Statement → Bool
  | _, [] => true
  | env, s :: rest => jumpsMeet meets env s && allMeet meets env rest

end

/-- Some statement around the jump that has its label is a loop. -/
def namesLoop (env : List (Text × Bool)) (label : Text) : Bool := env.contains (label, true)

/-- The innermost statement around the jump that has its label is a loop. -/
def targetsLoop (env : List (Text × Bool)) (label : Text) : Bool := env.lookup label == some true

abbrev Jumps (env : List (Text × Bool)) (s : Statement) : Prop := s.jumpsMeet targetsLoop env = true

@[simp] lemma allMeet_eq (meets : List (Text × Bool) → Text → Bool) (env : List (Text × Bool))
    (body : List Statement) : allMeet meets env body = body.all (jumpsMeet meets env) := by
  induction body with
  | nil => rfl
  | cons s rest ih => simp [allMeet, ih]

end Statement

/-! ### How behaviors end -/

/-- Every run ends in a way that is allowed. -/
def Behavior.Only (m : Behavior σ V) (P : Completion V → Prop) : Prop := ∀ s tr s' c, m s tr s' c → P c

/-- The ends of an evaluation that gives no value. -/
def Completion.IsAbrupt (c : Completion V) : Prop := c = .stopped ∨ ∃ v, c = .thrown v

lemma Evaluates.isAbrupt {e : Expression} {s s' : σ} {tr : List (NodeId × σ)} {c : Completion V}
    (h : Evaluates E e s tr s' (.error c)) : c.IsAbrupt := by
  cases h with
  | thrown => exact .inr ⟨_, rfl⟩
  | stopped => exact .inl rfl

section Only

variable {P Q : Completion V → Prop} {e : Expression} {m : Behavior σ V}

lemma Behavior.Only.mono (h : m.Only P) (hPQ : ∀ c, P c → Q c) : m.Only Q := fun s tr s' c hrun =>
  hPQ c (h s tr s' c hrun)

lemma only_ends {c : Completion V} (h : P c) : (Ends c : Behavior σ V).Only P := by
  rintro _ _ _ _ ⟨⟩
  exact h

lemma only_with {next : V → Behavior σ V} (habrupt : ∀ c, c.IsAbrupt → P c)
    (h : ∀ v, (next v).Only P) : (With E e next).Only P := by
  rintro _ _ _ _ (⟨_, hnext⟩ | he)
  · exact h _ _ _ _ _ hnext
  · exact habrupt _ he.isAbrupt

lemma only_sequence {ms : List (Behavior σ V)} (hnormal : P .normal) (h : ∀ m ∈ ms, m.Only P) :
    (sequence ms).Only P := by
  induction ms with
  | nil => exact only_ends hnormal
  | cons m rest ih =>
    rintro _ _ _ _ (⟨_, hrest⟩ | ⟨hm, -⟩)
    · exact ih (fun m hm => h m (by simp [hm])) _ _ _ _ hrest
    · exact h m (by simp) _ _ _ _ hm

lemma only_catches {label : Text} (hnormal : P .normal) (h : m.Only P) : (Catches label m).Only P := by
  rintro _ _ _ _ (_ | ⟨hm, -⟩)
  · exact hnormal
  · exact h _ _ _ _ hm

lemma only_rounds {labels : List Text} {test update : Expression} {stage : RoundStage}
    (habrupt : ∀ c, c.IsAbrupt → P c) (hnormal : P .normal)
    (h : m.Only fun c => c.goesOn labels = false → P c) : (Rounds E labels test update m stage).Only P := by
  intro s tr s' c hrun
  induction hrun with
  | exit => exact hnormal
  | testAbrupt he | updateAbrupt he => exact habrupt _ he.isAbrupt
  | leave hbody hc => exact h _ _ _ _ hbody hc
  | enter _ _ _ ih | next _ _ _ ih | updated _ _ ih => exact ih

lemma only_select {v : V} {run : Nat → Behavior σ V} {fallback : Nat} (habrupt : ∀ c, c.IsAbrupt → P c)
    (h : ∀ i, (run i).Only P) (i : Nat) (tests : List (Option Expression)) :
    (select E v run fallback i tests).Only P := by
  induction tests generalizing i with
  | nil => exact h fallback
  | cons test rest ih =>
    cases test with
    | none => exact ih (i + 1)
    | some e =>
      refine only_with habrupt fun w => ?_
      split
      · exact h i
      · exact ih (i + 1)

end Only

namespace Statement

/-- A labeled `continue` that leaves a statement goes to a loop around it. -/
theorem only_meaning (s : Statement) {env : List (Text × Bool)} {labels : List Text} (h : s.Jumps env) :
    (s.meaning E labels).Only fun c => ∀ label, label ≠ [] → c = .continuing label →
      env.lookup label = some true ∧ (s.isLoop = true → label ∉ labels) := by
  induction s using Statement.induction generalizing env labels with
  | h s ih =>
  have habrupt {P : Text → Prop} (c : Completion V) (hc : c.IsAbrupt) (label : Text) (_ : label ≠ [])
      (heq : c = .continuing label) : P label := by
    obtain rfl | ⟨v, rfl⟩ := hc <;> cases heq
  have hparts {parts : List Statement} (hsub : ∀ part ∈ parts, part ∈ s.parts)
      (hjumps : ∀ part ∈ parts, part.Jumps env) (i : Nat) :
      (sequence ((parts.map (meaning E · [])).drop i)).Only fun c => ∀ label, label ≠ [] →
        c = .continuing label → env.lookup label = some true := by
    refine only_sequence (by simp) fun m hm => ?_
    obtain ⟨part, hpart, rfl⟩ := List.mem_map.mp (List.mem_of_mem_drop hm)
    exact fun s tr s' c hrun label hlabel hc =>
      (ih part (hsub part hpart) (hjumps part hpart) s tr s' c hrun label hlabel hc).1
  have hbody (body : Statement) (hpart : body ∈ s.parts) (hjumps : body.Jumps env)
      (test update : Expression) (stage : RoundStage) :
      (Rounds E labels test update (body.meaning E []) stage).Only fun c => ∀ label, label ≠ [] →
        c = .continuing label → env.lookup label = some true ∧ (s.isLoop = true → label ∉ labels) := by
    refine only_rounds habrupt (by simp) fun s tr s' c hrun hleaves label hlabel hc => ?_
    refine ⟨(ih body hpart hjumps s tr s' c hrun label hlabel hc).1, fun _ => ?_⟩
    subst hc
    simp_all [Completion.goesOn]
  cases s with
  | block body =>
    simp only [Jumps, jumpsMeet, allMeet_eq, List.all_eq_true] at h
    rw [meaning, meanings_eq]
    exact (hparts (fun _ => id) h 0).mono fun c hc label hlabel heq => ⟨hc label hlabel heq, nofun⟩
  | branch test taken otherwise =>
    simp only [Jumps, jumpsMeet, Bool.and_eq_true] at h
    rw [meaning]
    refine only_with habrupt fun v => ?_
    split
    · exact (ih taken (by simp [parts]) h.1).mono fun c hc label hlabel heq =>
        ⟨(hc label hlabel heq).1, nofun⟩
    · exact (ih otherwise (by simp [parts]) h.2).mono fun c hc label hlabel heq =>
        ⟨(hc label hlabel heq).1, nofun⟩
  | loop init test update body =>
    rw [meaning]
    exact only_catches (by simp) (only_with habrupt fun v => hbody body (by simp [parts]) h _ _ _)
  | doWhile body test =>
    rw [meaning]
    exact only_catches (by simp) (hbody body (by simp [parts]) h _ _ _)
  | switch discriminant tests bodies =>
    simp only [Jumps, jumpsMeet, allMeet_eq, List.all_eq_true] at h
    rw [meaning, meanings_eq]
    refine only_catches (by simp) (only_with habrupt fun v => only_select habrupt (fun i => ?_) _ _)
    exact (hparts (fun _ => id) h i).mono fun c hc label hlabel heq => ⟨hc label hlabel heq, nofun⟩
  | labeled own body =>
    rw [meaning]
    refine only_catches (by simp) ((ih body (by simp [parts]) h).mono fun c hc label hlabel heq => ?_)
    obtain ⟨hlookup, hloop⟩ := hc label hlabel heq
    by_cases hown : label = own
    · subst hown
      have hisLoop : body.isLoop = true := by simpa using hlookup
      exact absurd (List.mem_cons_self ..) (hloop hisLoop)
    · have hne : (label == own) = false := by simpa using hown
      rw [List.lookup_cons, hne] at hlookup
      exact ⟨hlookup, fun hl hm => hloop hl (List.mem_cons_of_mem _ hm)⟩
  | continuing own =>
    rw [meaning]
    refine only_ends fun label hlabel heq => ?_
    obtain rfl := Completion.continuing.inj heq
    simp only [Jumps, jumpsMeet, targetsLoop, Bool.or_eq_true, beq_iff_eq] at h
    exact ⟨h.resolve_left (by simpa using hlabel), nofun⟩
  | breaking | empty => exact only_ends (by simp)
  | returning argument =>
    cases argument with
    | none => exact only_ends (by simp)
    | some e => exact only_with habrupt fun v => only_ends (by simp)
  | throwing | evaluating => exact only_with habrupt fun v => only_ends (by simp)

end Statement

/-! ### Labels of a statement -/

section Labels

variable {labels labels' : List Text} {test update : Expression} {m : Behavior σ V} {stage : RoundStage}

lemma Rounds.relabel (h : m.Only fun c => c.goesOn labels = c.goesOn labels') {s s' : σ}
    {tr : List (NodeId × σ)} {c : Completion V} (hrun : Rounds E labels test update m stage s tr s' c) :
    Rounds E labels' test update m stage s tr s' c := by
  induction hrun with
  | exit he hv => exact .exit he hv
  | enter he hv _ ih => exact .enter he hv ih
  | testAbrupt he => exact .testAbrupt he
  | next hbody hc _ ih => exact .next hbody (h _ _ _ _ hbody ▸ hc) ih
  | leave hbody hc => exact .leave hbody (h _ _ _ _ hbody ▸ hc)
  | updated he _ ih => exact .updated he ih
  | updateAbrupt he => exact .updateAbrupt he

lemma rounds_congr (h : m.Only fun c => c.goesOn labels = c.goesOn labels') :
    Rounds E labels test update m stage = Rounds E labels' test update m stage := by
  funext s tr s' c
  exact propext ⟨.relabel h, .relabel (h.mono fun _ => Eq.symm)⟩

/-- Only the labels of loops around a statement make a difference to it. -/
theorem Statement.meaning_congr (s : Statement) {env : List (Text × Bool)} (h : s.Jumps env)
    (hlabels : ∀ label, env.lookup label = some true → (label ∈ labels ↔ label ∈ labels')) :
    s.meaning E labels = s.meaning E labels' := by
  induction s using Statement.induction generalizing env labels labels' with
  | h s ih =>
  have hgoesOn (body : Statement) (hjumps : body.Jumps env) :
      (body.meaning E []).Only fun c => c.goesOn labels = c.goesOn labels' := by
    refine (only_meaning body hjumps).mono fun c hc => ?_
    cases c with
    | continuing label =>
      by_cases hlabel : label = []
      · simp [Completion.goesOn, hlabel]
      · simp [Completion.goesOn, hlabels label (hc label hlabel rfl).1]
    | _ => rfl
  cases s with
  | loop init test update body => rw [meaning, meaning, rounds_congr (hgoesOn body h)]
  | doWhile body test => rw [meaning, meaning, rounds_congr (hgoesOn body h)]
  | labeled own body =>
    rw [meaning, meaning, ih body (by simp [parts]) h fun label hlookup => ?_]
    by_cases hown : label = own
    · simp [hown]
    · have hne : (label == own) = false := by simpa using hown
      rw [List.lookup_cons, hne] at hlookup
      simp [hown, hlabels label hlookup]
  | returning argument => cases argument <;> rw [meaning, meaning]
  | _ => rw [meaning, meaning]

end Labels

end PlainScript
