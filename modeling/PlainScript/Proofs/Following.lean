import PlainScript.Building.Builder
import PlainScript.Proofs.Bearing
import PlainScript.Proofs.Reading

/-! Rules over an arena that follow rules over trees. Such a rule goes through the same states and answers nodes that
stand for the trees that the other one answers. What was in stock before stays in stock, and what a rule fails over is
left behind. -/
namespace PlainScript.Building

open Grammar Arena

/-- A tree and the node that stands for it. -/
abbrev Held := Tree × NodeId

variable {α β γ δ : Type}

/-- With the nodes `used` in stock, the rule over the arena does what the rule over trees does. `R` says of the two
answers which nodes they leave in stock in the place of those. -/
def Follows (used : List Held) (R : α → β → List Held → Prop) (p : Parser α) (q : Builder β) : Prop :=
  ∀ c s a kept, s.Spelled → Stock a (kept ++ used) →
    match p c s with
    | .ok x s' => ∃ y a' made, q c (s, a) = .ok y (s', a') ∧ R x y made ∧ s'.Spelled ∧ Stock a' (kept ++ made)
    | .error e s' => ∃ a', q c (s, a) = .error (.parse e) (s', a') ∧ s'.Spelled ∧ Stock a' kept

/-! ### Answers -/

def One (t : Tree) (id : NodeId) (made : List Held) : Prop := made = [(t, id)]

def Maybe (t : Option Tree) (id : Option NodeId) (made : List Held) : Prop :=
  ∃ h : Option Held, t = h.map Prod.fst ∧ id = h.map Prod.snd ∧ made = h.toList

def Many (ts : List Tree) (ids : List NodeId) (made : List Held) : Prop :=
  ts = made.map Prod.fst ∧ ids = made.map Prod.snd

/-- A list that may have holes. -/
def Slots (ts : List (Option Tree)) (ids : List (Option NodeId)) (made : List Held) : Prop :=
  ∃ hs : List (Option Held), ts = hs.map (Option.map Prod.fst) ∧ ids = hs.map (Option.map Prod.snd) ∧
    made = hs.filterMap id

lemma filterMap_somes (hs : List Held) : (hs.map some).filterMap id = hs := by simp

/-- Holes may be left out. -/
lemma Slots.filter_isSome {ts : List (Option Tree)} {ids : List (Option NodeId)} {made : List Held}
    (h : Slots ts ids made) : Slots (ts.filter Option.isSome) (ids.filter Option.isSome) made := by
  obtain ⟨hs, rfl, rfl, rfl⟩ := h
  refine ⟨hs.filter Option.isSome, ?_, ?_, ?_⟩
  · simp [List.filter_map, Function.comp_def]
  · simp [List.filter_map, Function.comp_def]
  · rw [List.filterMap_filter]
    refine List.filterMap_congr fun h _ => ?_
    cases h <;> rfl

/-! ### Sequences -/

section Sequences

variable {R : α → β → List Held → Prop} {S : γ → δ → List Held → Prop} {p : Parser α} {q : Builder β}
  {f : α → Parser γ} {g : β → Builder δ} {used : List Held}

lemma run_bind_builder (q : Builder β) (g : β → Builder δ) (c : Context) (x : State × Arena) :
    (q >>= g) c x = match q c x with
      | .ok y x' => g y c x'
      | .error e x' => .error e x' := by
  cases h : q c x <;> simp [Bind.bind, ReaderT.bind, EStateM.bind, h]

lemma run_tryCatch_builder (q : Builder β) (handle : BuildError → Builder β) (c : Context) (x : State × Arena) :
    (tryCatch q handle : Builder β) c x = match q c x with
      | .ok y x' => .ok y x'
      | .error e x' => handle e c x' := by
  change (tryCatch (q c) (fun e => handle e c) : EStateM BuildError (State × Arena) β) x = _
  cases h : q c x <;> simp [MonadExcept.tryCatch, tryCatchThe, MonadExceptOf.tryCatch, EStateM.tryCatch, h,
    EStateM.Backtrackable.restore, EStateM.dummyRestore]

lemma Follows.bind (kept : List Held) (h : Follows used R p q)
    (hf : ∀ x y made, R x y made → Follows (kept ++ made) S (f x) (g y)) :
    Follows (kept ++ used) S (p >>= f) (q >>= g) := by
  intro c s a more hs hstock
  rw [← List.append_assoc] at hstock
  have hfirst := h c s a _ hs hstock
  rw [run_bind, run_bind_builder]
  cases hp : p c s with
  | error e s' =>
    rw [hp] at hfirst
    obtain ⟨a', hq, hs', hstock'⟩ := hfirst
    exact ⟨a', by rw [hq], hs', hstock'.left⟩
  | ok x s' =>
    rw [hp] at hfirst
    obtain ⟨y, a', made, hq, hR, hs', hstock'⟩ := hfirst
    rw [hq]
    exact hf x y made hR c s' a' more hs' (List.append_assoc .. ▸ hstock')

/-- A rule that takes nothing from the stock. -/
lemma Follows.then (h : Follows [] R p q) (hf : ∀ x y made, R x y made → Follows (used ++ made) S (f x) (g y)) :
    Follows used S (p >>= f) (q >>= g) := by
  have hbind := Follows.bind used h hf
  rwa [List.append_nil] at hbind

lemma follows_pure {x : α} {y : β} (h : R x y used) : Follows used R (pure x) (pure y) :=
  fun _ _ a _ hs hstock => ⟨y, a, used, rfl, h, hs, hstock⟩

lemma Follows.mono {R' : α → β → List Held → Prop} (h : Follows used R p q)
    (hR : ∀ x y made, R x y made → R' x y made) : Follows used R' p q := by
  intro c s a kept hs hstock
  have hrun := h c s a kept hs hstock
  cases hp : p c s with
  | error e s' =>
    rw [hp] at hrun
    exact hrun
  | ok x s' =>
    rw [hp] at hrun
    obtain ⟨y, a', made, hq, hxy, hafter⟩ := hrun
    exact ⟨y, a', made, hq, hR x y made hxy, hafter⟩

lemma follows_ite {b : Prop} [Decidable b] {p' : Parser α} {q' : Builder β} (h : b → Follows used R p q)
    (h' : ¬ b → Follows used R p' q') : Follows used R (if b then p else p') (if b then q else q') := by
  by_cases hb : b
  · rw [if_pos hb, if_pos hb]
    exact h hb
  · rw [if_neg hb, if_neg hb]
    exact h' hb

/-! ### Tokens -/

/-- What only takes tokens leaves the stock as it is. -/
lemma Follows.step {P : α → Prop} {p : Parser α} {f : α → Parser γ} {g : α → Builder δ}
    (hp : ∀ c s, s.Spelled → Meets p c s (fun x s' => P x ∧ s'.Spelled) fun _ s' => s'.Spelled)
    (h : ∀ x, P x → Follows used S (f x) (g x)) : Follows used S (p >>= f) ((liftM p : Builder α) >>= g) := by
  intro c s a kept hs hstock
  have hrun : (liftM p : Builder α) c (s, a) = match p c s with
      | .ok r s => .ok r (s, a)
      | .error e s => .error (.parse e) (s, a) := rfl
  have hmeets := hp c s hs
  rw [run_bind, run_bind_builder, hrun]
  unfold Meets at hmeets
  cases hresult : p c s with
  | ok x s' =>
    rw [hresult] at hmeets
    exact h x hmeets.1 c s' a kept hmeets.2 hstock
  | error e s' =>
    rw [hresult] at hmeets
    exact ⟨a, rfl, hmeets, hstock.left⟩

lemma Follows.read {p : Parser α} [Passes p] {f : α → Parser γ} {g : α → Builder δ}
    (h : ∀ x, Follows used S (f x) (g x)) : Follows used S (p >>= f) ((liftM p : Builder α) >>= g) := by
  refine Follows.step (P := fun _ => True) (fun c s hs => ?_) fun x _ => h x
  exact (Passes.meets c s).mono (fun _ s' hsub => ⟨trivial, fun t ht => hs t (hsub ht)⟩)
    fun _ s' hsub t ht => hs t (hsub ht)

/-- The token that is looked at is spelled as what it denotes. -/
lemma Follows.current {f : Token → Parser γ} {g : Token → Builder δ}
    (h : ∀ t, t.IsSpelled → Follows used S (f t) (g t)) :
    Follows used S (Grammar.current >>= f) ((liftM Grammar.current : Builder Token) >>= g) :=
  Follows.step (fun _ _ hs => ⟨hs _ List.mem_cons_self, hs⟩) h

/-- And so are those that are left. -/
lemma Follows.state {f : State → Parser γ} {g : State → Builder δ}
    (h : ∀ s, s.Spelled → Follows used S (f s) (g s)) :
    Follows used S (get >>= f) ((liftM (get : Parser State) : Builder State) >>= g) :=
  Follows.step (fun _ _ hs => ⟨hs, hs⟩) h

/-! ### Faults -/

lemma follows_throw {e : ParseError} : Follows used R (throw e : Parser α) (throw (.parse e) : Builder β) :=
  fun _ _ a _ hs hstock => ⟨a, rfl, hs, hstock.left⟩

lemma follows_throw_bind {e : ParseError} :
    Follows used S ((throw e : Parser α) >>= f) ((throw (.parse e) : Builder β) >>= g) :=
  fun _ _ a _ hs hstock => ⟨a, rfl, hs, hstock.left⟩

lemma follows_fail {fault : ParseFault} : Follows used R (fail fault : Parser α) (liftM (fail fault : Parser β)) :=
  fun _ _ a _ hs hstock => ⟨a, rfl, hs, hstock.left⟩

lemma follows_fail_bind {fault : ParseFault} :
    Follows used S ((fail fault : Parser α) >>= f) ((liftM (fail fault : Parser β) : Builder β) >>= g) :=
  fun _ _ a _ hs hstock => ⟨a, rfl, hs, hstock.left⟩

/-- A fault is caught on both sides, and then nothing that was made before it is in stock. -/
lemma Follows.tryCatch {handle : ParseError → Parser α} {handle' : BuildError → Builder β} (h : Follows [] R p q)
    (hhandle : ∀ e, Follows [] R (handle e) (handle' (.parse e))) :
    Follows [] R (tryCatch p handle) (tryCatch q handle') := by
  intro c s a kept hs hstock
  have hfirst := h c s a kept hs hstock
  rw [run_tryCatch, run_tryCatch_builder]
  cases hp : p c s with
  | ok x s' =>
    rw [hp] at hfirst
    obtain ⟨y, a', made, hq, hafter⟩ := hfirst
    exact ⟨y, a', made, by rw [hq], hafter⟩
  | error e s' =>
    rw [hp] at hfirst
    obtain ⟨a', hq, hs', hstock'⟩ := hfirst
    rw [hq]
    exact hhandle e c s' a' kept hs' (by rwa [List.append_nil])

lemma liftM_bind (p : Parser α) (f : α → Parser β) :
    (liftM (p >>= f) : Builder β) = (liftM p >>= fun x => liftM (f x) : Builder β) := by
  funext c ⟨s, a⟩
  have hlift {α : Type} (p : Parser α) (s : State) : (liftM p : Builder α) c (s, a) = match p c s with
      | .ok r s => .ok r (s, a)
      | .error e s => .error (.parse e) (s, a) := rfl
  rw [run_bind_builder, hlift, hlift, run_bind]
  cases p c s with
  | ok x s' => exact (hlift (f x) s').symm
  | error e s' => rfl

lemma follows_unexpected : Follows used R (unexpected : Parser α) (liftM (unexpected : Parser β)) := by
  rw [unexpected, unexpected, liftM_bind]
  refine Follows.read fun t => ?_
  split
  · exact follows_fail
  · exact follows_fail

end Sequences

/-! ### Nodes -/

section Nodes

variable {S : γ → δ → List Held → Prop} {p : Parser γ}
  {position : Position} {t : Tree} {id : NodeId} {comments : List Text}

lemma Follows.edit {e : Edit β} {g : β → Builder δ} {used : List Held}
    (h : ∀ a more, Stock a (more ++ used) →
      e.Ensures a (fun y b => ∃ made, Stock b (more ++ made) ∧ Follows made S p (g y)) fun _ => False) :
    Follows used S p (editing e >>= g) := by
  intro c s a more hs hstock
  have hrun := h a more hstock
  unfold Edit.Ensures EStateM.run at hrun
  rw [run_bind_builder]
  cases he : e a with
  | error err b =>
    rw [he] at hrun
    exact hrun.elim
  | ok y b =>
    rw [he] at hrun
    obtain ⟨made, hmade, hfollows⟩ := hrun
    have hediting : editing e c (s, a) = .ok y (s, b) := by rw [editing, he]
    rw [hediting]
    exact hfollows c s b more hs hmade

/-- A node is made of the last nodes of the stock. -/
lemma Follows.make {g : NodeId → Builder δ} (kept : List Held) (P : Payload Held) {used : List Held}
    (hused : P.children = used)
    {payload : Payload Tree} (htrees : P.map Prod.fst = payload) {payload' : Payload NodeId}
    (hids : P.map Prod.snd = payload') (hP : P.IsSpelled)
    (h : ∀ id, Follows (kept ++ [(.of payload position, id)]) S p (g id)) :
    Follows (kept ++ used) S p (Building.make payload' position >>= g) := by
  subst hused htrees hids
  refine Follows.edit fun a more hstock => ?_
  rw [← List.append_assoc] at hstock
  refine (hstock.add hP position).mono (fun id b hb => ⟨_, ?_, h id⟩) fun _ => id
  rwa [← List.append_assoc]

/-- A node is all that is made. -/
lemma follows_make (P : Payload Held) {used : List Held} (hused : P.children = used) {payload : Payload Tree}
    (htrees : P.map Prod.fst = payload) {payload' : Payload NodeId} (hids : P.map Prod.snd = payload')
    (hP : P.IsSpelled) : Follows used One (pure (.of payload position)) (make payload' position) := by
  rw [← bind_pure (make payload' position)]
  exact Follows.make [] P hused htrees hids hP fun id => follows_pure rfl

lemma Follows.lead {g : Unit → Builder δ} (kept : List Held)
    (h : Follows (kept ++ [(t.withLeading comments, id)]) S p (g ())) :
    Follows (kept ++ [(t, id)]) S p (Building.lead id comments >>= g) := by
  refine Follows.edit fun a more hstock => Edit.ensures_change ⟨_, ?_, h⟩
  rw [← List.append_assoc] at hstock ⊢
  refine hstock.comment (fun _ => rfl) (fun _ => rfl) Tree.Spelled.withLeading fun c R hrel => ?_
  exact ⟨hrel.position_eq, congrArg (comments ++ ·) hrel.leading_eq, hrel.trailing_eq, hrel.outline_eq, hrel.slots⟩

lemma Follows.trail {g : Unit → Builder δ} (kept : List Held)
    (h : Follows (kept ++ [(t.withTrailing comments, id)]) S p (g ())) :
    Follows (kept ++ [(t, id)]) S p (Building.trail id comments >>= g) := by
  refine Follows.edit fun a more hstock => Edit.ensures_change ⟨_, ?_, h⟩
  rw [← List.append_assoc] at hstock ⊢
  refine hstock.comment (fun _ => rfl) (fun _ => rfl) Tree.Spelled.withTrailing fun c R hrel => ?_
  exact ⟨hrel.position_eq, hrel.leading_eq, rfl, hrel.outline_eq, hrel.slots⟩

/-- What may be assigned to is seen from the node. -/
lemma Follows.isTarget {g : Bool → Builder δ} (kept : List Held)
    (h : Follows (kept ++ [(t, id)]) S p (g (Grammar.isTarget t))) :
    Follows (kept ++ [(t, id)]) S p (Building.isTarget id >>= g) := by
  refine Follows.edit fun a more hstock => Edit.ensures_bind (Edit.ensures_get (Edit.ensures_pure ⟨_, hstock, ?_⟩))
  have hkind : a.kind? id = some t.kind := (hstock.bears (t, id) (by simp)).kind?_eq
  have htarget : (a.isKind .identifier id || a.isKind .memberExpression id || a.isKind .arrayExpression id
      || a.isKind .objectExpression id) = Grammar.isTarget t := by
    rw [Arena.isKind, Arena.isKind, Arena.isKind, Arena.isKind, hkind, Grammar.isTarget]
    cases t.kind <;> rfl
  rwa [htarget]

end Nodes

/-! ### Functions and repetitions -/

section Repetitions

variable {R : α → β → List Held → Prop} {p : Parser α} {q : Builder β} {used : List Held}

lemma Follows.inFunction (h : Follows used R p q) (isAsync isGenerator : Bool) :
    Follows used R (Grammar.inFunction isAsync isGenerator p) (inFunction isAsync isGenerator q) :=
  fun _ s a kept hs hstock => h _ s a kept hs hstock

lemma Follows.mapSome {p : Parser Tree} {q : Builder NodeId} (h : Follows [] One p q) :
    Follows [] Maybe (some <$> p) (some <$> q) := by
  rw [← bind_pure_comp, ← bind_pure_comp]
  refine Follows.then h fun t id made hmade => follows_pure ⟨some (t, id), rfl, rfl, hmade⟩

/-- The answers of a list one after the other. -/
inductive Each (R : α → β → List Held → Prop) : List α → List β → List Held → Prop
  | nil : Each R [] [] []
  | cons {x : α} {y : β} {xs : List α} {ys : List β} {made rest : List Held} (h : R x y made) (hs : Each R xs ys rest) :
      Each R (x :: xs) (y :: ys) (made ++ rest)

lemma Each.many {ts : List Tree} {ids : List NodeId} {made : List Held} (h : Each One ts ids made) :
    Many ts ids made := by
  induction h with
  | nil => exact ⟨rfl, rfl⟩
  | cons h _ ih =>
    obtain rfl := h
    exact ⟨congrArg _ ih.1, congrArg _ ih.2⟩

lemma Each.slots {ts : List (Option Tree)} {ids : List (Option NodeId)} {made : List Held} (h : Each Maybe ts ids made) :
    Slots ts ids made := by
  induction h with
  | nil => exact ⟨[], rfl, rfl, rfl⟩
  | cons h _ ih =>
    obtain ⟨h, rfl, rfl, rfl⟩ := h
    obtain ⟨hs, rfl, rfl, rfl⟩ := ih
    refine ⟨h :: hs, rfl, rfl, ?_⟩
    cases h <;> rfl

lemma Follows.repeatUntil (stop : Parser Bool) [Passes stop] (h : Follows [] R p q) :
    Follows [] (Each R) (Grammar.repeatUntil stop p) (repeatUntil stop q) := by
  refine Follows.read fun n => ?_
  generalize n + 1 = rounds
  induction rounds with
  | zero => exact follows_unexpected
  | succ rounds ih =>
    refine Follows.read fun stops => follows_ite (fun _ => follows_pure .nil) fun _ => ?_
    refine Follows.then h fun x y made hxy => Follows.then ih fun xs ys rest hrest => follows_pure (.cons hxy hrest)

lemma Follows.commaList (closing : Text) (h : Follows [] R p q) :
    Follows [] (Each R) (Grammar.commaList closing p) (commaList closing q) := by
  refine Follows.repeatUntil _ (Follows.then h fun x y made hxy => Follows.read fun closes => ?_)
  exact follows_ite (fun _ => Follows.read fun _ => follows_pure hxy) fun _ => follows_pure hxy

/-- Either both sides stop, with the stock as it was, or both go on. -/
def Onward (R : α → β → List Held → Prop) (used : List Held) : Option α → Option β → List Held → Prop
  | none, none, left => left = used
  | some x, some y, made => R x y made
  | _, _, _ => False

lemma Follows.extend {step : α → Parser (Option α)} {step' : β → Builder (Option β)}
    (hstep : ∀ x y made, R x y made → Follows made (Onward R made) (step x) (step' y))
    {x : α} {y : β} {made : List Held} (hxy : R x y made) :
    Follows made R (Grammar.extend step x) (extend step' y) := by
  refine Follows.read fun n => ?_
  generalize n + 1 = rounds
  induction rounds generalizing x y made with
  | zero => exact follows_unexpected
  | succ rounds ih =>
    refine Follows.bind [] (hstep x y made hxy) ?_
    rintro (_ | x') (_ | y') made' hnext
    · obtain rfl : made' = made := hnext
      exact follows_pure hxy
    · exact hnext.elim
    · exact hnext.elim
    · exact ih hnext

end Repetitions

/-- All rules follow those over trees. -/
def RulesFollow (rules : Rules) (rules' : NodeRules) : Prop := ∀ rule, Follows [] One (rules rule) (rules' rule)

end PlainScript.Building
