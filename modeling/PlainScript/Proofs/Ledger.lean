import PlainScript.Proofs.Tables
import PlainScript.Proofs.Walks

/-! What a pass writes down. While it works it only counts and talks; at its end it leaves a record of its
changes with the same number under `applied`, or neither where it has changed nothing. -/
namespace PlainScript

/-- The counters of one pass, under names without a dot. -/
structure Table.IsPlain (t : Table Int) : Prop where
  sorted : t.Sorted
  noDot : ∀ key ∈ t.keys, '.'.toUInt8 ∉ key

lemma Table.IsPlain.insert {t : Table Int} (h : t.IsPlain) {key : Text} (hkey : '.'.toUInt8 ∉ key) (n : Int) :
    (t.insert key n).IsPlain where
  sorted := h.sorted.insert key n
  noDot k hk := by
    obtain rfl | hk := Table.mem_keys_insert hk
    · exact hkey
    · exact h.noDot k hk

/-- No record is made, and no change is counted. -/
structure Quiet (s s' : Run) : Prop where
  records_eq : s'.records = s.records
  printing_eq : s'.printing = s.printing
  applied_eq : s'.counters.get? "applied" = s.counters.get? "applied"
  plain : s.counters.IsPlain → s'.counters.IsPlain

namespace Quiet

variable {s s₁ s' : Run}

lemma of_eq (hrecords : s'.records = s.records) (hprinting : s'.printing = s.printing)
    (hcounters : s'.counters = s.counters) : Quiet s s' :=
  ⟨hrecords, hprinting, hcounters ▸ rfl, fun h => hcounters ▸ h⟩

lemma refl (s : Run) : Quiet s s := .of_eq rfl rfl rfl

lemma trans (h : Quiet s s₁) (h' : Quiet s₁ s') : Quiet s s' :=
  ⟨h'.records_eq.trans h.records_eq, h'.printing_eq.trans h.printing_eq, h'.applied_eq.trans h.applied_eq,
    fun hs => h'.plain (h.plain hs)⟩

lemma of_edit {arena : Arena} (h : Quiet { s with arena } s') : Quiet s s' :=
  ⟨h.records_eq, h.printing_eq, h.applied_eq, h.plain⟩

/-- Anything but the changes may be counted. -/
lemma count {name : Text} (hname : name ≠ "applied" ∧ '.'.toUInt8 ∉ name) (amount : Int) (s : Run) :
    Quiet s { s with counters := s.counters.update name 0 (· + amount) } where
  records_eq := rfl
  printing_eq := rfl
  applied_eq := by
    show (Table.insert ..).get? _ = _
    rw [Table.get?_insert, if_neg hname.1]
  plain h := h.insert hname.2 _

end Quiet

/-- What the pass under a name leaves behind after so many changes. -/
structure Ledger (name : Text) (s : Run) (n : Nat) (s' : Run) : Prop where
  printing_eq : s'.printing = s.printing
  plain : s.counters.IsPlain → s'.counters.IsPlain
  entry : n = 0 ∧ s'.records = s.records ∧ s'.counters.get? "applied" = s.counters.get? "applied" ∨
    0 < n ∧ (∃ r : Record, r.pass = name ∧ r.count = n ∧ s'.records = s.records ++ [r]) ∧
      s'.counters.get? "applied" = some ((s.counters.get? "applied").getD 0 + n)

lemma Quiet.ledger {name : Text} {s s₁ s' : Run} {n : Nat} (h : Quiet s s₁) (h' : Ledger name s₁ n s') :
    Ledger name s n s' where
  printing_eq := h'.printing_eq.trans h.printing_eq
  plain hs := h'.plain (h.plain hs)
  entry := by
    have hentry := h'.entry
    rwa [h.records_eq, h.applied_eq] at hentry

lemma Ledger.applied_eq {name : Text} {s s' : Run} {n : Nat} (h : Ledger name s n s') :
    (s'.counters.get? "applied").getD 0 = (s.counters.get? "applied").getD 0 + n := by
  obtain ⟨rfl, -, heq⟩ | ⟨-, -, heq⟩ := h.entry
  · rw [heq]
    exact (Int.add_zero _).symm
  · rw [heq]
    rfl

lemma Quiet.ledger_zero {s s' : Run} (h : Quiet s s') (name : Text) : Ledger name s 0 s' :=
  h.ledger ⟨rfl, id, .inl ⟨rfl, rfl, rfl⟩⟩

namespace Action

section Idle

variable {α β : Type} {s : Run} {act : Action α} {f : α → Action β} {R : α → Prop} {R' : β → Prop}

/-- The action succeeds, leaves the tree alone and makes no record. -/
def Settles (act : Action α) (s : Run) (R : α → Prop) : Prop :=
  act.Yields s fun r s' => R r ∧ s'.arena = s.arena ∧ Quiet s s'

abbrev Idle (act : Action α) (s : Run) : Prop := act.Settles s fun _ => True

lemma settles_pure {r : α} (h : R r) : (pure r : Action α).Settles s R := yields_pure _ ⟨h, rfl, .refl s⟩

lemma settles_bind (h : act.Settles s R) (hf : ∀ r s', R r → s'.arena = s.arena → (f r).Settles s' R') :
    (act >>= f).Settles s R' :=
  yields_bind (h.mono fun r s₁ h => (hf r s₁ h.1 h.2.1).mono fun _ _ h' =>
    ⟨h'.1, h'.2.1.trans h.2.1, h.2.2.trans h'.2.2⟩)

lemma settles_get : (get : Action Run).Settles s (· = s) := ⟨_, s, rfl, rfl, rfl, .refl s⟩

lemma settles_ask {question : Arena → Except ArenaError α} {r : α} (h : question s.arena = .ok r) :
    (ask question).Settles s fun _ => True :=
  ⟨r, s, by simp [ask, h], trivial, rfl, .refl s⟩

lemma idle_modify {g : Run → Run} (harena : (g s).arena = s.arena) (h : Quiet s (g s)) :
    (modify g : Action Unit).Idle s := yields_modify _ ⟨trivial, harena, h⟩

lemma idle_say {level : Log.Level} {source message : Text} : (say level source message).Idle s :=
  idle_modify rfl (.of_eq rfl rfl rfl)

lemma idle_warn {message : Text} : (warn message).Idle s := idle_modify rfl (.of_eq rfl rfl rfl)

lemma idle_count {name : Text} {amount : Int} (hname : name ≠ "applied" ∧ '.'.toUInt8 ∉ name) :
    (count name amount).Idle s := idle_modify rfl (.count hname amount s)

lemma idle_line {id : NodeId} (hid : id < s.arena.size) : (line id).Idle s :=
  (yields_line hid).mono fun _ _ h => ⟨trivial, congrArg Run.arena h, h ▸ .refl _⟩

variable {step : Arena → Arena → Prop} {n : Nat} {m : β → Nat}

/-- A turn without a step. -/
lemma counts_of_settles {act : Action β} (h : act.Settles s fun t => m t = n) :
    act.Yields s fun t s' => Counts step Quiet s n s' (m t) :=
  h.mono fun _ _ h => ⟨.inl ⟨h.1, h.2.1⟩, h.2.2⟩

/-- A turn may begin with something that leaves the tree alone. -/
lemma counts_bind (h : act.Settles s R) (hf : ∀ r s₁, R r → s₁.arena = s.arena →
    (f r).Yields s₁ fun t s' => Counts step Quiet s₁ n s' (m t)) :
    (act >>= f).Yields s fun t s' => Counts step Quiet s n s' (m t) :=
  yields_bind (h.mono fun r s₁ h => (hf r s₁ h.1 h.2.1).mono fun _ _ h' => ⟨h.2.1 ▸ h'.1, h.2.2.trans h'.2⟩)

/-- A turn that takes its step may end with something that leaves the tree alone. -/
lemma counts_step (h : act.Yields s fun _ s₁ => step s.arena s₁.arena ∧ Quiet s s₁)
    (hf : ∀ r s₁, step s.arena s₁.arena → (f r).Settles s₁ fun t => m t = n + 1) :
    (act >>= f).Yields s fun t s' => Counts step Quiet s n s' (m t) :=
  yields_bind (h.mono fun r s₁ h => (hf r s₁ h.1).mono fun _ _ h' =>
    ⟨.inr ⟨h'.1, h'.2.1 ▸ h.1⟩, h.2.trans h'.2.2⟩)

/-- An edit alone makes no record. -/
lemma edit_steps {e : Edit α} (h : e.Ensures s.arena (fun _ b => step s.arena b) fun _ => False) :
    (edit e).Yields s fun _ s₁ => step s.arena s₁.arena ∧ Quiet s s₁ :=
  yields_edit h fun _ _ hb => ⟨hb, .of_eq rfl rfl rfl⟩

end Idle

/-- The end of a pass leaves the tree alone. -/
theorem conclude_ledger {s : Run} {r : Record} {n : Nat} (hn : r.count = n) (source summary : Text) :
    (conclude r source summary).Yields s fun _ s' => s'.arena = s.arena ∧ Ledger r.pass s n s' := by
  unfold conclude
  split
  next h => exact yields_pure _ ⟨rfl, (show n = 0 by omega) ▸ (Quiet.refl s).ledger_zero r.pass⟩
  next h =>
    refine yields_bind (yields_modify _ (yields_bind (yields_modify _ (yields_bind (yields_modify _
      (yields_pure _ ⟨rfl, ⟨rfl, fun hs => hs.insert (by decide) _, .inr ⟨by omega, ⟨r, rfl, hn, rfl⟩, ?_⟩⟩⟩))))))
    show (Table.insert ..).get? _ = _
    rw [Table.get?_insert, if_pos rfl, hn]

/-- The end of a pass counts nothing but its changes. -/
lemma conclude_counters {s : Run} {r : Record} (source summary : Text) :
    (conclude r source summary).Yields s fun _ s' => ∀ key : Text, key ≠ "applied" →
      s'.counters.get? key = s.counters.get? key := by
  unfold conclude
  split
  · exact yields_pure _ fun _ _ => rfl
  · refine yields_bind (yields_modify _ (yields_bind (yields_modify _ (yields_bind (yields_modify _
      (yields_pure _ fun key hkey => ?_))))))
    show (Table.insert ..).get? _ = _
    rw [Table.get?_insert, if_neg hkey.symm]

/-- Something may be said between the steps of a pass and its end. -/
lemma yields_aside {α : Type} {step : Arena → Arena → Prop} {s s₁ : Run} {n : Nat} {act : Action α}
    {f : α → Action Outcome} {Q : Outcome → Run → Prop} (hsteps : InSteps step n s.arena s₁.arena)
    (hquiet : Quiet s s₁) (h : act.Idle s₁)
    (hf : ∀ r s₂, InSteps step n s.arena s₂.arena → Quiet s s₂ → (f r).Yields s₂ Q) : (act >>= f).Yields s₁ Q :=
  yields_bind (h.mono fun r s₂ h₂ => hf r s₂ (h₂.2.1 ▸ hsteps) (hquiet.trans h₂.2.2))

/-- The end of a pass that has taken its steps. -/
lemma conclude_counts {step : Arena → Arena → Prop} {s s₁ : Run} {r : Record} {n : Nat} (hn : r.count = n)
    (hsteps : InSteps step n s.arena s₁.arena) (hquiet : Quiet s s₁) (source summary : Text) :
    (conclude r source summary).Yields s₁ fun _ s' =>
      ∃ n, InSteps step n s.arena s'.arena ∧ Ledger r.pass s n s' :=
  (conclude_ledger hn source summary).mono fun _ _ h => ⟨n, h.1 ▸ hsteps, hquiet.ledger h.2⟩

end Action

end PlainScript
