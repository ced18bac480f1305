import PlainScript.Proofs.Masking
import PlainScript.Proofs.Recovery

/-! What is left of a script when the calls of its string decoders are replaced. Whether a function has a text is found
out when its first call is reached, and holds for all of its calls: they are all replaced, or none of them is. -/
namespace PlainScript

open Relation

namespace Arena

variable {a : Arena} {root x y : NodeId} {decoders : TextSet} {rewritten left : List NodeId} {scope : Option NodeId}
  {options : PrintOptions}

/-- A call of a decoder that is reached: it is in no call that is rewritten. -/
structure IsReached (a : Arena) (decoders : TextSet) (rewritten : List NodeId) (x : NodeId) : Prop where
  calls : a.CallsDecoder decoders x
  outside : ∀ y ∈ rewritten, ¬ TransGen a.HasParent x y

/-- Of the calls in a scope that are reached, this one is the first in the order of the walk. -/
structure Opens (a : Arena) (reached : List NodeId) (scope : Option NodeId) (earlier : List NodeId) (first : NodeId) :
    Prop where
  mem : first ∈ reached
  scope_eq : a.enclosingFunction first = .ok scope
  not_earlier : ∀ y ∈ earlier, y ∈ reached → a.enclosingFunction y ≠ .ok scope

/-- Why a scope has no text. -/
def printError? (a : Arena) (scope : Option NodeId) (options : PrintOptions) : Option PrintError :=
  match a.print scope options with
  | .ok _ => none
  | .error e => some e

lemma printError?_ne_none : a.printError? scope options ≠ none ↔ ∃ e, a.print scope options = .error e := by
  rw [printError?]
  split <;> simp [*]

end Arena

namespace Pass.Decoder

open Arena PlainScript.Action

/-- The tree when a call is reached: of the calls that are rewritten, those before it are literals. -/
def arenaAt (s : Run) (rewritten earlier : List NodeId) : Arena :=
  s.arena.masked s.placeholder (rewritten.filter (· ∈ earlier))

/-- The calls of decoders in a script have been replaced, where the text of their scope allows it. -/
structure Decoded (s : Run) (root : NodeId) (rewritten left : List NodeId) (checked : List (Option NodeId)) (b : Arena) :
    Prop where
  root_eq : s.arena.root = some root
  arena_eq : b = s.arena.masked s.placeholder rewritten
  nodup : (rewritten ++ left).Nodup
  reached_iff : ∀ x, x ∈ rewritten ++ left ↔ s.arena.Attached x ∧ s.arena.IsReached s.decoders rewritten x
  replaced : ∀ x ∈ rewritten, b.Attached x ∧ b.payload? x = some (.stringLiteral s.placeholder [])
  left_iff : ∀ x, x ∈ left ↔ b.Attached x ∧ b.CallsDecoder s.decoders x
  scope_eq : ∀ x, b.Attached x → b.enclosingFunction x = s.arena.enclosingFunction x
  verdict : ∀ x ∈ rewritten ++ left, ∃ scope earlier first later, s.arena.enclosingFunction x = .ok scope ∧
    s.arena.preorder root = earlier ++ first :: later ∧ s.arena.Opens (rewritten ++ left) scope earlier first ∧
      (x ∈ left ↔ ∃ e, (arenaAt s rewritten earlier).print scope s.printing = .error e)
  untouched : ∀ x ∈ left, ∀ y ∈ rewritten, s.arena.enclosingFunction y ≠ s.arena.enclosingFunction x
  checked_nodup : checked.Nodup
  checked_iff : ∀ scope, scope ∈ checked ↔ ∃ x ∈ rewritten ++ left, s.arena.enclosingFunction x = .ok scope

/-- How many calls were replaced and left, and how many scopes were printed. -/
structure Counted (counters : Table Int) (rewritten left : List NodeId) (checked : List (Option NodeId)) : Prop where
  applied : (counters.get? "applied").getD 0 = rewritten.length
  skipped_calls : (counters.get? "skipped_calls").getD 0 = left.length
  scope_prints : (counters.get? "scope_prints").getD 0 = checked.length

variable {s s₁ s' : Run} {root id : NodeId} {done rest rewritten left rewritten' left' : List NodeId} {t t' : Tally}
  {scope : Option NodeId} {fault : Option PrintError} {scopes scopes' : List (Option NodeId × Option PrintError)}
  {prints more : Nat}

/-! ### One call -/

/-- The settings stay as they are, and nothing but printed scopes is counted. -/
structure Aside (prints : Nat) (s s' : Run) : Prop where
  decoders_eq : s'.decoders = s.decoders
  printing_eq : s'.printing = s.printing
  placeholder_eq : s'.placeholder = s.placeholder
  prints_eq : (s'.counters.get? "scope_prints").getD 0 = (s.counters.get? "scope_prints").getD 0 + prints
  others_eq : ∀ key : Text, key ≠ "scope_prints" → s'.counters.get? key = s.counters.get? key

lemma Aside.refl (s : Run) : Aside 0 s s := ⟨rfl, rfl, rfl, (Int.add_zero _).symm, fun _ _ => rfl⟩

lemma Aside.trans (h : Aside prints s s₁) (h' : Aside more s₁ s') : Aside (prints + more) s s' where
  decoders_eq := h'.decoders_eq.trans h.decoders_eq
  printing_eq := h'.printing_eq.trans h.printing_eq
  placeholder_eq := h'.placeholder_eq.trans h.placeholder_eq
  prints_eq := by
    rw [h'.prints_eq, h.prints_eq]
    push_cast
    exact Int.add_assoc ..
  others_eq key hkey := (h'.others_eq key hkey).trans (h.others_eq key hkey)

lemma Aside.count (s : Run) : Aside 1 s { s with counters := s.counters.update "scope_prints" 0 (· + 1) } where
  decoders_eq := rfl
  printing_eq := rfl
  placeholder_eq := rfl
  prints_eq := by
    show ((Table.insert ..).get? _).getD 0 = _
    rw [Table.get?_insert, if_pos rfl]
    rfl
  others_eq key hkey := by
    show (Table.insert ..).get? _ = _
    rw [Table.get?_insert, if_neg hkey.symm]

/-- The tree and the log are not counted. -/
lemma Aside.of_eq (h : Aside prints s s₁) (hdecoders : s'.decoders = s₁.decoders) (hprinting : s'.printing = s₁.printing)
    (hplaceholder : s'.placeholder = s₁.placeholder) (hcounters : s'.counters = s₁.counters) : Aside prints s s' where
  decoders_eq := hdecoders.trans h.decoders_eq
  printing_eq := hprinting.trans h.printing_eq
  placeholder_eq := hplaceholder.trans h.placeholder_eq
  prints_eq := hcounters ▸ h.prints_eq
  others_eq := hcounters ▸ h.others_eq

/-- What is known of a scope, or found out about it now. -/
inductive Judges (s : Run) (scope : Option NodeId) (scopes : List (Option NodeId × Option PrintError)) :
    Option PrintError → List (Option NodeId × Option PrintError) → Nat → Prop
  | known {fault : Option PrintError} (h : scopes.lookup scope = some fault) : Judges s scope scopes fault scopes 0
  | found (h : scopes.lookup scope = none) : Judges s scope scopes (s.arena.printError? scope s.printing)
      ((scope, s.arena.printError? scope s.printing) :: scopes) 1

lemma scopeFault_judges (scope : Option NodeId) (t : Tally) : (scopeFault scope t).Yields s fun r s' =>
    s'.arena = s.arena ∧ ∃ scopes prints, Judges s scope t.scopes r.1 scopes prints ∧ r.2 = { t with scopes } ∧
      Aside prints s s' := by
  unfold scopeFault
  split
  next fault h => exact yields_pure _ ⟨rfl, t.scopes, 0, .known h, rfl, .refl s⟩
  next h =>
    apply yields_bind
    refine ⟨s, s, rfl, ?_⟩
    apply yields_bind
    apply yields_modify
    apply yields_pure
    exact ⟨rfl, _, 1, .found h, rfl, .count s⟩

/-- A call that is reached is rewritten where its scope has a text, and else it is left. -/
inductive Adds (id : NodeId) (rewritten left : List NodeId) : Option PrintError → List NodeId → List NodeId → Prop
  | rewrites : Adds id rewritten left none (rewritten ++ [id]) left
  | leaves (e : PrintError) : Adds id rewritten left (some e) rewritten (left ++ [id])

/-- A call that is reached is judged by its scope, and then it is replaced or stays. -/
lemma replaceCall_turn (hfirm : Firm s.arena.parentOf s.arena.childIds) (hlt : id < s.arena.size) (t : Tally) :
    (replaceCall id t).Yields s fun t' s' =>
      ¬ s.arena.CallsDecoder s.decoders id ∧ t' = t ∧ s' = s ∨
      s.arena.CallsDecoder s.decoders id ∧ ∃ scope fault scopes prints, s.arena.enclosingFunction id = .ok scope ∧
        Judges s scope t.scopes fault scopes prints ∧ Aside prints s s' ∧
          ((∃ e, fault = some e) ∧ s'.arena = s.arena ∧ t' = { t with skipped := t.skipped + 1, scopes } ∨
            fault = none ∧ s.arena.Bared id (.stringLiteral s.placeholder []) s'.arena ∧ SameNotes s.arena s'.arena ∧
              t' = { t with replaced := t.replaced + 1, scopes }) := by
  unfold replaceCall
  apply yields_bind
  refine ⟨s, s, rfl, ?_⟩
  dsimp only
  split
  next hnone =>
    apply yields_pure
    apply Or.inl
    refine ⟨?_, rfl, rfl⟩
    rintro ⟨name, hname, -⟩
    cases hnone.symm.trans hname
  next callee hcallee =>
    split
    next hnot =>
      apply yields_pure
      apply Or.inl
      refine ⟨?_, rfl, rfl⟩
      rintro ⟨name, hname, hcontains⟩
      obtain rfl := Option.some.inj (hcallee.symm.trans hname)
      simp [hcontains] at hnot
    next hcontains =>
      have hcalls : s.arena.CallsDecoder s.decoders id := ⟨callee, hcallee, by simpa using hcontains⟩
      obtain ⟨scope, hscope⟩ := hfirm.enclosingFunction_ok hlt
      apply yields_bind
      refine ⟨scope, s, by simp [ask, hscope], ?_⟩
      apply yields_bind
      apply (scopeFault_judges scope t).mono
      rintro ⟨fault, -⟩ s₁ ⟨harena, scopes, prints, hjudges, rfl, haside⟩
      dsimp only at hjudges ⊢
      rw [← harena] at hfirm hlt
      cases fault with
      | some e =>
        apply yields_bind
        apply (yields_line hlt).mono
        rintro text s₂ rfl
        apply yields_bind
        apply yields_modify
        apply yields_pure
        refine .inr ⟨hcalls, scope, _, scopes, prints, hscope, hjudges, ?_, ?_⟩
        · exact haside.of_eq rfl rfl rfl rfl
        · exact .inl ⟨⟨e, rfl⟩, harena, rfl⟩
      | none =>
        have hbares : (Edit.replaceData id (.stringLiteral s.placeholder [])).Ensures s₁.arena
            (fun _ b => s₁.arena.Bared id (.stringLiteral s.placeholder []) b) fun _ => False :=
          Edit.replaceData_bares hfirm hlt rfl
        apply yields_bind
        apply yields_edit ((hbares.and (SameNotes.rewires.replaceData _)).mono (fun _ _ h => h) fun _ h => h.1)
        intro _ b hb
        apply yields_bind
        apply (yields_line (by simpa [hb.1.size_eq] using hlt)).mono
        rintro text s₂ rfl
        apply yields_bind
        apply yields_modify
        apply yields_pure
        refine .inr ⟨hcalls, scope, _, scopes, prints, hscope, hjudges, ?_, ?_⟩
        · exact haside.of_eq rfl rfl rfl rfl
        · rw [harena] at hb
          exact .inr ⟨rfl, hb.1, hb.2, rfl⟩

/-! ### What is known of the scopes -/

namespace Judges

variable (h : Judges s scope scopes fault scopes' prints)
include h

lemma length_eq : scopes'.length = scopes.length + prints := by cases h <;> rfl

lemma lookup_eq : scopes'.lookup scope = some fault := by
  cases h with
  | known h => exact h
  | found => exact List.lookup_cons_self

/-- What was known stays known. -/
lemma lookup_of_known {other : Option NodeId} {known : Option PrintError} (hknown : scopes.lookup other = some known) :
    scopes'.lookup other = some known := by
  cases h with
  | known => exact hknown
  | found hnone =>
    have hne : other ≠ scope := by
      rintro rfl
      cases hnone.symm.trans hknown
    rw [List.lookup_cons, beq_false_of_ne hne]
    exact hknown

lemma nodup (hnodup : (scopes.map Prod.fst).Nodup) : (scopes'.map Prod.fst).Nodup := by
  cases h with
  | known => exact hnodup
  | found hnone =>
    rw [List.map_cons, List.nodup_cons]
    refine ⟨?_, hnodup⟩
    intro hmem
    obtain ⟨p, hp, rfl⟩ := List.mem_map.mp hmem
    simpa using List.lookup_eq_none_iff.mp hnone p hp

end Judges

namespace Adds

variable (h : Adds id rewritten left fault rewritten' left')
include h

lemma perm : (rewritten ++ left ++ [id]).Perm (rewritten' ++ left') := by
  cases h with
  | rewrites =>
    rw [List.append_assoc, List.append_assoc]
    exact List.perm_append_comm.append_left rewritten
  | leaves => rw [List.append_assoc]

lemma mem_iff {x : NodeId} : x ∈ rewritten' ++ left' ↔ x ∈ rewritten ++ left ∨ x = id := by
  rw [← h.perm.mem_iff, List.mem_append, List.mem_singleton]

lemma left_iff {x : NodeId} : x ∈ left' ↔ x ∈ left ∨ x = id ∧ fault ≠ none := by cases h <;> simp

/-- A scope that was judged before keeps its first call. -/
lemma opens {earlier : List NodeId} {first : NodeId} (hid : id ∉ earlier)
    (hopens : s.arena.Opens (rewritten ++ left) scope earlier first) :
    s.arena.Opens (rewritten' ++ left') scope earlier first where
  mem := h.mem_iff.mpr (.inl hopens.mem)
  scope_eq := hopens.scope_eq
  not_earlier y hy hmem := by
    obtain hmem | rfl := h.mem_iff.mp hmem
    · exact hopens.not_earlier y hy hmem
    · exact absurd hy hid

/-- At an earlier call, the tree was the same. -/
lemma arenaAt_eq {earlier : List NodeId} (hid : id ∉ earlier) :
    arenaAt s rewritten' earlier = arenaAt s rewritten earlier := by
  cases h <;> simp [arenaAt, hid]

end Adds

/-- What is known of the scopes once these nodes have had their turn. -/
structure Judged (s : Run) (done rewritten left : List NodeId) (scopes : List (Option NodeId × Option PrintError)) :
    Prop where
  nodup : (scopes.map Prod.fst).Nodup
  opened : ∀ scope fault, scopes.lookup scope = some fault → ∃ earlier first between,
    done = earlier ++ first :: between ∧ s.arena.Opens (rewritten ++ left) scope earlier first ∧
      fault = (arenaAt s rewritten earlier).printError? scope s.printing
  known : ∀ x ∈ rewritten ++ left, ∃ scope fault, s.arena.enclosingFunction x = .ok scope ∧
    scopes.lookup scope = some fault ∧ (x ∈ left ↔ fault ≠ none)

namespace Judged

lemma nil (s : Run) : Judged s [] [] [] [] where
  nodup := .nil
  opened := by simp
  known := by simp

lemma skip (h : Judged s done rewritten left scopes) : Judged s (done ++ [id]) rewritten left scopes where
  nodup := h.nodup
  opened scope fault hfault := by
    obtain ⟨earlier, first, between, rfl, hopens⟩ := h.opened scope fault hfault
    exact ⟨earlier, first, between ++ [id], by simp, hopens⟩
  known := h.known

/-- The call that is reached now has its scope judged: it opens the scope, or the scope has been judged before. -/
lemma add (h : Judged s done rewritten left scopes) (hid : id ∉ done) (hdone : ∀ x ∈ rewritten ++ left, x ∈ done)
    (hscope : s.arena.enclosingFunction id = .ok scope) (harena : s'.arena = s.arena.masked s.placeholder rewritten)
    (hprinting : s'.printing = s.printing) (hjudges : Judges s' scope scopes fault scopes' prints)
    (hadds : Adds id rewritten left fault rewritten' left') : Judged s (done ++ [id]) rewritten' left' scopes' where
  nodup := hjudges.nodup h.nodup
  opened other known hknown := by
    have hbefore (hother : scopes.lookup other = some known) : ∃ earlier first between,
        done ++ [id] = earlier ++ first :: between ∧ s.arena.Opens (rewritten' ++ left') other earlier first ∧
          known = (arenaAt s rewritten' earlier).printError? other s.printing := by
      obtain ⟨earlier, first, between, rfl, hopens, hprint⟩ := h.opened other known hother
      have hearlier : id ∉ earlier := fun hmem => hid (List.mem_append_left _ hmem)
      refine ⟨earlier, first, between ++ [id], by simp, hadds.opens hearlier hopens, ?_⟩
      rw [hadds.arenaAt_eq hearlier]
      exact hprint
    cases hjudges with
    | known => exact hbefore hknown
    | found hnone =>
      by_cases hother : other = scope
      · subst hother
        rw [List.lookup_cons_self] at hknown
        refine ⟨done, id, [], rfl, ⟨hadds.mem_iff.mpr (.inr rfl), hscope, ?_⟩, ?_⟩
        · intro y hy hmem heq
          obtain hmem | rfl := hadds.mem_iff.mp hmem
          · obtain ⟨scope, fault, hscope', hlookup, -⟩ := h.known y hmem
            obtain rfl := Except.ok.inj (heq.symm.trans hscope')
            cases hnone.symm.trans hlookup
          · exact hid hy
        · have hall : rewritten.filter (· ∈ done) = rewritten := by
            rw [List.filter_eq_self]
            intro y hy
            simpa using hdone y (List.mem_append_left _ hy)
          rw [hadds.arenaAt_eq hid, arenaAt, hall, ← harena, ← hprinting]
          exact (Option.some.inj hknown).symm
      · rw [List.lookup_cons, beq_false_of_ne hother] at hknown
        exact hbefore hknown
  known x hx := by
    obtain hx | rfl := hadds.mem_iff.mp hx
    · obtain ⟨other, known, hother, hlookup, hleft⟩ := h.known x hx
      have hne : x ≠ id := fun heq => hid (heq ▸ hdone x hx)
      refine ⟨other, known, hother, hjudges.lookup_of_known hlookup, ?_⟩
      rw [← hleft, hadds.left_iff]
      simp [hne]
    · have hnot : x ∉ left := fun hmem => hid (hdone x (List.mem_append_right _ hmem))
      refine ⟨scope, fault, hscope, hjudges.lookup_eq, ?_⟩
      rw [hadds.left_iff]
      simp [hnot]

lemma untouched (h : Judged s done rewritten left scopes) (hnodup : (rewritten ++ left).Nodup) {x y : NodeId}
    (hx : x ∈ left) (hy : y ∈ rewritten) : s.arena.enclosingFunction y ≠ s.arena.enclosingFunction x := by
  intro heq
  obtain ⟨scope, fault, hscope, hlookup, hleft⟩ := h.known x (List.mem_append_right _ hx)
  obtain ⟨other, known, hother, hlookup', hleft'⟩ := h.known y (List.mem_append_left _ hy)
  obtain rfl := Except.ok.inj (hother.symm.trans (heq.trans hscope))
  obtain rfl := Option.some.inj (hlookup'.symm.trans hlookup)
  exact (List.nodup_append'.mp hnodup).2.2 hy (hleft'.mpr (hleft.mp hx))

lemma mem_scopes_iff (h : Judged s done rewritten left scopes) (scope : Option NodeId) :
    scope ∈ scopes.map Prod.fst ↔ ∃ x ∈ rewritten ++ left, s.arena.enclosingFunction x = .ok scope := by
  constructor
  · intro hmem
    obtain ⟨fault, hlookup⟩ : ∃ fault, scopes.lookup scope = some fault := by
      rw [← Option.isSome_iff_exists, List.lookup_isSome_iff]
      obtain ⟨p, hp, rfl⟩ := List.mem_map.mp hmem
      exact ⟨p, hp, beq_self_eq_true _⟩
    obtain ⟨earlier, first, later, -, hopens, -⟩ := h.opened scope fault hlookup
    exact ⟨first, hopens.mem, hopens.scope_eq⟩
  · rintro ⟨x, hx, hscope⟩
    obtain ⟨other, fault, hother, hlookup, -⟩ := h.known x hx
    obtain rfl := Except.ok.inj (hscope.symm.trans hother)
    obtain ⟨before, behind, heq, -⟩ := List.lookup_eq_some_iff.mp hlookup
    rw [heq]
    simp

end Judged

/-! ### The walk -/

/-- What has been done once these nodes have had their turn. -/
structure Progress (s : Run) (root : NodeId) (done rewritten left : List NodeId) (s' : Run) (t : Tally) : Prop where
  arena_eq : s'.arena = s.arena.masked s.placeholder rewritten
  rooted : s'.arena.Rooted root
  aside : Aside t.scopes.length s s'
  handled : Handled (s.arena.IsReached s.decoders rewritten) done (rewritten ++ left)
  judged : Judged s done rewritten left t.scopes
  replaced_eq : t.replaced = rewritten.length
  skipped_eq : t.skipped = left.length

namespace Progress

lemma start (h : s.arena.Rooted root) : Progress s root [] [] [] s {} where
  arena_eq := masked_nil.symm
  rooted := h
  aside := .refl s
  handled := .nil
  judged := .nil s
  replaced_eq := rfl
  skipped_eq := rfl

/-- The turn of any other node changes nothing. -/
lemma skip (h : Progress s root done rewritten left s' t) (hid : ¬ s.arena.IsReached s.decoders rewritten id) :
    Progress s root (done ++ [id]) rewritten left s' t :=
  { h with
    handled := h.handled.skip hid
    judged := h.judged.skip }

lemma mem_done (h : Progress s root done rewritten left s' t) {x : NodeId} (hx : x ∈ rewritten ++ left) : x ∈ done :=
  ((h.handled.mem_iff x).mp hx).1

lemma kind?_eq (h : Progress s root done rewritten left s' t) {x : NodeId} (hx : x ∈ rewritten) :
    s.arena.kind? x = some .callExpression :=
  ((h.handled.mem_iff x).mp (List.mem_append_left _ hx)).2.calls.kind?_eq

lemma way_iff (h : Progress s root done rewritten left s' t) (hrooted : s.arena.Rooted root) {x : NodeId}
    (hx : x < s.arena.size) : ReflTransGen s'.arena.HasParent x root ↔
      ReflTransGen s.arena.HasParent x root ∧ ∀ top ∈ rewritten, ¬ TransGen s.arena.HasParent x top := by
  rw [h.arena_eq]
  exact hrooted.way_masked hx

lemma attached_iff (h : Progress s root done rewritten left s' t) (hrooted : s.arena.Rooted root) (x : NodeId) :
    s'.arena.Attached x ↔ s.arena.Attached x ∧ ∀ top ∈ rewritten, ¬ TransGen s.arena.HasParent x top := by
  have hsize : s'.arena.size = s.arena.size := by rw [h.arena_eq, size_masked]
  rw [h.rooted.attached_iff, hrooted.attached_iff]
  by_cases hlt : x < s.arena.size
  · exact h.way_iff hrooted hlt
  · constructor
    · exact fun hway => absurd (hsize ▸ h.rooted.lt_size hway) hlt
    · exact fun hway => absurd (hrooted.lt_size hway.1) hlt

lemma callsDecoder_iff (h : Progress s root done rewritten left s' t) {x : NodeId} :
    s'.arena.CallsDecoder s'.decoders x ↔ s.arena.CallsDecoder s.decoders x ∧ x ∉ rewritten := by
  rw [h.arena_eq, h.aside.decoders_eq]
  exact callsDecoder_masked fun _ hy => h.kind?_eq hy

section Turn

variable (hrooted : s.arena.Rooted root) (hids : s.arena.turnsOf root .pre = done ++ id :: rest)
  (h : Progress s root done rewritten left s' t)
include hrooted hids h

lemma not_mem_rewritten : id ∉ rewritten := fun hmem =>
  hrooted.not_mem_done hids (h.mem_done (List.mem_append_left _ hmem))

/-- A call that is reached is still there at its turn. -/
lemma pass (hnot : ReflTransGen s'.arena.HasParent id root → s'.arena.kind? id ≠ some .callExpression) :
    Progress s root (done ++ [id]) rewritten left s' t := by
  apply h.skip
  intro hreached
  have hway : ReflTransGen s.arena.HasParent id root := (hrooted.mem_turnsOf .pre).mp (hids ▸ by simp)
  apply hnot
  · exact (h.way_iff hrooted (hrooted.lt_size hway)).mpr ⟨hway, hreached.outside⟩
  · have hcalls := h.callsDecoder_iff.mpr ⟨hreached.calls, h.not_mem_rewritten hrooted hids⟩
    exact hcalls.kind?_eq

omit h in
/-- A literal at this node hides no call that has had its turn. -/
lemma isReached_add (hadds : Adds id rewritten left fault rewritten' left') {x : NodeId} (hx : x ∈ done ++ [id]) :
    s.arena.IsReached s.decoders rewritten x ↔ s.arena.IsReached s.decoders rewritten' x := by
  have hbelow : ¬ TransGen s.arena.HasParent x id := by
    obtain hx | hx := List.mem_append.mp hx
    · exact fun hup => (hrooted.done_pre hids).2 hup hx
    · rw [List.mem_singleton.mp hx]
      exact hrooted.firm.acyclic id
  cases hadds with
  | leaves => rfl
  | rewrites =>
    constructor
    · intro hreached
      refine ⟨hreached.calls, fun y hy => ?_⟩
      obtain hy | hy := List.mem_append.mp hy
      · exact hreached.outside y hy
      · rw [List.mem_singleton.mp hy]
        exact hbelow
    · intro hreached
      exact ⟨hreached.calls, fun y hy => hreached.outside y (List.mem_append_left _ hy)⟩

lemma handled_add (hreached : s.arena.IsReached s.decoders rewritten id)
    (hadds : Adds id rewritten left fault rewritten' left') :
    Handled (s.arena.IsReached s.decoders rewritten') (done ++ [id]) (rewritten' ++ left') := by
  have hadded := h.handled.add (hrooted.not_mem_done hids) hreached
  refine ⟨hadds.perm.nodup_iff.mp hadded.nodup, fun x => ?_⟩
  rw [← hadds.perm.mem_iff, hadded.mem_iff]
  exact and_congr_right (isReached_add hrooted hids hadds)

lemma turn (hway : ReflTransGen s'.arena.HasParent id root) : (replaceCall id t).Yields s' fun t' s'' =>
    ∃ rewritten left, Progress s root (done ++ [id]) rewritten left s'' t' := by
  have hsize : s'.arena.size = s.arena.size := by rw [h.arena_eq, size_masked]
  have hlt : id < s.arena.size := hsize ▸ h.rooted.lt_size hway
  have hid := hrooted.not_mem_done hids
  have hnot := h.not_mem_rewritten hrooted hids
  have houtside := ((h.way_iff hrooted hlt).mp hway).2
  apply (replaceCall_turn h.rooted.firm (h.rooted.lt_size hway) t).mono
  rintro t' s'' (⟨hcalls, rfl, rfl⟩ | ⟨hcalls, scope, fault, scopes, prints, hscope, hjudges, haside, hturn⟩)
  · refine ⟨rewritten, left, h.skip ?_⟩
    intro hreached
    exact hcalls (h.callsDecoder_iff.mpr ⟨hreached.calls, hnot⟩)
  · have hreached : s.arena.IsReached s.decoders rewritten id := ⟨(h.callsDecoder_iff.mp hcalls).1, houtside⟩
    have hscope : s.arena.enclosingFunction id = .ok scope := by
      rw [← hrooted.firm.enclosingFunction_masked hlt houtside, ← h.arena_eq]
      exact hscope
    have hprints : Aside scopes.length s s'' := by
      rw [hjudges.length_eq]
      exact h.aside.trans haside
    have hjudged {r l : List NodeId} (hadds : Adds id rewritten left fault r l) : Judged s (done ++ [id]) r l scopes :=
      h.judged.add hid (fun x hx => h.mem_done hx) hscope h.arena_eq h.aside.printing_eq hjudges hadds
    obtain ⟨⟨e, rfl⟩, harena, rfl⟩ | ⟨rfl, hbared, hnotes, rfl⟩ := hturn
    · have hadds : Adds id rewritten left (some e) rewritten (left ++ [id]) := .leaves e
      exact ⟨rewritten, left ++ [id], {
        arena_eq := harena.trans h.arena_eq
        rooted := harena ▸ h.rooted
        aside := hprints
        handled := h.handled_add hrooted hids hreached hadds
        judged := hjudged hadds
        replaced_eq := h.replaced_eq
        skipped_eq := by simp [h.skipped_eq] }⟩
    · have hadds : Adds id rewritten left none (rewritten ++ [id]) left := .rewrites
      have harena : s''.arena = s.arena.masked s.placeholder (rewritten ++ [id]) := by
        rw [h.aside.placeholder_eq, h.arena_eq] at hbared
        rw [h.arena_eq] at hnotes
        exact hbared.eq_masked hnotes hlt
      exact ⟨rewritten ++ [id], left, {
        arena_eq := harena
        rooted := hbared.rooted_after h.rooted
        aside := hprints
        handled := h.handled_add hrooted hids hreached hadds
        judged := hjudged hadds
        replaced_eq := by simp [h.replaced_eq]
        skipped_eq := h.skipped_eq }⟩

end Turn

/-- When all nodes have had their turn, the script is decoded. -/
lemma decoded (hrooted : s.arena.Rooted root) (h : Progress s root (s.arena.preorder root) rewritten left s' t) :
    Decoded s root rewritten left (t.scopes.map Prod.fst) s'.arena := by
  have hreached (x : NodeId) : x ∈ rewritten ++ left ↔
      s.arena.Attached x ∧ s.arena.IsReached s.decoders rewritten x := by
    rw [h.handled.mem_iff, hrooted.attached_iff]
    exact and_congr_left' (hrooted.mem_turnsOf .pre)
  have hattached := h.attached_iff hrooted
  exact {
    root_eq := hrooted.root_eq
    arena_eq := h.arena_eq
    nodup := h.handled.nodup
    reached_iff := hreached
    replaced x hx := by
      obtain ⟨hattached', hreached'⟩ := (hreached x).mp (List.mem_append_left _ hx)
      obtain ⟨p, hp, -⟩ := exists_payload (h.kind?_eq hx)
      refine ⟨(hattached x).mpr ⟨hattached', hreached'.outside⟩, ?_⟩
      rw [h.arena_eq, payload?_masked, if_pos hx, hp]
      rfl
    left_iff x := by
      rw [← h.aside.decoders_eq, h.callsDecoder_iff, hattached]
      constructor
      · intro hx
        obtain ⟨hattached', hreached'⟩ := (hreached x).mp (List.mem_append_right _ hx)
        have hnot : x ∉ rewritten := fun hmem => (List.nodup_append'.mp h.handled.nodup).2.2 hmem hx
        exact ⟨⟨hattached', hreached'.outside⟩, hreached'.calls, hnot⟩
      · rintro ⟨⟨hattached', houtside⟩, hcalls, hx⟩
        obtain hmem | hmem := List.mem_append.mp ((hreached x).mpr ⟨hattached', hcalls, houtside⟩)
        · exact absurd hmem hx
        · exact hmem
    scope_eq x hx := by
      obtain ⟨hattached', houtside⟩ := (hattached x).mp hx
      rw [h.arena_eq]
      exact hrooted.firm.enclosingFunction_masked (hrooted.lt_size (hrooted.attached_iff.mp hattached')) houtside
    verdict x hx := by
      obtain ⟨scope, fault, hscope, hlookup, hleft⟩ := h.judged.known x hx
      obtain ⟨earlier, first, later, hids, hopens, rfl⟩ := h.judged.opened scope fault hlookup
      exact ⟨scope, earlier, first, later, hscope, hids, hopens, hleft.trans printError?_ne_none⟩
    untouched x hx y hy := h.judged.untouched h.handled.nodup hx hy
    checked_nodup := h.judged.nodup
    checked_iff := h.judged.mem_scopes_iff }

end Progress

/-- Counters that are fresh at the start hold the numbers at the end. -/
lemma Progress.concluded (hrooted : s.arena.Rooted root) (hfresh : s.counters = {})
    (h : Progress s root (s.arena.preorder root) rewritten left s₁ t) {s₂ : Run} (harena : s₂.arena = s₁.arena)
    (hcounters : s₂.counters = s₁.counters.update "skipped_calls" 0 (· + t.skipped)) {r : Record}
    (hcount : r.count = t.replaced) (source summary : Text) : (conclude r source summary).Yields s₂ fun _ s' =>
      ∃ root rewritten left checked, Decoded s root rewritten left checked s'.arena ∧
        Counted s'.counters rewritten left checked := by
  have hnone (key : Text) : s.counters.get? key = none := by
    rw [hfresh]
    rfl
  have hother {key : Text} (hkey : key ≠ "skipped_calls") : s₂.counters.get? key = s₁.counters.get? key := by
    rw [hcounters, Table.update, Table.get?_insert, if_neg hkey.symm]
  apply ((conclude_ledger hcount source summary).and (conclude_counters source summary)).mono
  rintro outcome s' ⟨⟨harena', hledger⟩, hothers⟩
  refine ⟨root, rewritten, left, t.scopes.map Prod.fst, ?_, ?_, ?_, ?_⟩
  · rw [harena', harena]
    exact h.decoded hrooted
  · rw [hledger.applied_eq, hother (by decide), h.aside.others_eq _ (by decide), hnone, h.replaced_eq]
    exact Int.zero_add _
  · rw [hothers _ (by decide), hcounters, Table.update, Table.get?_insert, if_pos rfl,
      h.aside.others_eq _ (by decide), hnone, h.skipped_eq]
    exact Int.zero_add _
  · rw [hothers _ (by decide), hother (by decide), h.aside.prints_eq, hnone, List.length_map]
    exact Int.zero_add _

/-- The pass replaces the calls of decoders where the text of their scope allows it, and counts what it did. -/
theorem transform_decodes {source : Text} {options : ParseOptions} {script : Script}
    (hparse : parse source options = .ok script) {s : Run} (hs : s.arena = ofTree script.tree) (hfresh : s.counters = {})
    (hdecoders : s.decoders.isEmpty = false) : transform.Yields s fun _ s' => ∃ root rewritten left checked,
      Decoded s root rewritten left checked s'.arena ∧ Counted s'.counters rewritten left checked := by
  obtain ⟨root, hstanding⟩ := ofTree_standing (parse_is_program hparse)
  rw [← hs] at hstanding
  have hrooted := hstanding.toRooted
  have hwalk : (walkKind .pre .callExpression {} replaceCall).Yields s fun t s' =>
      ∃ rewritten left, Progress s root (s.arena.preorder root) rewritten left s' t := by
    apply walkKind_one_by_one
      (P := fun done s' t => ∃ rewritten left, Progress s root done rewritten left s' t) hrooted
    · rintro done s' t ⟨rewritten, left, h⟩
      refine ⟨h.rooted, ?_⟩
      rw [h.arena_eq, size_masked]
    · rintro done id rest s' t hids ⟨rewritten, left, h⟩ hnot
      exact ⟨rewritten, left, h.pass hrooted hids hnot⟩
    · rintro done id rest s' t hids ⟨rewritten, left, h⟩ hway -
      exact h.turn hrooted hids hway
    · exact ⟨[], [], .start hrooted⟩
  unfold transform
  apply yields_bind
  refine ⟨s, s, rfl, ?_⟩
  dsimp only
  rw [hdecoders, if_neg Bool.false_ne_true]
  apply yields_bind
  apply hwalk.mono
  rintro t s₁ ⟨rewritten, left, h⟩
  apply yields_bind
  apply yields_modify
  split
  · apply yields_bind
    apply yields_modify
    apply yields_bind
    apply yields_modify
    apply h.concluded hrooted hfresh <;> rfl
  · apply yields_bind
    apply yields_modify
    apply h.concluded hrooted hfresh <;> rfl

/-- A call in an argument of another goes with it, and the calls of a function have a text of their own. -/
theorem transform_decodes_nested : ∃ script s outcome s' root rewritten left checked,
    parse "d(d(1)); function f() { d(2); }" {} = .ok script ∧
      s = { arena := ofTree script.tree, decoders := TextSet.add {} "d" } ∧ transform s = .ok outcome s' ∧
        Decoded s root rewritten left checked s'.arena ∧ Counted s'.counters rewritten left checked := by
  obtain ⟨script, hparse, -⟩ : ∃ script, parse "d(d(1)); function f() { d(2); }" {} = .ok script ∧ True :=
    exists_of_parse (by decide +kernel)
  obtain ⟨outcome, s', hrun, root, rewritten, left, checked, hend⟩ :=
    transform_decodes (s := { arena := ofTree script.tree, decoders := TextSet.add {} "d" }) hparse rfl rfl rfl
  exact ⟨script, _, outcome, s', root, rewritten, left, checked, hparse, rfl, hrun, hend⟩

end Pass.Decoder

end PlainScript
