import PlainScript.Proofs.Hoisting
import PlainScript.Proofs.ListEdits

/-! Comments where an `if` on a literal gives way to its branch. Those in front of the `if` go to what comes for it, and
those of the nodes that come stay with them. A block that is spliced does not come itself, and its own comments go. -/
namespace PlainScript

open Relation Payload

namespace Arena

variable {a b : Arena} {root target p x y source heir : NodeId} {payload : Payload NodeId} {place : Place}
  {moved new : List NodeId} {comment : Text}

/-- The text is a comment in front of a node or at its end. -/
def HasComment (a : Arena) (x : NodeId) (comment : Text) : Prop :=
  ∃ position leading trailing, a.notes? x = some (position, leading, trailing) ∧ comment ∈ leading ++ trailing

/-- Where the comments in front of `source` have gone to another node, all nodes but `source` have their own. -/
lemma HasComment.of_handed (h : a.HasComment x comment) (hne : x ≠ source)
    (hb : b.notes? x = a.notesWith (a.leadingHanded source heir) x) : b.HasComment x comment := by
  obtain ⟨position, leading, trailing, hnotes, hmem⟩ := h
  refine ⟨position, _, trailing, by rw [hb, notesWith, hnotes]; rfl, ?_⟩
  have hleading : a.leadingOf x = leading := by rw [leadingOf_eq_notes, hnotes]; rfl
  rw [leadingHanded, if_neg hne, hleading]
  split_ifs
  · simpa [or_assoc] using .inr (List.mem_append.mp hmem)
  · exact hmem

/-- The comments in front of `source` are now in front of the other node. -/
lemma hasComment_of_handed (hheir : heir < a.size) (h : comment ∈ a.leadingOf source)
    (hb : b.notes? heir = a.notesWith (a.leadingHanded source heir) heir) : b.HasComment heir comment := by
  obtain ⟨c, hc⟩ := exists_cell hheir
  refine ⟨c.position, a.leadingHanded source heir heir, c.trailing, by rw [hb]; simp [notesWith, notes?, hc], ?_⟩
  simp [leadingHanded, h]

/-- What stands at an index stands in a list. -/
lemma At.exists_list (h : a.At root target p payload place) (hi : place.index.isSome) :
    ∃ before after, payload.slots[place.slot]? = some (place.role, .many (before ++ some target :: after)) := by
  obtain ⟨pre, slot, post, hslots, hslot, ⟨hnone, -⟩ | ⟨i, cs, -, rfl, hcs⟩⟩ := placeIn_eq_some h.place_eq
  · simp [hnone] at hi
  · refine ⟨cs.take i, cs.drop (i + 1), ?_⟩
    rw [hslots, hslot, Nat.zero_add, ← idxOf?_split hcs]
    simp

namespace Exchange

variable (h : a.Exchange root target p payload place moved new b)
include h

/-- The way from `p` to the root is the same. -/
lemma p_attached_after : ReflTransGen b.HasParent p root := by
  suffices hway : ∀ y, ReflTransGen a.HasParent y root → ReflTransGen a.HasParent p y →
      ReflTransGen b.HasParent y root from hway p (h.p_attached h.rooted) .refl
  intro y hy hpy
  induction hy using ReflTransGen.head_induction_on with
  | refl => exact .refl
  | @head y z hyz _ ih =>
    have hfirm := h.rooted.firm
    have hmoved : y ∉ moved := fun hm => hfirm.acyclic y ((h.moved_way hm).trans_left (.head h.parent_eq hpy))
    refine .head ?_ (ih (hpy.tail hyz))
    rw [HasParent, h.parentOf_of_lt (lt_size_of_parentOf hyz) hmoved, if_neg]
    · exact hyz
    · rintro rfl
      exact hfirm.acyclic y (.head' h.parent_eq hpy)

lemma moved_attached (hx : x ∈ moved) : ReflTransGen b.HasParent x root := by
  have hnew {y : NodeId} (hy : y ∈ new) : b.HasParent y p := by rw [HasParent, h.replaced.parentOf_eq, if_pos hy]
  by_cases hxn : x ∈ new
  · exact .head (hnew hxn) h.p_attached_after
  obtain ⟨rfl, -⟩ | ⟨rfl, -⟩ := h.replaced.filling
  · exact absurd hx hxn
  · refine .head ?_ (.head (hnew (List.mem_singleton_self _)) h.p_attached_after)
    rw [HasParent, h.replaced.parentOf_eq, if_neg hxn, if_pos hx]

/-- What is below a node that comes is below the root. -/
lemma below_moved_attached (hx : x ∈ moved) (hy : ReflTransGen a.HasParent y x) : ReflTransGen b.HasParent y root := by
  induction hy using ReflTransGen.head_induction_on with
  | refl => exact h.moved_attached hx
  | @head y z hyz hzx ih =>
    by_cases hm : y ∈ moved
    · exact h.moved_attached hm
    refine .head ?_ ih
    rw [HasParent, h.parentOf_of_lt (lt_size_of_parentOf hyz) hm, if_neg]
    · exact hyz
    · rintro rfl
      exact h.rooted.firm.acyclic y ((TransGen.head' hyz hzx).trans (h.moved_way hx))

end Exchange

lemma SameNotes.lt_size (h : SameNotes a b) (hx : x < a.size) : x < b.size := by
  obtain ⟨c, hc⟩ := exists_cell hx
  have hb := congrFun h x
  rw [notes?, notes?, hc, Option.map_some] at hb
  obtain ⟨d, hd, -⟩ := Option.map_eq_some_iff.mp hb
  exact lt_size_of_cell? hd

lemma SameNotes.leadingHanded_eq (h : SameNotes a b) (heir : NodeId) :
    b.notesWith (b.leadingHanded source heir) = a.notesWith (a.leadingHanded source heir) := by
  have hleading : b.leadingOf = a.leadingOf := funext fun x => by
    rw [leadingOf_eq_notes, leadingOf_eq_notes, h]
  funext x
  rw [notesWith, notesWith, h, leadingHanded, leadingHanded, hleading]

end Arena

namespace Edit

open Arena

variable {a : Arena} {target r : NodeId}

/-- Whatever the first part of an edit does, if it leaves the notes alone, the second part starts with the same ones. -/
lemma Preserves.then_ensures {α β : Type} {e : Edit α} {f : α → Edit β} {post : β → Arena → Prop}
    (h : e.Preserves SameNotes) (hf : ∀ r b, SameNotes a b → (f r).Ensures b post fun _ => True) :
    (e >>= f).Ensures a post fun _ => True :=
  ensures_bind ((h a).mono (fun r b hb => hf r b hb) fun _ _ => trivial)

/-- The comments in front of a replaced node go to the one that comes for it, wherever it stands. -/
lemma replaceWith_hands (ht : target < a.size) (hr : r < a.size) (hne : target ≠ r) :
    (replaceWith target r).Ensures a (fun _ b => b.notes? = a.notesWith (a.leadingHanded target r)) fun _ => True := by
  have hrewires := SameNotes.rewires
  unfold replaceWith
  rw [if_pos (by simpa using hne)]
  refine hrewires.unlink.then_ensures fun _ b₁ h₁ => (preserves_ask _).then_ensures fun x b₂ h₂ => ?_
  refine hrewires.splice.then_ensures fun _ b₃ h₃ => hrewires.setParent.then_ensures fun _ b₄ h₄ => ?_
  refine hrewires.setParent.then_ensures fun _ b h₅ => ?_
  have hb : SameNotes a b := h₅.trans (h₄.trans (h₃.trans (h₂.trans h₁)))
  refine (moveLeading_hands (hb.lt_size ht) (hb.lt_size hr) hne).mono (fun _ c hc => ?_) fun _ => id
  rw [funext hc.notes?_eq, hb.leadingHanded_eq]

/-- In a list they go to the first of the nodes that come. -/
lemma replaceWithMany_hands {root p : NodeId} {payload : Payload NodeId} {place : Place} {rest : List NodeId}
    (hrooted : a.Rooted root) (hat : a.At root target p payload place) (hi : place.index.isSome)
    (hrs : ∀ x ∈ r :: rest, x < a.size) (htarget : target ∉ r :: rest) :
    (replaceWithMany target (r :: rest)).Ensures a (fun _ b => b.notes? = a.notesWith (a.leadingHanded target r))
      fun _ => False := by
  obtain ⟨before, after, hslot⟩ := hat.exists_list hi
  exact (ListEdit.becomes hrooted.firm (.replaceWithMany target (r :: rest)) hat.payload_eq hslot hrs htarget).mono
    (fun _ b hb => funext hb.notes?_eq) fun _ => id

end Edit

namespace Pass.Branch

open Arena Edit PlainScript.Action

/-- The comments in front of the target and those of the nodes that come for it are still in the tree. -/
def CommentsStay (a : Arena) (root target : NodeId) (moved : List NodeId) (b : Arena) : Prop :=
  (∀ comment ∈ a.leadingOf target, ∃ x, ReflTransGen b.HasParent x root ∧ b.HasComment x comment) ∧
    ∀ r ∈ moved, ∀ x, ReflTransGen a.HasParent x r →
      ReflTransGen b.HasParent x root ∧ ∀ comment, a.HasComment x comment → b.HasComment x comment

lemma commentsStay_of_exchange {a b : Arena} {root target p heir : NodeId} {payload : Payload NodeId} {place : Place}
    {moved new : List NodeId} (h : a.Exchange root target p payload place moved new b) (hheir : heir ∈ moved)
    (hnotes : b.notes? = a.notesWith (a.leadingHanded target heir)) : CommentsStay a root target moved b := by
  refine ⟨fun comment hcomment => ⟨heir, h.moved_attached hheir, ?_⟩,
    fun r hr x hx => ⟨h.below_moved_attached hr hx, fun comment hcomment => ?_⟩⟩
  · exact hasComment_of_handed (h.moved_lt hheir) hcomment (congrFun hnotes heir)
  · refine hcomment.of_handed ?_ (congrFun hnotes x)
    rintro rfl
    exact h.rooted.firm.acyclic x ((h.moved_way hr).trans_right hx)

variable {s : Run} {root target k : NodeId}

/-- Where an `if` gives way to its branch, no comment in front of the `if` is lost, and none of what stands in the
branch. Only a block that is spliced loses its own. -/
theorem keep_keeps_comments (hstanding : s.arena.Standing root) (hif : s.arena.kind? target = some .ifStatement)
    (hway : ReflTransGen s.arena.HasParent target root) (htakes : s.arena.Takes target (some k))
    (hfilled : ∀ body, s.arena.payload? k = some (.blockStatement body) → body.filterMap id ≠ []) :
    (keep target (some k)).Yields s fun _ s' =>
      (∀ comment ∈ s.arena.leadingOf target,
        ∃ x, ReflTransGen s'.arena.HasParent x root ∧ s'.arena.HasComment x comment) ∧
      ∀ x, ReflTransGen s.arena.HasParent x k → (x = k → spliced? s.arena target k = none) →
        ReflTransGen s'.arena.HasParent x root ∧
          ∀ comment, s.arena.HasComment x comment → s'.arena.HasComment x comment := by
  obtain ⟨p, payload, place, hat, hplace⟩ := hstanding.exists_at hif rfl hway
  have hrooted := hstanding.toRooted
  have hk : s.arena.parentOf k = some target := htakes.parentOf_eq hrooted.firm rfl
  refine yields_bind (yields_arena ?_)
  cases hspliced : spliced? s.arena target k with
  | none =>
    have hne : target ≠ k := fun heq => hrooted.firm.acyclic k (.single (heq ▸ hk))
    have hedit := (replaceWith_exchanges hrooted hat hk .refl).and
      (replaceWith_hands (lt_size_of_kind? hif) (lt_size_of_parentOf hk) hne)
    refine yields_edit (hedit.mono (fun _ _ hb => hb) fun _ hb => hb.1) fun _ b ⟨hexchange, hnotes⟩ => ?_
    obtain ⟨hleading, hown⟩ := commentsStay_of_exchange hexchange (List.mem_singleton_self k) hnotes
    exact ⟨hleading, fun x hx _ => hown k (List.mem_singleton_self k) x hx⟩
  | some statements =>
    have hmem (r : NodeId) := mem_spliced_iff hrooted.firm hspliced (r := r)
    obtain ⟨body, hbody, rfl, hlist, -⟩ := spliced?_eq_some hspliced
    obtain ⟨first, rest, heq⟩ := List.exists_cons_of_ne_nil (hfilled body hbody)
    rw [heq] at hspliced hmem ⊢
    have htarget : target ∉ first :: rest := fun hm =>
      hrooted.firm.acyclic target (.head ((hmem target).mp hm) (.single hk))
    have hlt (r : NodeId) (hr : r ∈ first :: rest) : r < s.arena.size := lt_size_of_parentOf ((hmem r).mp hr)
    have hedit := (replaceWithMany_splices hrooted hat hk hspliced).and
      (replaceWithMany_hands hrooted hat (hat.isSome_index hlist) hlt htarget)
    refine yields_edit (hedit.mono (fun _ _ hb => hb) fun _ hb => hb.1) fun _ b ⟨hexchange, hnotes⟩ => ?_
    obtain ⟨hleading, hown⟩ := commentsStay_of_exchange hexchange (List.mem_cons_self ..) hnotes
    refine ⟨hleading, fun x hx hne => ?_⟩
    -- The block itself is spliced, so the way up goes through one of its statements.
    obtain rfl | ⟨r, hxr, hr⟩ := hx.cases_tail
    · cases hne rfl
    · exact hown r ((hmem r).mpr hr) x hxr

/-- A block that is spliced goes, with the comments in front of it and at its end. -/
theorem keep_drops_block (hstanding : s.arena.Standing root) (hif : s.arena.kind? target = some .ifStatement)
    (hway : ReflTransGen s.arena.HasParent target root) (htakes : s.arena.Takes target (some k))
    {statements : List NodeId} (hspliced : spliced? s.arena target k = some statements) :
    (keep target (some k)).Yields s fun _ s' => ¬ ReflTransGen s'.arena.HasParent k root := by
  obtain ⟨p, payload, place, hat, -⟩ := hstanding.exists_at hif rfl hway
  have hrooted := hstanding.toRooted
  have hk : s.arena.parentOf k = some target := htakes.parentOf_eq hrooted.firm rfl
  have hself : k ∉ statements := fun hm =>
    hrooted.firm.acyclic k (.single ((mem_spliced_iff hrooted.firm hspliced).mp hm))
  refine yields_bind (yields_arena ?_)
  rw [hspliced]
  exact yields_edit (replaceWithMany_splices hrooted hat hk hspliced) fun _ b hexchange =>
    hexchange.not_attached (.single ⟨hk, hself⟩)

/-- The comment at the end of the block is not printed any more. -/
theorem transform_drops_comment : Turns "if (true) \x7b\n  run();\n  // tail\n\x7d" "run();" :=
  turns_of_run (exists_of_parse (by decide +kernel))

end Pass.Branch

end PlainScript
