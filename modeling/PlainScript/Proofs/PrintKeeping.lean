import PlainScript.Proofs.PlacedWays
import PlainScript.Proofs.Leaves

/-! Nodes are printed after a change of the tree if what has come for a node is printed wherever that node was. -/
namespace PlainScript

open Relation

variable {α : Type}

/-- A node with something else in the place of a child, or as it was. -/
structure Node.Continues (target : α) (new : List α) (node node' : Node α) : Prop where
  leading : node.leading <:+ node'.leading
  kind_eq : node'.payload.kind = node.payload.kind
  needs_eq : ∀ w : Way, w.needs node'.payload = w.needs node.payload
  parts : ∀ (w : Way) ps, w.parts node.payload = some ps → ∃ qs, w.parts node'.payload = some qs ∧
    ∀ v c, (v, c) ∈ qs → (v, c) ∈ ps ∧ c ≠ some target ∨ ∃ y ∈ new, c = some y ∧ (v, some target) ∈ ps

namespace Node.Continues

variable {target : α} {new : List α} {node node' : Node α} {w v : Way}

lemma resolve_eq (h : node.Continues target new node') (hw : w ≠ .labeled) : w.resolve node' = w.resolve node := by
  cases w with
  | labeled => exact absurd rfl hw
  | nested | head | arrowBody => simp only [Way.resolve, h.kind_eq]
  | chain => simp only [Way.resolve, h.needs_eq]
  | _ => rfl

end Node.Continues

namespace Printable

variable {source source' : NodeSource α} {x : α} {n m : Nat} {w : Way}

/-- Behind a label a statement is printed as a body once comments stand before it. -/
lemma labeled_of_leading {node node' : Node α} (hnode' : source'.node? x = some node')
    (hleading : node.leading <:+ node'.leading) (hway : Way.resolve .labeled node = some w)
    (h : Printable source' n w x) : Printable source' n .labeled x := by
  by_cases hempty : node'.leading.isEmpty = true
  · have hnone : node.leading = [] := List.suffix_nil.mp (List.isEmpty_iff.mp hempty ▸ hleading)
    obtain rfl : Way.statement = w := by simpa [Way.resolve, hnone] using hway
    exact .resolve hnode' (by rw [Way.resolve, if_pos hempty]) h
  · refine .resolve hnode' (by rw [Way.resolve, if_neg hempty]) ?_
    rw [Way.resolve] at hway
    obtain rfl := Option.some.inj hway
    split at h
    · exact h.nested
    · exact h

/-- If the nodes that are kept hold the nodes that they held, but for what has come in the place of `target`, and
this is printed as `target` was, then all that was kept is printed as it was. -/
theorem continues {n : Nat} (target : α) (new : List α) (keeps : α → Prop) (hnode : ∀ x node, keeps x → source.node? x = some node →
      (∃ room w, Printable source room w x) → ∃ node', source'.node? x = some node' ∧ node.Continues target new node')
    (hdown : ∀ x node, keeps x → source.node? x = some node → ∀ y ∈ node.payload.children, y ≠ target → keeps y)
    (hcome : ∀ m ≤ n, ∀ w, Printable source m w target → ∀ y ∈ new, Printable source' m w y)
    (h : Printable source m w x) (hle : m ≤ n) (hkeeps : keeps x) : Printable source' m w x := by
  induction h with
  | @parts k room w x node ps hx hroom hparts hfull h ih =>
    obtain ⟨node', hx', hcontinues⟩ := hnode x node hkeeps hx ⟨room, w, .parts hx hroom hparts hfull h⟩
    obtain ⟨qs, hparts', hqs⟩ := hcontinues.parts w ps hparts
    subst hroom
    have hk : k ≤ n := Nat.le_trans (Nat.le_add_right k w.cost) hle
    refine of_fulfills hx' hparts' fun v c hc => ?_
    obtain ⟨hold, hne⟩ | ⟨y, hy, rfl, htarget⟩ := hqs v c hc
    · cases c with
      | none => exact absurd hold (hfull v)
      | some y =>
        have hkept := hdown x node hkeeps hx y (Way.mem_children_of_parts hparts hold) fun heq => hne (congrArg some heq)
        exact fills_some.mpr (ih v y hold hk hkept)
    · exact fills_some.mpr (hcome k hk v (h v target htarget) y hy)
  | @resolve k w w' x node hx hway h ih =>
    obtain ⟨node', hx', hcontinues⟩ := hnode x node hkeeps hx ⟨k, w, .resolve hx hway h⟩
    by_cases hw : w = .labeled
    · subst hw
      exact labeled_of_leading hx' hcontinues.leading hway (ih hle hkeeps)
    · exact .resolve hx' ((hcontinues.resolve_eq hw).trans hway) (ih hle hkeeps)

end Printable

namespace Arena

variable {a b : Arena} {root target p x : NodeId} {payload q : Payload NodeId} {place : Payload.Place}
  {moved new : List NodeId} {n m : Nat} {w : Way}

lemma exists_node (h : a.payload? x = some q) :
    ∃ node, a.source.node? x = some node ∧ node.payload = q ∧ node.leading = a.leadingOf x := by
  obtain ⟨cell, hcell, rfl⟩ := Option.map_eq_some_iff.mp h
  exact ⟨cell.toNode, by simp [source, hcell], rfl, by simp [leadingOf, hcell]⟩

lemma payload?_of_node {node : Node NodeId} (h : a.source.node? x = some node) :
    a.payload? x = some node.payload ∧ node.leading = a.leadingOf x := by
  obtain ⟨cell, hcell, rfl⟩ := Option.map_eq_some_iff.mp h
  exact ⟨by simp [payload?, hcell], by simp [leadingOf, hcell]⟩

namespace Exchange

variable (h : a.Exchange root target p payload place moved new b)
include h

/-- What holds a statement and is printed holds any statement. -/
lemma hosts_of_prints {k : Kind} (hk : a.kind? target = some k) (hplain : k.isPlainStatement = true)
    (hrole : place.role.takesStatement = true) (hp : Printable a.source n w p) : payload.kind ∈ hosting := by
  obtain ⟨put, hput, hslot, -⟩ := Payload.exists_put h.place_eq
  refine (Payload.kind_of_takesStatement (List.mem_of_getElem? hslot) hrole).resolve_right fun htry => ?_
  obtain ⟨node, hnode, rfl, -⟩ := exists_node h.payload_eq
  have hstatement := (hp.of_plain hnode (by rw [htry]; rfl)).1
  obtain ⟨node', hnode', ⟨m, ps, -, hps, hparts⟩ | ⟨w', hway, -⟩⟩ := hstatement.cases_room
  · obtain rfl := Option.some.inj (hnode.symm.trans hnode')
    obtain ⟨y, hy, hblock⟩ := hparts _ _ (Way.block_of_try htry hps hslot hrole hput.mem_entries)
    obtain rfl := Option.some.inj hy
    obtain ⟨q, hq, rfl⟩ := exists_payload hk
    obtain ⟨node, hnode, rfl, -⟩ := exists_node hq
    obtain hw | hw | hw := (hblock.of_plain hnode hplain).2 <;> cases hw
  · cases hway

lemma continues_after {node : Node NodeId} (hx : x < a.size) (hstays : ¬ a.StaysWith moved target x)
    (hnode : a.source.node? x = some node) (hhost : x = p → payload.kind ∈ hosting)
    (hrole : place.role.takesStatement = true) (hfilled : place.index = none → new = [] → place.role ≠ .statement) :
    ∃ node', b.source.node? x = some node' ∧ node.Continues target new node' := by
  obtain ⟨hpayload, hleading⟩ := payload?_of_node hnode
  have hne : x ≠ target := fun heq => hstays (heq ▸ .refl)
  have hsuffix (node' : Node NodeId) (h' : node'.leading = b.leadingOf x) : node.leading <:+ node'.leading := by
    rw [h', hleading]
    exact h.replaced.kept.leading_suffix x hne
  by_cases hp : x = p
  · subst hp
    obtain rfl := Option.some.inj (hpayload.symm.trans h.payload_eq)
    obtain ⟨node', hnode', hpayload', hleading'⟩ := exists_node h.replaced.payload?_place
    refine ⟨node', hnode', hsuffix node' hleading', ?_, fun w => ?_, fun w ps hps => ?_⟩
    · rw [hpayload', Payload.kind_splice]
    · rw [hpayload']
      exact (Way.needs_congr (Payload.kind_splice ..).symm (hhost rfl) w).symm
    · obtain ⟨qs, hqs, hcases⟩ := Way.parts_splice h.place_eq (hhost rfl) hrole hfilled hps
      rw [hpayload']
      refine ⟨qs, hqs, fun v c hc => (hcases v c hc).imp_left fun hold => ⟨hold, ?_⟩⟩
      rintro rfl
      -- The target is a child no more.
      have hchild : target ∈ b.childIds x := by
        rw [childIds_eq h.replaced.payload?_place]
        exact Way.mem_children_of_parts hqs hc
      have hparent := h.replaced.firm.mem_iff.mp hchild
      simp [h.parentOf_of_lt h.target_lt h.target_not_moved] at hparent
  · obtain ⟨node', hnode', hpayload', hleading'⟩ := exists_node ((h.payload?_of_lt hx hp hstays).trans hpayload)
    refine ⟨node', hnode', hsuffix node' hleading', by rw [hpayload'], fun w => by rw [hpayload'], fun w ps hps => ?_⟩
    refine ⟨ps, hpayload'.symm ▸ hps, fun v c hc => .inl ⟨hc, ?_⟩⟩
    rintro rfl
    have hparent := h.rooted.firm.mem_iff.mp (childIds_eq hpayload ▸ Way.mem_children_of_parts hps hc)
    exact hp (Option.some.inj (hparent.symm.trans h.parent_eq))

/-- What was printed is printed, if what came for a statement is printed where that was printed. -/
theorem prints_after {k : Kind} (hk : a.kind? target = some k) (hplain : k.isPlainStatement = true)
    (hrole : place.role.takesStatement = true) (hfilled : place.index = none → new = [] → place.role ≠ .statement)
    (hcome : ∀ n, (∀ w, ∀ r ∈ moved, Printable a.source n w r → Printable b.source n w r) →
      Printable a.source (n + 1) .statement target → ∀ y ∈ new, Printable b.source (n + 1) .statement y)
    (hx : x < a.size) (hstays : ¬ a.StaysWith moved target x) (hprints : Printable a.source n w x) :
    Printable b.source n w x := by
  induction n using Nat.strongRecOn generalizing w x with
  | _ n ih =>
    refine hprints.continues target new (fun x => x < a.size ∧ ¬ a.StaysWith moved target x)
      ?_ ?_ ?_ (Nat.le_refl n) ⟨hx, hstays⟩
    · rintro x node ⟨hx, hstays⟩ hnode ⟨room, w, hprints⟩
      exact h.continues_after hx hstays hnode (fun hp => h.hosts_of_prints hk hplain hrole (hp ▸ hprints)) hrole hfilled
    · rintro x node ⟨hx, hstays⟩ hnode y hy hne
      have hparent : a.parentOf y = some x :=
        h.rooted.firm.mem_iff.mp (childIds_eq (payload?_of_node hnode).1 ▸ hy)
      exact ⟨lt_size_of_parentOf hparent, fun hy => hne (stays_of_parent hparent hstays hy)⟩
    · intro m hm w htarget y hy
      obtain ⟨q, hq, rfl⟩ := exists_payload hk
      obtain ⟨node, hnode, rfl, -⟩ := exists_node hq
      obtain ⟨hstatement, hw⟩ := htarget.of_plain hnode hplain
      obtain ⟨m, rfl⟩ := hstatement.exists_room_statement
      have hmoved (w : Way) (r : NodeId) (hr : r ∈ moved) (hprints : Printable a.source m w r) : Printable b.source m w r :=
        ih m hm (h.moved_lt hr) (h.moved_not_stays hr) hprints
      have hnew := hcome m hmoved hstatement y hy
      obtain rfl | rfl | rfl := hw
      · exact hnew
      · exact hnew.nested
      · exact hnew.labeled

end Exchange

end Arena

end PlainScript
