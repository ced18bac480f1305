import PlainScript.Proofs.Attachment
import PlainScript.Proofs.Settled

/-! Strings that are spelled as what they denote. Each string among the tokens of a text is, and tokens that were passed
do not come back, so a rule sees no other strings than those. -/
namespace PlainScript

/-- A string is spelled as what it denotes. -/
def Token.IsSpelled (t : Token) : Prop := ∀ value, t.kind = .string value → SpellsString t.text value

lemma isSpelled_of_tokensFrom {previous : Option Token} {place : Cursor} {tokens : List Token}
    (h : tokensFrom previous place = .ok tokens) : ∀ t ∈ tokens, t.IsSpelled := by
  induction tokens generalizing previous place with
  | nil => nofun
  | cons t later ih =>
    cases finds_of_tokensFrom h with
    | ending hgap ht =>
      refine List.forall_mem_cons.mpr ⟨fun value hkind => ?_, nofun⟩
      cases hkind.symm.trans (congrArg Prod.fst ht)
    | token hrest hgap hne htoken hstart hstop hlater =>
      refine List.forall_mem_cons.mpr ⟨fun value hkind => ?_, ih hlater⟩
      obtain ⟨c, text, htext⟩ := List.exists_cons_of_ne_nil hne
      rw [hkind, htext, List.cons_append] at htoken
      obtain ⟨hquote, hstring⟩ := Scan.string_of_token htoken
      -- What stands behind the token has no part in it.
      have halone := Scan.string_append hquote hstring []
      rw [List.append_nil] at halone
      rw [htext]
      exact ⟨by simpa using hquote, halone⟩

namespace Payload

/-- A string literal is spelled as what it denotes. -/
def IsSpelled {α : Type} : Payload α → Prop
  | stringLiteral value raw => SpellsString raw value
  | _ => True

end Payload

namespace Tree

/-- All string literals of the tree are spelled as what they denote. -/
inductive Spelled : Tree → Prop
  | mk (node : Node Tree) (h : node.payload.IsSpelled) (children : ∀ t ∈ node.payload.children, Spelled t) :
      Spelled (.mk node)

variable {node : Node Tree} {t : Tree} {comments : List Text}

lemma Spelled.withLeading (h : t.Spelled) : (t.withLeading comments).Spelled := by
  obtain ⟨node, hnode, hchildren⟩ := h
  exact .mk _ hnode hchildren

lemma Spelled.withTrailing (h : t.Spelled) : (t.withTrailing comments).Spelled := by
  obtain ⟨node, hnode, hchildren⟩ := h
  exact .mk _ hnode hchildren

end Tree

namespace Grammar

/-- The strings that are still to be read are spelled as what they denote. -/
def State.Spelled (s : State) : Prop := ∀ t ∈ s.tokens, t.IsSpelled

lemma spelled_of_tokenize {source : Text} {tokens : List Token} (h : tokenize source = .ok tokens) :
    ({ current := tokens.headD {}, later := tokens.tail, pending := (tokens.headD {}).comments } : State).Spelled := by
  have htokens := isSpelled_of_tokensFrom h
  cases tokens with
  | nil => exact List.forall_mem_cons.mpr ⟨nofun, nofun⟩
  | cons t later => exact htokens

/-- Reading may go on at a token further on. -/
lemma State.Spelled.drop {s : State} (h : s.Spelled) (n : Nat) :
    ∀ t ∈ (s.tokens.drop n).headD s.current :: s.tokens.drop (n + 1), t.IsSpelled := by
  refine List.forall_mem_cons.mpr ⟨?_, fun t ht => h t (List.mem_of_mem_drop ht)⟩
  cases hrest : s.tokens.drop n with
  | nil => exact h _ List.mem_cons_self
  | cons t rest => exact h t (List.mem_of_mem_drop (hrest ▸ List.mem_cons_self))

/-- The tokens that a rule leaves were there before it. -/
class Passes {α : Type} (p : Parser α) : Prop where
  meets : ∀ c s, Meets p c s (fun _ s' => s'.tokens ⊆ s.tokens) fun _ s' => s'.tokens ⊆ s.tokens

section Passes

variable {α β : Type} {p : Parser α} {q : α → Parser β}

lemma Asks.passes (h : Asks p) : Passes p where
  meets c s := by
    obtain ⟨a, ha⟩ := h c s
    rw [Meets, ha]
    exact fun _ => id

instance [Passes p] [∀ a, Passes (q a)] : Passes (p >>= q) where
  meets c s := by
    refine meets_bind ((Passes.meets c s).mono (fun a s' hs => ?_) fun _ _ => id)
    exact (Passes.meets c s').mono (fun _ _ hs' => List.Subset.trans hs' hs) fun _ _ hs' => List.Subset.trans hs' hs

instance {b : Prop} [Decidable b] {p q : Parser α} [Passes p] [Passes q] : Passes (if b then p else q) := by
  split <;> infer_instance

instance (a : α) : Passes (pure a : Parser α) := (asks_pure a).passes
instance : Passes here := asks_here.passes
instance : Passes current := asks_current.passes
instance (n : Nat) : Passes (ahead n) := (asks_ahead n).passes
instance : Passes tokensLeft := asks_tokensLeft.passes
instance (w : Text) : Passes (atPunct w) := (asks_atPunct w).passes
instance (w : Text) : Passes (atWord w) := (asks_atWord w).passes
instance (w : Text) : Passes (atName w) := (asks_atName w).passes
instance : Passes (MonadReader.read : Parser Context) := asks_read.passes
instance : Passes (get : Parser State) := asks_get.passes

instance (fault : ParseFault) : Passes (fail fault : Parser α) := ⟨fun _ _ _ => id⟩

instance : Passes advance where
  meets _ s := by
    obtain ⟨current, later, pending, recovered⟩ := s
    cases later with
    | nil => exact fun _ => id
    | cons => exact List.subset_cons_self ..

instance [Passes p] : Passes (discard p) := inferInstanceAs (Passes (p >>= fun _ => pure PUnit.unit))
instance : Passes skip := by unfold skip; infer_instance
instance (w : Text) : Passes (eat w) := by unfold eat; infer_instance
instance (w : Text) : Passes (expect w) := by unfold expect; infer_instance
instance (w : Text) : Passes (expectWord w) := by unfold expectWord; infer_instance
instance : Passes (unexpected : Parser α) := by unfold unexpected; infer_instance
instance : Passes semicolon := by unfold semicolon; infer_instance
instance : Passes drainComments := ⟨fun _ _ _ => id⟩
instance (w : Text) : Passes (modifier w) := by unfold modifier; infer_instance
instance : Passes accessor := by unfold accessor; infer_instance
instance : Passes atLexicalDeclaration := by unfold atLexicalDeclaration; infer_instance
instance : Passes jumpLabel := by unfold jumpLabel; infer_instance

end Passes

end Grammar

end PlainScript
