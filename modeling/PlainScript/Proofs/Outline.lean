import PlainScript.Proofs.TreeInduction

/-! What a node is apart from which children it has. Whatever rebuilds a node child by child leaves its outline as
it is. -/
namespace PlainScript

variable {α β σ : Type}

/-- Whether there is a child. -/
def Slot.mark (c : Option α) : Option Unit := c.map fun _ => ()

namespace Payload

/-- A node with nothing but marks in the slots that are filled. -/
def outline (p : Payload α) : Payload Unit :=
  Id.run (p.traverse (fun _ c => pure (Slot.mark c)) fun _ cs => pure (cs.map Slot.mark))

lemma kind_outline (p : Payload α) : p.outline.kind = p.kind := by
  cases p <;> rfl

lemma outline_traverse {one : Role → Option α → StateM σ (Option β)}
    {many : Role → List (Option α) → StateM σ (List (Option β))}
    (hone : ∀ role c s, Slot.mark ((one role c).run s).1 = Slot.mark c)
    (hmany : ∀ role cs s, ((many role cs).run s).1.map Slot.mark = cs.map Slot.mark) (p : Payload α) (s : σ) :
    ((p.traverse one many).run s).1.outline = p.outline := by
  cases p <;>
    simp only [traverse, StateT.run_map, StateT.run_seq, StateT.run_pure] <;>
    simp [outline, traverse, Id.run, Functor.map, bind, pure, hone, hmany]

lemma outline_foldPayload (f : Node β → β) (p : Payload Tree) : (Tree.foldPayload f p).outline = p.outline := by
  cases p <;> simp [Tree.foldPayload, traverse, outline, Slot.mark]

end Payload

end PlainScript
