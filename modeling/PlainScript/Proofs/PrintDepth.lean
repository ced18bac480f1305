import PlainScript.Proofs.DepthBound
import PlainScript.Proofs.Supply

/-! How much room the printer needs for a script that was read with a limit. It counts every node on the way down, and
also the ones that the readers take in a loop. -/
namespace PlainScript

variable {source : Text} {options : ParseOptions} {printing : PrintOptions} {script : Script} {k : Nat}

lemma parse_height_le (hparse : parse source options = .ok script)
    (hways : ∀ way u, script.tree.Descends way u → way.count .beside + 4 * way.count .parameter ≤ k) :
    script.tree.height ≤ 14 * options.maxDepth.toNat + k + 2 := by
  obtain ⟨way, u, hway, hheight⟩ := script.tree.exists_descends
  have hdeeper := parse_shallow hparse way u hway
  have hothers := hways way u hway
  have hlength := Nesting.length_eq way
  omega

/-- The room that a limit of the parser asks for: fourteen levels for each of its own, and what the operands in a row
and the parameters on a way down add to them. -/
theorem parse_prints_of_ways (hparse : parse source options = .ok script) (hoperands : script.tree.hasOperands = true)
    (hways : ∀ way u, script.tree.Descends way u → way.count .beside + 4 * way.count .parameter ≤ k)
    (hroom : 14 * options.maxDepth.toNat + k + 2 ≤ printing.maxDepth) :
    ∃ code, (Arena.ofTree script.tree).print (Arena.ofTree script.tree).root printing = .ok code := by
  have hheight := parse_height_le hparse hways
  exact parse_prints hparse hoperands (by omega)

/-- A chain of nineteen members. -/
def memberChain : Text := "a.b.c.d.e.f.g.h.i.j.k.l.m.n.o.p.q.r.s.t"

/-- Without an allowance for the operands in a row there is not enough room: the chain costs the parser one level, and
the printer one for each member. -/
theorem parse_prints_not_memberChain : ∃ script, parse memberChain { maxDepth := 8 } = .ok script ∧
    (Arena.ofTree script.tree).print (Arena.ofTree script.tree).root { maxDepth := 2 * 8 } = .error (.tooDeep 16) :=
  exists_of_parse (by decide +kernel)

end PlainScript
