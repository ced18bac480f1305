import PlainScript.Grammar.Statement
import PlainScript.Token.Lexer

/-! Whole scripts. A script is read only if all its tokens can be read and its brackets match. Its
rules nest at most as deep as the options allow. -/
namespace PlainScript

structure ParseOptions where
  recover : Bool := true
  maxRecoveredErrors : Int := 64
  maxDepth : Int := 512
  deriving DecidableEq, Repr

/-- A script that was read, with the errors that were recovered from in their order. -/
structure Script where
  tree : Tree
  diagnostics : List ParseError

namespace Grammar

/-- The fault of a bracket that does not match, with `open` the brackets still open. -/
def bracketFault? (pending : List Token) : List Token → Option ParseError
  | [] => pending.head?.map fun t => ⟨.unclosed t.text, t.position⟩
  | t :: rest =>
    if t.isOpening then bracketFault? (t :: pending) rest
    else if t.isClosing then
      match pending with
      | [] => some ⟨.unbalanced t.text, t.position⟩
      | opener :: outer =>
        if Token.closer opener.text == t.text then bracketFault? outer rest
        else some ⟨.unbalanced t.text, t.position⟩
    else bracketFault? pending rest

def read (rules : Rules) : Rule → Parser Tree
  | .statement => statement rules
  | .assignment allowIn => assignment rules allowIn
  | .unary => unary rules

/-- The rules for texts that nest at most `depth` levels. -/
def rulesUpTo (depth : Nat) (rule : Rule) : Parser Tree :=
  match depth with
  | 0 => fail .tooDeep
  | depth + 1 => read (rulesUpTo depth) rule

def script (rules : Rules) : Parser Tree := do
  let position ← here
  let body ← statementList rules .endOfFile
  let trailing ← drainComments
  return .mk { payload := .program (body.map some), position, trailing }

end Grammar

open Grammar in
/-- Reads a script. -/
def parse (source : Text) (options : ParseOptions) : Except ParseError Script := do
  let tokens ← (tokenize source).mapError ParseError.ofLexError
  if let some e := bracketFault? [] tokens then throw e
  let first := tokens.headD {}
  let start : State := { current := first, later := tokens.tail, pending := first.comments }
  let context : Context :=
    { source, recover := options.recover, maxRecoveredErrors := options.maxRecoveredErrors }
  match (script (rulesUpTo options.maxDepth.toNat)).run context start with
  | .ok tree final => return ⟨tree, final.recovered.reverse⟩
  | .error e _ => throw e

/-- What is said of a script that is read can be computed. -/
theorem exists_of_parse {source : Text} {options : ParseOptions} {P : Script → Prop} [DecidablePred P]
    (h : (parse source options).toOption.any (fun script => decide (P script)) = true) :
    ∃ script, parse source options = .ok script ∧ P script := by
  cases hparse : parse source options with
  | error e => simp [hparse, Except.toOption] at h
  | ok script => exact ⟨script, rfl, by simpa [hparse, Except.toOption] using h⟩

end PlainScript
