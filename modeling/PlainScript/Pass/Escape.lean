import PlainScript.Idiom.Escape
import PlainScript.Idiom.Scope
import PlainScript.Pass

/-! Readable strings. Escapes of printable characters are resolved in the spelling of a string, which
keeps its value. Directives are told by their spelling and stay as they are. -/
namespace PlainScript.Pass

open PlainScript.Action

namespace Escape

def source : Text := "StringUnescape"
def name : Text := "string-unescape"

def resolveString (id : NodeId) (resolved : Nat) : Action Nat := do
  let a ← arena
  match a.payload? id with
  | some (.stringLiteral value raw) =>
    if !hasCodeEscape raw then return resolved
    if a.isDirective id then
      count "directives_kept" 1
      return resolved
    let readable := unescape raw
    if readable = raw then return resolved
    say .trace source (raw ++ " -> " ++ readable)
    edit (Edit.setPayload id (.stringLiteral value readable))
    return resolved + 1
  | _ => return resolved

def transform : Action Outcome := do
  let resolved ← walkKind .pre .stringLiteral 0 resolveString
  conclude ⟨name, "decoded escaped string literals", resolved, .verified⟩ source
    ("Decoded escapes in " ++ Text.ofNat resolved ++ " string literal(s)")

end Escape

def escapes : Pass :=
  { name := Escape.name
    description := "Decodes \\x and \\u escapes of printable characters in string literals"
    priority := 250
    transform := Escape.transform }

end PlainScript.Pass
