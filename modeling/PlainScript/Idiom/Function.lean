import PlainScript.Log
import PlainScript.Print.Printer

/-! Functions and calls that obfuscated scripts carry. They are told by what stands in them or by the
words of their text, so that a function without a text cannot be told. -/
namespace PlainScript

/-- How a function keeps itself from being read. -/
inductive Defense
  | debugger
  | toStringCheck
  deriving DecidableEq, Repr

def Defense.name : Defense → Text
  | debugger => "debugger"
  | toStringCheck => "tostring"

/-- What there is to say about a function with a defense. -/
def Defense.note (name : Text) : Defense → Log.Entry
  | debugger => ⟨.trace, "Detectors", "function '" ++ name ++ "' holds a debugger trap"⟩
  | toStringCheck =>
    ⟨.trace, "Detectors", "function '" ++ name ++ "' matches the toString/constructor check"⟩

namespace Arena

/-- Whether a block has a `debugger` statement among its own statements. -/
def hasDebugger (a : Arena) (block : Option NodeId) : Bool :=
  match block.bind a.payload? with
  | some (.blockStatement body) => body.any (·.any (a.isKind .debuggerStatement))
  | _ => false

/-- The name of a function declaration. -/
def functionName? (a : Arena) (id : NodeId) : Option Text :=
  match a.payload? id with
  | some (.functionDeclaration name ..) => some name
  | _ => none

/-- The defense of a function declaration. Only the check is told by its text. -/
def defense? (a : Arena) (id : NodeId) (options : PrintOptions) :
    Except PrintError (Option Defense) :=
  match a.payload? id with
  | some (.functionDeclaration _ _ body _ _) =>
    if a.hasDebugger body then .ok (some .debugger)
    else match a.print (some id) options with
      | .error e => .error e
      | .ok code =>
        if code.contains "toString" && code.contains "constructor" then .ok (some .toStringCheck)
        else .ok none
  | _ => .ok none

/-- Whether a function declaration has the text of a string decoder. -/
def isDecoder (a : Arena) (id : NodeId) (options : PrintOptions) : Except PrintError Bool :=
  if a.isKind .functionDeclaration id then
    match a.print (some id) options with
    | .error e => .error e
    | .ok code =>
      .ok (code.contains "charCodeAt" && code.contains "fromCharCode" && code.contains "split")
  else .ok false

/-- The name that stands in a slot. -/
def nameIn? (a : Arena) (slot : Option NodeId) : Option Text :=
  match slot.bind a.payload? with
  | some (.identifier name) => some name
  | _ => none

/-- The body of a function expression. -/
def handlerBody? (a : Arena) (slot : Option NodeId) : Option NodeId :=
  match slot.bind a.payload? with
  | some (.functionExpression _ _ body _ _) => body
  | some (.arrowFunctionExpression _ body _) => body
  | _ => none

/-- Whether a call starts a timer whose function stops in the debugger. -/
def isDebuggerTimer (a : Arena) (id : NodeId) : Bool :=
  match a.payload? id with
  | some (.callExpression callee (handler :: _) _) =>
    let starts := a.nameIn? callee = some "setInterval" || a.nameIn? callee = some "setTimeout"
    starts && a.hasDebugger (a.handlerBody? handler)
  | _ => false

/-- The name that a call calls, if it is no more than a name. -/
def calleeName? (a : Arena) (id : NodeId) : Option Text :=
  match a.payload? id with
  | some (.callExpression callee _ _) => a.nameIn? callee
  | _ => none

end Arena

end PlainScript
