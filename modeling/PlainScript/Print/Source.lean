import PlainScript.Arena

/-! Where a printer finds nodes, and what can be wrong with them. Trees that hold their children and
arenas that number them are printed alike: all that a printer asks is what stands under a
reference. -/
namespace PlainScript

/-- Nodes under references of type `α`. A path down the source that is longer than `size` comes
back to where it was. -/
structure NodeSource (α : Type) where
  node? : α → Option (Node α)
  size : Nat

def Tree.source (t : Tree) : NodeSource Tree := ⟨fun t => some t.node, t.size⟩

def Arena.source (a : Arena) : NodeSource NodeId := ⟨fun id => (a.cell? id).map (·.toNode), a.size⟩

/-- Why a tree has no text. -/
inductive PrintError
  | missing (what : Text)
  | dangling (what : Text)
  | tooDeep (limit : Int)
  | misplaced (wanted : Text) (found : Kind)
  | noDeclarators
  | tryAlone
  | notStatement (found : Kind)
  | notExpression (found : Kind)
  | noOperand (op : Text)
  | unknownOperator (op : Text)
  | emptySequence
  deriving DecidableEq, Repr

def PrintError.wording : PrintError → Text
  | missing what => "missing " ++ what
  | dangling what => "dangling node id for " ++ what
  | tooDeep limit => "maximum print depth of " ++ Text.ofInt limit ++ " exceeded"
  | misplaced wanted found => wanted ++ ", found " ++ found.name
  | noDeclarators => "variable declaration without declarators"
  | tryAlone => "try statement without catch or finally"
  | notStatement found => found.name ++ " cannot appear as a statement"
  | notExpression found => found.name ++ " cannot appear in an expression"
  | noOperand op => "missing operand of " ++ op
  | unknownOperator op => "unknown binary operator '" ++ op ++ "'"
  | emptySequence => "empty sequence expression"

def PrintError.message (e : PrintError) : Text := e.wording.upToZero

namespace NodeSource

variable {α : Type} (source : NodeSource α)

def payload? (a : α) : Option (Payload α) := (source.node? a).map (·.payload)

def isKind (k : Kind) (a : α) : Bool := (source.payload? a).any (·.kind == k)

/-- The node in a slot that must not be empty. -/
def need (what : Text) : Option α → Except PrintError (α × Node α)
  | none => .error (.missing what)
  | some a =>
    match source.node? a with
    | none => .error (.dangling what)
    | some node => .ok (a, node)

end NodeSource

end PlainScript
