import PlainScript.Grammar.Error
import PlainScript.Tree

/-! What every rule of the grammar works with: the tokens ahead, the comments that were reached but
belong to no node yet, and the errors recovered from so far. The comments of a token count as
reached as soon as the token is the current one. An error leaves the state as it is, so that what
was recovered inside a statement is known even if the statement fails as a whole. -/
namespace PlainScript.Grammar

structure State where
  current : Token
  later : List Token
  pending : List Text
  /-- The latest error first. -/
  recovered : List ParseError := []

/-- What a rule may depend on: the source text, how to recover, and which function it stands in. -/
structure Context where
  source : Text
  recover : Bool
  maxRecoveredErrors : Int
  inFunction : Bool := false
  inAsync : Bool := false
  inGenerator : Bool := false

abbrev Parser := ReaderT Context (EStateM ParseError State)

def here : Parser Position := return (← get).current.position

def fail {α : Type} (fault : ParseFault) : Parser α := do throw ⟨fault, ← here⟩

def current : Parser Token := return (← get).current

/-- The token `n` places ahead, the last one where there are fewer. -/
def ahead (n : Nat) : Parser Token := do
  let s ← get
  return (s.current :: s.later).getD n (s.later.getLastD s.current)

/-- Goes on to the next token and answers the one that was current. The last one stays. -/
def advance : Parser Token := do
  let s ← get
  match s.later with
  | [] => pure ()
  | t :: rest => set { s with current := t, later := rest, pending := s.pending ++ t.comments }
  return s.current

/-- How many tokens there are from the current one on. -/
def tokensLeft : Parser Nat := return (← get).later.length + 1

def atPunct (p : Text) : Parser Bool := return (← current).isPunctuator p
def atWord (k : Text) : Parser Bool := return (← current).isKeyword k
def atName (n : Text) : Parser Bool := return (← current).isName n

def skip : Parser Unit := discard advance

/-- Passes a punctuator that may stand here. -/
def eat (p : Text) : Parser Bool := do
  if ← atPunct p then
    skip
    return true
  return false

def expect (p : Text) : Parser Unit := do
  if !(← eat p) then
    let t ← current
    fail (.expected p (if t.isEnd then none else some t.text))

def expectWord (k : Text) : Parser Unit := do
  if !(← atWord k) then fail (.expectedKeyword k)
  skip

def unexpected {α : Type} : Parser α := do
  let t ← current
  if t.isEnd then fail .unexpectedEnd else fail (.unexpected t.text)

/-- The end of a statement: a semicolon, or a place where one may be left out. -/
def semicolon : Parser Unit := do
  if !(← eat ";") then
    let t ← current
    if !(t.isPunctuator closeBrace || t.isEnd || t.newlineBefore) then unexpected

/-- The comments that belong to no node yet. -/
def drainComments : Parser (List Text) := modifyGet fun s => (s.pending, { s with pending := [] })

/-- Reads `item` until `stop` holds. Since an item takes at least one token, the number of tokens
left bounds the repetitions. -/
def repeatUntil {α : Type} (stop : Parser Bool) (item : Parser α) : Parser (List α) := do
  let rec go : Nat → Parser (List α)
    | 0 => unexpected
    | n + 1 => do
      if ← stop then return []
      let first ← item
      let rest ← go n
      return first :: rest
  go ((← tokensLeft) + 1)

/-- Extends a value as long as there is something to extend it by. -/
def extend {α : Type} (step : α → Parser (Option α)) (start : α) : Parser α := do
  let rec go : Nat → α → Parser α
    | 0, _ => unexpected
    | n + 1, a => do
      match ← step a with
      | none => return a
      | some b => go n b
  go ((← tokensLeft) + 1) start

/-- Items with commas between them, up to a closing bracket that is not read. A comma may stand
before the bracket. -/
def commaList {α : Type} (closing : Text) (item : Parser α) : Parser (List α) :=
  repeatUntil (atPunct closing) do
    let a ← item
    if !(← atPunct closing) then expect ","
    return a

/-- Reads inside a function of some kind. -/
def inFunction {α : Type} (isAsync isGenerator : Bool) (p : Parser α) : Parser α :=
  withReader (fun c => { c with inFunction := true, inAsync := isAsync, inGenerator := isGenerator })
    p

/-- The three rules in which scripts nest. Reading one of them inside another costs one level of
depth. -/
inductive Rule
  | statement
  | assignment (allowIn : Bool)
  | unary
  deriving DecidableEq, Repr

/-- How the nested rules are read. -/
abbrev Rules := Rule → Parser Tree

/-- A word that becomes an identifier. -/
def identifierHere : Parser Tree := do
  let position ← here
  return .of (.identifier (← advance).text) position

end PlainScript.Grammar
