import PlainScript.Grammar.Parser

/-! Lists of statements. A statement with a fault of its own becomes raw text when the reader
recovers: the text goes on to a semicolon, or stops before a line, a closing brace or a case clause
at the level of the statement. -/
namespace PlainScript.Grammar

/-- What ends a list of statements. -/
inductive ListEnd
  | endOfFile
  | closingBrace
  | caseClause
  deriving DecidableEq, Repr

def beginsClause (t : Token) : Bool := t.isKeyword "case" || t.isKeyword "default"

def ListEnd.isAt (ending : ListEnd) (t : Token) : Bool :=
  t.isEnd || match ending with
    | endOfFile => false
    | closingBrace => t.isPunctuator closeBrace
    | caseClause => t.isPunctuator closeBrace || beginsClause t

/-- How many tokens to skip, `depth` brackets deep. -/
def skipCount (ending : ListEnd) (depth : Nat) (isFirst : Bool) : List Token → Nat
  | [] => 0
  | t :: rest =>
    let stopsHere := !isFirst &&
      (t.newlineBefore || t.isPunctuator closeBrace || (ending == .caseClause && beginsClause t))
    if t.isEnd then 0
    else if depth = 0 && stopsHere then 0
    else if depth = 0 && t.isPunctuator ";" then 1
    else if t.isOpening then 1 + skipCount ending (depth + 1) false rest
    else if t.isClosing then
      if depth = 0 then 0 else 1 + skipCount ending (depth - 1) false rest
    else 1 + skipCount ending depth false rest

/-- Goes back to where a faulty statement began and takes its tokens as raw text. At least one token
is taken. The comments inside are part of the text. -/
def recoverFrom (start : State) (ending : ListEnd) (e : ParseError) : Parser Tree := do
  modify fun s => { s with recovered := e :: s.recovered }
  let context ← read
  if context.maxRecoveredErrors < (← get).recovered.length then throw ⟨.tooManyErrors, e.position⟩
  let tokens := start.current :: start.later
  let skipped := tokens.take (max 1 (skipCount ending 0 true tokens))
  let next := (tokens.drop skipped.length).headD start.current
  modify fun s => { s with
    current := next
    later := tokens.drop (skipped.length + 1)
    pending := next.comments }
  let first := start.current
  let stop := (skipped.getLastD first).stop
  return .mk
    { payload := .rawStatement ((context.source.drop first.start).take (stop - first.start))
      position := first.position
      leading := start.pending }

/-- A statement of a list, or raw text in its place. -/
def listedStatement (rules : Rules) (ending : ListEnd) : Parser Tree := do
  let start ← get
  tryCatch (rules .statement) fun e => do
    if (← read).recover && e.isRecoverable then recoverFrom start ending e else throw e

def statementList (rules : Rules) (ending : ListEnd) : Parser (List Tree) :=
  repeatUntil (return ending.isAt (← current)) (listedStatement rules ending)

def block (rules : Rules) : Parser Tree := do
  let position ← here
  expect openBrace
  let body ← statementList rules .closingBrace
  let trailing ← drainComments
  expect closeBrace
  return .mk { payload := .blockStatement (body.map some), position, trailing }

end PlainScript.Grammar
