import PlainScript.Number.General

/-! Messages about a run. A message has a level and names the component that it comes from; settings
say which levels are written and what a line looks like. -/
namespace PlainScript.Log

/-- How urgent a message is, by rank. Six ranks have names; settings may ask for any other. -/
structure Level where
  rank : Int
  deriving DecidableEq, Repr

namespace Level

def trace : Level := ⟨0⟩
def debug : Level := ⟨1⟩
def info : Level := ⟨2⟩
def warn : Level := ⟨3⟩
def error : Level := ⟨4⟩
def silent : Level := ⟨5⟩

def names : List (Level × Text) :=
  [(trace, "TRACE"), (debug, "DEBUG"), (info, "INFO"), (warn, "WARN"), (error, "ERROR"),
    (silent, "SILENT")]

def all : List Level := names.map (·.1)

def name (level : Level) : Text := (names.lookup level).getD "UNKNOWN"

/-- The level with a name whose rank is nearest. -/
def nearest (rank : Int) : Level := ⟨max trace.rank (min rank silent.rank)⟩

theorem nearest_mem_all (rank : Int) : nearest rank ∈ all := by
  simp [nearest, all, names, trace, debug, info, warn, error, silent]
  omega

theorem nearest_rank {level : Level} (h : level ∈ all) : nearest level.rank = level := by
  simp [all, names] at h
  rcases h with rfl | rfl | rfl | rfl | rfl | rfl <;> rfl

/-- The level with a name, in letters of any case. -/
def ofName? (name : Text) : Option Level :=
  let named : List (Text × Level) :=
    [("trace", trace), ("debug", debug), ("info", info), ("warn", warn), ("warning", warn),
      ("error", error), ("silent", silent), ("off", silent)]
  named.lookup name.toLower

def resetColor : Text := "\x1b[0m"

def colors : List (Level × Text) :=
  [(trace, "\x1b[2m"), (debug, "\x1b[36m"), (info, "\x1b[32m"), (warn, "\x1b[33m"),
    (error, "\x1b[31m")]

def color (level : Level) : Text := (colors.lookup level).getD resetColor

end Level

structure Entry where
  level : Level
  source : Text
  message : Text
  deriving DecidableEq, Repr

/-- What is written, and how. -/
structure Settings where
  minLevel : Level := .warn
  useColors : Bool := true
  showLevel : Bool := true
  showSource : Bool := true
  deriving DecidableEq, Repr

namespace Settings

/-- Whether messages of a level are written. None is ever written as silent. -/
def accepts (s : Settings) (level : Level) : Bool :=
  level != .silent && s.minLevel.rank ≤ level.rank

theorem accepts_silent (s : Settings) : s.accepts .silent = false := rfl

theorem accepts_iff {s : Settings} {level : Level} :
    s.accepts level ↔ level ≠ .silent ∧ s.minLevel.rank ≤ level.rank := by
  simp [accepts]

def colored (s : Settings) (color text : Text) : Text :=
  if s.useColors then color ++ text ++ Level.resetColor else text

def boldColor : Text := "\x1b[1m"

/-- The line of a message: its level in five columns, its source, and the message. -/
def line (s : Settings) (e : Entry) : Text :=
  let level := Text.replicate (5 - e.level.name.length) ' ' ++ e.level.name
  let shownLevel := if s.showLevel then s.colored e.level.color ("[" ++ level ++ "]") ++ " " else ""
  let shownSource :=
    if s.showSource && !e.source.isEmpty then
      s.colored boldColor ("[" ++ e.source ++ "]") ++ " "
    else ""
  shownLevel ++ shownSource ++ e.message ++ "\n"

/-- The entries that are written. -/
def accepted (s : Settings) (entries : List Entry) : List Entry :=
  entries.filter fun e => s.accepts e.level

/-- The lines of the entries that are written. -/
def render (s : Settings) (entries : List Entry) : Text := (s.accepted entries).flatMap s.line

@[simp] theorem render_append (s : Settings) (xs ys : List Entry) :
    s.render (xs ++ ys) = s.render xs ++ s.render ys := by
  simp [render, accepted]

end Settings

/-- What can be put into a message. -/
inductive Argument
  | text (t : Text)
  | int (n : Int)
  | bool (b : Bool)
  | number (x : Float)
  deriving DecidableEq

def Argument.toText : Argument → Text
  | text t => t
  | int n => Text.ofInt n
  | bool b => if b then "true" else "false"
  | number x => Rounded.general 6 x

/-- A pattern with its pairs of braces filled from left to right. Arguments without a pair are left
out, and pairs without an argument stay. -/
def format : Text → List Argument → Text
  | pattern, [] => pattern
  | [], _ :: _ => []
  | [c], _ :: _ => [c]
  | c :: d :: rest, argument :: arguments =>
    if c = '\x7b'.toUInt8 ∧ d = '\x7d'.toUInt8 then argument.toText ++ format rest arguments
    else c :: format (d :: rest) (argument :: arguments)

example : format "a \x7b\x7d b \x7b\x7d \x7b\x7d" [.int (-3), .text "\x7b\x7d"] =
    ("a -3 b \x7b\x7d \x7b\x7d" : Text) := by decide +kernel

example : ({ useColors := false } : Settings).line ⟨.warn, "Test", "shown"⟩ =
    ("[ WARN] [Test] shown\n" : Text) := by decide +kernel

end PlainScript.Log
