import PlainScript.Directories
import PlainScript.Grammar.Script
import PlainScript.Json.Reader
import PlainScript.Log
import PlainScript.Print.Printer

/-! Settings of a run, as a configuration document gives them. The document may keep the settings in a
section of their own, and the name of a pass may be spelled with underscores or in humps. What a
document leaves out stays as it is. -/
namespace PlainScript

/-- Which passes are switched on. -/
structure PassOptions where
  removeDeadCode : Bool := true
  restoreControlFlow : Bool := true
  decryptStrings : Bool := true
  simplifyExpressions : Bool := true
  unescapeStrings : Bool := false
  deriving DecidableEq, Repr

/-- The switches under their names. -/
def PassOptions.switches (o : PassOptions) : List (Text × Bool) :=
  [("removeDeadCode", o.removeDeadCode), ("restoreControlFlow", o.restoreControlFlow),
    ("decryptStrings", o.decryptStrings), ("simplifyExpressions", o.simplifyExpressions),
    ("unescapeStrings", o.unescapeStrings)]

structure Config where
  passes : PassOptions := {}
  verbosity : Int := 1
  logFile : Text := []
  parsing : ParseOptions := {}
  printing : PrintOptions := {}
  placeholder : Text := "[DECRYPTED_STRING]"
  deriving DecidableEq, Repr

namespace Config

/-- The value that a reading of a field gives, or the old one if there is no such field. -/
def setting {α : Type} (json : Json.Value) (name : Text) (old : α) (reading : Json.Value → α) : α :=
  ((json.field? name).map reading).getD old

/-- A switch under either of its names. -/
def flag (json : Json.Value) (name humped : Text) (old : Bool) : Bool :=
  if json.has name then (json.field name).asBool old
  else if json.has humped then (json.field humped).asBool old
  else old

def passesOfJson (json : Json.Value) (old : PassOptions) : PassOptions where
  removeDeadCode := flag json "remove_dead_code" "removeDeadCode" old.removeDeadCode
  restoreControlFlow := flag json "restore_control_flow" "restoreControlFlow" old.restoreControlFlow
  decryptStrings := flag json "decrypt_strings" "decryptStrings" old.decryptStrings
  simplifyExpressions := flag json "simplify_expressions" "simplifyExpressions" old.simplifyExpressions
  unescapeStrings := flag json "unescape_strings" "unescapeStrings" old.unescapeStrings

def parsingOfJson (json : Json.Value) (old : ParseOptions) : ParseOptions where
  recover := setting json "recover_parse_errors" old.recover (·.asBool true)
  maxRecoveredErrors :=
    setting json "max_recovered_errors" old.maxRecoveredErrors (·.asInt 64)
  maxDepth := setting json "max_parse_depth" old.maxDepth (·.asInt 512)

/-- The settings that a document changes. -/
def ofJson (json : Json.Value) (old : Config) : Config :=
  let settings := (json.field? "deobfuscation").getD json
  { passes := passesOfJson settings old.passes
    verbosity := setting json "verbosity" old.verbosity (·.asInt 1)
    logFile := setting json "log_file" old.logFile (·.asString [])
    parsing := parsingOfJson settings old.parsing
    printing := ⟨setting settings "max_print_depth" old.printing.maxDepth (·.asInt 1024)⟩
    placeholder :=
      setting settings "placeholder" old.placeholder (·.asString "[DECRYPTED_STRING]") }

def ofText (source : Text) (old : Config) : Except Json.ReadError Config :=
  (Json.read source).map (ofJson · old)

/-- Messages that belong to no pass. -/
def note (level : Log.Level) (message : Text) : Log.Entry := ⟨level, "Unravel", message⟩

/-- Why a configuration file gives no settings. -/
inductive FileError
  | cannotOpen (path : Text)
  | malformed (e : Json.ReadError)
  deriving DecidableEq, Repr

def FileError.message : FileError → Text
  | cannotOpen path => Text.upToZero ("Cannot open file: " ++ path)
  | malformed e => e.message

/-- The settings from a file, of which `content` is what it holds if it can be opened. A file that
gives none leaves the old settings and a message. -/
def ofFile (path : Text) (content : Option Text) (old : Config) : Except Log.Entry Config :=
  let read : Except FileError Config :=
    match content with
    | none => .error (.cannotOpen path)
    | some source => (ofText source old).mapError .malformed
  read.mapError fun e =>
    note .error ("Failed to load config '" ++ path ++ "': " ++ e.message)

/-- The level that a verbosity asks for. -/
def levelOfVerbosity (verbosity : Int) : Log.Level :=
  if verbosity ≤ 0 then .silent
  else if verbosity = 1 then .warn
  else if verbosity = 2 then .info
  else if verbosity = 3 then .debug
  else .trace

def level (c : Config) : Log.Level := levelOfVerbosity c.verbosity

def shown (b : Bool) : Text := if b then "true" else "false"

/-- Where messages go once a configuration is in force. -/
inductive Destination
  | unchanged
  | file (path : Text)
  | unopened (path : Text)
  deriving DecidableEq, Repr

/-- The destination of messages, when files are written in these directories. -/
def destination (c : Config) (d : Directories) : Destination :=
  if c.logFile.isEmpty then .unchanged
  else if d.canWrite c.logFile then .file c.logFile
  else .unopened c.logFile

def Destination.isUsable : Destination → Bool
  | unopened _ => false
  | _ => true

/-- The message about a configuration that is put in force. -/
def appliedNote (c : Config) : Destination → Log.Entry
  | .unopened path => note .warn ("Cannot open log file '" ++ path ++ "', logging to stderr")
  | _ =>
    note .debug ("configured: verbosity=" ++ Text.ofInt c.verbosity ++ ", recover="
      ++ shown c.parsing.recover ++ ", placeholder=" ++ c.placeholder)

def version : Text := "1.0.0"

/-- The message that the whole library is set up. -/
def startedNote (c : Config) : Log.Entry :=
  note .debug ("unravel " ++ version ++ " initialized, verbosity=" ++ Text.ofInt c.verbosity)

end Config

end PlainScript
