import PlainScript.Config
import PlainScript.Pass.Arithmetic
import PlainScript.Pass.Branch
import PlainScript.Pass.Debugger
import PlainScript.Pass.Decoder
import PlainScript.Pass.Dispatch
import PlainScript.Pass.Escape
import PlainScript.Pipeline

/-! Deobfuscation of a script: it is read, the passes run over its tree, and the tree is printed. A script
that cannot be read or printed comes back as it was, without any confidence. -/
namespace PlainScript

/-- The passes in the order in which they are registered. -/
def Pass.all : List Pass :=
  [debuggers, decoders, escapes, dispatchLoops, constantBranches, arithmetic]

structure Deobfuscation where
  code : Text
  success : Bool := false
  records : List Record := []
  warnings : List Text := []
  confidence : Float := 0.0
  statistics : Statistics := {}
  log : Array Log.Entry := #[]

namespace Deobfuscation

def transformations (d : Deobfuscation) : List Text := d.records.map Record.format

def toJson (d : Deobfuscation) : Json.Value :=
  .object (({} : Table Json.Value).insertAll
    [("code", .string d.code), ("success", .bool d.success),
      ("transformations", .array (d.transformations.map .string)),
      ("warnings", .array (d.warnings.map .string)), ("confidence", .number d.confidence),
      ("statistics", d.statistics.toJson)])

def say (d : Deobfuscation) (level : Log.Level) (message : Text) : Deobfuscation :=
  { d with log := d.log.push ⟨level, "Deobfuscator", message⟩ }

def warn (d : Deobfuscation) (message : Text) : Deobfuscation :=
  { d with warnings := d.warnings ++ [message] }

end Deobfuscation

/-- The pipeline of all passes with the switches of `options`. -/
def pipeline (options : PassOptions) : Pipeline :=
  let switches : List (Text × Bool) :=
    [("string-decryption", options.decryptStrings), ("string-unescape", options.unescapeStrings),
      ("control-flow-restoration", options.restoreControlFlow),
      ("dead-code-elimination", options.removeDeadCode),
      ("expression-simplification", options.simplifyExpressions)]
  let registered := Pass.all.foldl Pipeline.register {}
  (switches.foldl (fun p (name, on) => p.enable name on) registered).makeReady true |>.2

namespace Deobfuscation

/-- The syntax errors that a script was recovered from. -/
def reportRecovered (d : Deobfuscation) (diagnostics : List ParseError) : Deobfuscation :=
  let d := diagnostics.foldl (fun d e =>
    let message : Text := "Recovered from syntax error: " ++ e.message
    (d.say .warn message).warn message) d
  { d with
    statistics := d.statistics.setInt "parser.recovered_errors" diagnostics.length }

/-- Takes over what the passes left behind. -/
def takeOver (d : Deobfuscation) (p : Pipeline) (run : Run) : Deobfuscation :=
  { { d with log := d.log ++ p.log }.say .debug
      (Text.ofNat p.succeeded ++ " pass(es) applied rewrites") with
    records := run.records
    warnings := d.warnings ++ run.warnings
    statistics := d.statistics.merge p.statistics [] }

/-- The end of a run: the printed tree, and how far it can be trusted. -/
def finish (d : Deobfuscation) (printed : Except PrintError Text) : Deobfuscation :=
  match printed with
  | .error e =>
    (d.say .error ("Cannot print the transformed program: " ++ e.message)).warn
      ("Print error: " ++ e.message)
  | .ok code =>
    let confidence := PlainScript.confidence d.records
    { d with
      code
      success := true
      confidence
      statistics := d.statistics.startTimer "deobfuscator.time_ms" }.say .info
        ("Done: " ++ Text.ofNat d.records.length ++ " transformation record(s), confidence "
          ++ Rounded.general 6 confidence)

end Deobfuscation

/-- Deobfuscates a script. -/
def deobfuscate (source : Text) (options : PassOptions) (config : Config) : Deobfuscation :=
  let d : Deobfuscation := { code := source }
  match parse source config.parsing with
  | .error e =>
    (d.say .error ("Parse failed: " ++ e.message)).warn ("Parse error: " ++ e.message)
  | .ok script =>
    let start : Run :=
      { arena := .ofTree script.tree
        printing := config.printing
        placeholder := config.placeholder }
    let (p, run) := (pipeline options).run start
    let d := (d.reportRecovered script.diagnostics).takeOver p run
    d.finish (run.arena.print run.arena.root config.printing)

end PlainScript
