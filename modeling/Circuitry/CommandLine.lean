/-
  The command line.

  A run takes arguments and ends in a report: an exit code and what was said on the two outputs.

  * `demo` describes a built-in circuit, and prints it or stores it as an artifact;
  * `inspect` prints the circuit of an artifact;
  * `regions` prints the blocks of an artifact's command stream.

  Settings are loaded before anything else is done.  A run that fails says why and ends with code 1,
  one whose arguments are amiss with code 2.
-/
import Circuitry.Artifact
import Circuitry.Circuit.Listing
import Circuitry.CommandLine.Arguments
import Circuitry.Diagnostic.Text
import Circuitry.Json.CircuitForm
import Circuitry.Json.DiagnosticForm
import Circuitry.Region.Text

namespace Circuitry.CommandLine

/-! ## Reports -/

/-- How a run ended. -/
structure Report where
  code : UInt8
  stdout : String
  stderr : String
  deriving DecidableEq, Repr

namespace Report

/-- A run that went well. -/
def done (stdout stderr : String) : Report := ⟨0, stdout, stderr⟩

end Report

/-- Why a run fails. -/
inductive Fault where
  | settings (cause : Settings.Fault)
  | storage (path : String) (cause : Files.Fault)
  | artifact (cause : Artifact.Fault)
  | regions (cause : Region.Fault)
  deriving DecidableEq

def Fault.message : Fault → String
  | .settings cause => cause.message
  | .storage path cause => "artifact I/O error at " ++ path ++ ": " ++ cause.message
  | .artifact cause => cause.message
  | .regions cause => cause.message

def Fault.report (f : Fault) : Report := ⟨1, "", "error: " ++ f.message ++ "\n"⟩

/-! ## Circuits and failures in print -/

/-- A circuit in a format. -/
def circuitText (c : Circuit) : Settings.Format → String
  | .text => c.listing
  | .json => c.toJson.pretty ++ "\n"

/-- The reports of a failed description in a format. -/
def failureText (f : Draft.Failure) (color : Bool) : Settings.Format → String
  | .text =>
    String.join (f.diagnostics.map fun d => d.text color ++ "\n") ++
      "error: " ++ f.message ++ "\n"
  | .json => (Json.list Diagnostic.toJson f.diagnostics).pretty ++ "\n"

/-! ## Commands -/

section

variable {m : Type → Type} [Monad m] (files : Files m)

/-- Stores a circuit at a path. -/
def store (c : Circuit) (path : String) : m (Except Fault Report) := do
  match ← files.write path (Artifact.encode c) with
  | .error cause => return .error (.storage path cause)
  | .ok () =>
    return .ok <| .done "" <|
      "   Wrote " ++ path ++ " (" ++ toString c.commands.length ++ " commands, fingerprint " ++
        c.fingerprint.text ++ ")\n"

def demo (d : Demo) (output : Option String) (format : Settings.Format) (color : Bool)
    (settings : Settings) : m (Except Fault Report) :=
  match d.circuit settings.elaboration, output with
  | .error failure, _ => return .ok ⟨1, "", failureText failure color format⟩
  | .ok c, none => return .ok (.done (circuitText c format) "")
  | .ok c, some path => store files c path

/-- Reads the circuit stored at a path. -/
def fetch (path : String) : m (Except Fault Circuit) := do
  match ← files.read path with
  | .error cause => return .error (.storage path cause)
  | .ok bytes => return (Artifact.decode bytes).mapError .artifact

/-- The line that introduces a circuit. -/
def overview (c : Circuit) : String :=
  "   " ++ c.name ++ ": " ++ toString c.nodes.length ++ " nodes, " ++
    toString c.commands.length ++ " commands, " ++ toString c.inputs.length ++ " inputs, " ++
    toString c.outputs.length ++ " outputs, fingerprint " ++ c.fingerprint.text ++ "\n"

def inspect (c : Circuit) (format : Settings.Format) : Report :=
  .done (circuitText c format) (overview c)

def regions (c : Circuit) : Except Fault Report :=
  match Block.ofCommands c.commands with
  | .error cause => .error (.regions cause)
  | .ok block => .ok (.done (block.text c.commands) "")

/-! ## Runs -/

/-- Whether reports are colored. -/
def ColorChoice.applies (choice : ColorChoice) (terminal : Bool) (settings : Settings) : Bool :=
  match choice with
  | .auto => terminal && settings.output.color
  | .always => true
  | .never => false

/-- Carries out an action under loaded settings. -/
def perform (settings : Settings) (color : Bool) : Action → m (Except Fault Report)
  | .demo d output format => demo files d output (format.getD settings.output.format) color settings
  | .inspect path format => do
    return (← fetch files path).map (inspect · (format.getD settings.output.format))
  | .regions path => do return (← fetch files path).bind regions

/-- Carries out an invocation. -/
def carryOut (terminal : Bool) (i : Invocation) : m (Except Fault Report) := do
  match ← Settings.load files i.config with
  | .error cause => return .error (.settings cause)
  | .ok settings => perform files settings (i.color.applies terminal settings) i.action

/-- How the program is to be used. -/
def usage : String :=
  "Usage: loom [OPTIONS] <COMMAND>\n\nCommands:\n" ++
  "  demo <counter|priority|alu> [-o PATH] [-f text|json]\n" ++
  "  inspect <ARTIFACT> [-f text|json]\n  regions <ARTIFACT>\n\n" ++
  "Options:\n  -v, --verbose\n  --color <auto|always|never>\n  --config <PATH>\n" ++
  "  -h, --help\n  -V, --version\n"

/-- The report of a run that has no invocation. -/
def Stop.report : Stop → Report
  | .misuse => ⟨2, "", "error: invalid arguments\n\n" ++ usage⟩
  | .help => .done usage ""
  | .version => .done ("loom " ++ Artifact.producer ++ "\n") ""

/-- A whole run: `terminal` says whether the error output is one. -/
def run (terminal : Bool) (args : List String) : m Report := do
  match read args with
  | .error stop => return stop.report
  | .ok i =>
    match ← carryOut files terminal i with
    | .ok report => return report
    | .error fault => return fault.report

end

end Circuitry.CommandLine
