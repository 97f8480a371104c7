/-
  From a draft to a circuit.

  A description ends in a circuit if nothing was ever reported, and if its regions nest; otherwise it
  ends in a failure with everything reported and not yet drained.
-/
import Circuitry.Draft.Operations
import Circuitry.Region

namespace Circuitry.Draft

/-- The reports of a description that came to nothing. -/
structure Failure where
  diagnostics : List Diagnostic
  deriving DecidableEq, Repr

namespace Failure

def message (f : Failure) : String :=
  "elaboration failed with " ++ toString f.diagnostics.length ++ " error(s)"

/-- Whether any report has a code. -/
def hasCode (f : Failure) (code : Code) : Bool := f.diagnostics.any (·.code = code)

end Failure

/-- A command stream whose regions do not nest. -/
def streamFault (f : Region.Fault) : Fault := .internal ("malformed command stream: " ++ f.message)

/-- The sink with the fault of the command stream, if it has one. -/
def finalSink (d : Draft) : Sink :=
  match Block.ofCommands d.commands with
  | .ok _ => d.sink
  | .error f => d.sink.emit (streamFault f).toDiagnostic

/-- Ends a description that went through. -/
def finish (d : Draft) : Except Failure Circuit :=
  let sink := d.finalSink
  if sink.hasErrors then .error ⟨sink.held⟩ else .ok ⟨d.name, d.nodes, d.ports, d.commands⟩

/-- Ends a description that failed. -/
def abort (d : Draft) (f : Fault) : Failure := ⟨(d.sink.emit f.toDiagnostic).held⟩

/-- Runs a description as the circuit with the given number and name; nothing for one that stops at a
    sum that does not fit. -/
def describe? (context : Nat) (name : String) (settings : Settings.Elaboration)
    (signals : Signals) (description : Checked Unit) : Option (Except Failure Circuit) :=
  match description.run ⟨signals, .empty context name settings⟩ with
  | .ok (some ()) w => some w.draft.finish
  | .ok none _ => none
  | .error f w => some (.error (w.draft.abort f))

end Circuitry.Draft
