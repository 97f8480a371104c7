/-
  The program.

  Runs a command line on real files, prints its report and ends with its exit code.
-/
import Circuitry.CommandLine

namespace Circuitry

/-- The fault with a number of the operating system, which may come negated in 32 bits. -/
def Files.faultOfNumber (number : UInt32) (details : String) : Files.Fault :=
  match (if number < 0x80000000 then number else 0 - number).toNat with
  | 2 => .absent
  | 20 => .behindFile
  | 21 => .folder
  | 36 => .tooLong
  | n => .other n details.capitalize

/-- The fault of a failed operation on a file. -/
def Files.faultOf : IO.Error → Files.Fault
  | .noFileOrDirectory _ number details | .inappropriateType _ number details
  | .permissionDenied _ number details | .invalidArgument _ number details
  | .resourceExhausted _ number details | .resourceBusy number details
  | .unsupportedOperation number details | .otherError number details =>
    faultOfNumber number details
  | e => .other 5 (toString e)

/-- An operation on a file, with its fault as a value. -/
def Files.attempt (act : IO α) : IO (Except Files.Fault α) := do
  match ← act.toBaseIO with
  | .ok a => return .ok a
  | .error e => return .error (Files.faultOf e)

/-- The files of the computer. -/
def Files.real : Files IO where
  read path := Files.attempt do return (← IO.FS.readBinFile path).toList
  write path bytes := Files.attempt (IO.FS.writeBinFile path bytes.toByteArray)

end Circuitry

/-- Runs the arguments of the process. -/
def main (args : List String) : IO UInt32 := do
  let terminal ← (← IO.getStderr).isTty
  let report ← Circuitry.CommandLine.run Circuitry.Files.real terminal args
  IO.eprint report.stderr
  IO.print report.stdout
  return report.code.toUInt32
