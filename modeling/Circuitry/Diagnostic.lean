/-
  Diagnostics.

  A diagnostic reports one problem of a description: a numbered code, a message, the place of the
  offending call, and optional labels on further places, notes and suggestions.

  `Sink` collects diagnostics in the order in which they are reported.  Draining it hands out what it
  holds but never lowers the number of errors it has seen.
-/
import Circuitry.Circuit

namespace Circuitry

/-- The number of a kind of problem. -/
structure Code where
  number : UInt16
  deriving DecidableEq, Inhabited, Repr

/-- A letter and at least three digits. -/
def Code.text (c : Code) : String :=
  let digits := Nat.toDigits 10 c.number.toNat
  "E" ++ String.ofList (List.replicate (3 - digits.length) '0' ++ digits)

/-- What a label stands for. -/
inductive LabelStyle where
  /-- The offending place itself. -/
  | primary
  /-- A place that helps to understand it. -/
  | secondary
  deriving DecidableEq, Inhabited, Repr

/-- A remark on a place. -/
structure Label where
  loc : Location
  message : String
  style : LabelStyle
  deriving DecidableEq, Inhabited, Repr

/-- A reported problem. -/
structure Diagnostic where
  code : Code
  message : String
  loc : Location
  labels : List Label
  notes : List String
  help : List String
  deriving DecidableEq, Inhabited, Repr

namespace Diagnostic

/-- A problem without further remarks. -/
def error (code : Code) (message : String) (loc : Location) : Diagnostic :=
  ⟨code, message, loc, [], [], []⟩

/-- The code and the message in one line. -/
def summary (d : Diagnostic) : String := d.code.text ++ " " ++ d.message

end Diagnostic

/-- Diagnostics reported so far. -/
structure Sink where
  /-- Those not yet drained, oldest first. -/
  held : List Diagnostic
  /-- How many were ever reported. -/
  errorCount : Nat
  deriving DecidableEq, Inhabited, Repr

namespace Sink

def empty : Sink := ⟨[], 0⟩

def emit (s : Sink) (d : Diagnostic) : Sink := ⟨s.held ++ [d], s.errorCount + 1⟩

def hasErrors (s : Sink) : Bool := 0 < s.errorCount

/-- Whether a diagnostic still held carries a code. -/
def hasCode (s : Sink) (code : Code) : Bool := s.held.any (·.code = code)

/-- Hands out everything held. -/
def drain (s : Sink) : List Diagnostic × Sink := (s.held, ⟨[], s.errorCount⟩)

@[simp] theorem errorCount_emit (s : Sink) (d : Diagnostic) :
    (s.emit d).errorCount = s.errorCount + 1 := rfl

@[simp] theorem held_emit (s : Sink) (d : Diagnostic) : (s.emit d).held = s.held ++ [d] := rfl

@[simp] theorem errorCount_drain (s : Sink) : s.drain.2.errorCount = s.errorCount := rfl

end Sink

example : Code.text ⟨302⟩ = "E302" ∧ Code.text ⟨7⟩ = "E007" := by decide +kernel

end Circuitry
