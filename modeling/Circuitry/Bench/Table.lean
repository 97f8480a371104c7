/-
  Truth tables.

  A row of a table is the run of a circuit for one valuation of some of its inputs.
-/
import Circuitry.Bench.Settled

namespace Circuitry.Bench

/-- Every pattern of so many bits, counting up. -/
def valuations (bits : Nat) : List Nat := List.range (2 ^ bits)

/-- Takes a pattern apart into the values of inputs with the given widths: the first input has the
    lowest bits. -/
def fields (pattern : Nat) : List (String × Nat) → List (String × Nat)
  | [] => []
  | (name, width) :: rest => (name, pattern % 2 ^ width) :: fields (pattern / 2 ^ width) rest

/-- Gives values to inputs, one after the other. -/
def setInputs (b : Bench) : List (String × Nat) → Except Fault Bench
  | [] => .ok b
  | (name, n) :: rest => do (← b.setInput name n).setInputs rest

/-- Runs a circuit for the given inputs. -/
def runWith (c : Circuit) (inputs : List (String × Nat)) : Except Fault Settled := do
  (← (← Bench.of c).setInputs inputs).run

/-- The values of outputs, each looked up among all ports. -/
def Settled.outputs (s : Settled) : List String → Except Fault (List Nat)
  | [] => .ok []
  | name :: rest =>
    match s.port? name with
    | none => .error (.unknownName .outputPort name)
    | some n => (s.outputs rest).map (n :: ·)

end Circuitry.Bench
