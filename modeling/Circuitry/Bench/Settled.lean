/-
  Reading a settled run.

  Values by node and by name, the next state of registers, and what was active.
-/
import Circuitry.Bench

namespace Circuitry.Bench.Settled

/-- The value of a node. -/
def value? (s : Settled) (id : NodeId) : Option Nat := s.values[id.index.toNat]?

/-- The value of a ground node in two's complement. -/
def signedValue? (s : Settled) (id : NodeId) : Option Int := do
  let w ← (← (← s.circuit.node? id).ty.width?).get?
  return twosComplement w.toNat (← s.value? id)

/-- The value of the first port of a name. -/
def port? (s : Settled) (name : String) : Option Nat :=
  (s.circuit.port? name).bind fun p => s.value? p.node

/-- The value of the first node of a name. -/
def named? (s : Settled) (name : String) : Option Nat := (s.circuit.named? name).bind s.value?

/-- What the first node of a name holds next, if it is a register. -/
def nextState? (s : Settled) (name : String) : Option Nat :=
  (s.circuit.named? name).bind fun id => s.next.lookup id

/-- Whether the command at a position was reached in active regions only. -/
def isActive (s : Settled) (index : Nat) : Bool := s.active.contains index

/-- Whether a command is a connection. -/
def isConnect : Command → Bool
  | .connect _ _ => true
  | _ => false

/-- Whether a command is a connection to a node. -/
def isConnectTo (target : NodeId) : Command → Bool
  | .connect t _ => t = target
  | _ => false

/-- The positions of the connections that took effect. -/
def activeConnects (s : Settled) : List Nat :=
  s.active.filter fun i => (s.circuit.commands[i]?).any isConnect

/-- How many connections to a node took effect. -/
def activeDrivers (s : Settled) (target : NodeId) : Nat :=
  (s.active.filter fun i => (s.circuit.commands[i]?).any (isConnectTo target)).length

/-- Named registers with what they hold next, in node order. -/
def registerUpdates (s : Settled) : List (String × Nat) :=
  s.circuit.nodes.filterMap fun n =>
    match n.role, n.name with
    | .register, some name => (s.nextState? name).map (name, ·)
    | _, _ => none

end Circuitry.Bench.Settled
