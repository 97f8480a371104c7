/-
  Circuits at work.

  A bench is a circuit whose input ports and registers have been given values.  There is no time:
  `run` finds the values of all nodes for these inputs and this state, together with what every
  register would hold next.

  1. `of` checks that the circuit can be run: its regions nest, and every ground node has a known
     width of at most 128 bits;
  2. `operand` reads an operand from the present values;
  3. a pass (`exec`) takes the commands in order.  An operator writes its result whether or not its
     region is active, since a node holds one value; a connection counts only in an active region,
     and the last one to a target wins;
  4. after a pass each wire and output takes its driver, or zero, and passes repeat until nothing
     changes (`settle`).  A circuit without loops settles early; the number of passes is limited by
     the number of nodes.
-/
import Circuitry.Circuit
import Circuitry.Operator.Meaning
import Circuitry.Region

namespace Circuitry

namespace Bench

/-- What a name was looked for among. -/
inductive Sought where
  | inputPort
  | outputPort
  | register
  deriving DecidableEq, Repr

def Sought.text : Sought → String
  | .inputPort => "input port"
  | .outputPort => "output port"
  | .register => "register"

/-- Why a circuit cannot be run. -/
inductive Fault where
  | unknownWidth (node : NodeId)
  /-- A node or constant is wider than 128 bits. -/
  | tooWide (width : UInt32)
  | unknownName (sought : Sought) (name : String)
  /-- A command or port names a node that is missing, or an aggregate where a ground value is
      needed. -/
  | danglingNode (node : NodeId)
  /-- The operands of a command do not suit its operator. -/
  | malformedOperands (index : Nat) (op : Operator)
  /-- The values still change after the given number of passes. -/
  | noConvergence (passes : Nat)
  | region (fault : Region.Fault)
  deriving DecidableEq, Repr

def Fault.message : Fault → String
  | .unknownWidth node => "node " ++ node.text ++ " has unknown width"
  | .tooWide width =>
    "value of " ++ toString width ++ " bits exceeds the 128-bit evaluator limit"
  | .unknownName sought name => "no " ++ sought.text ++ " named '" ++ name ++ "'"
  | .danglingNode node => "reference to undeclared node " ++ node.text
  | .malformedOperands index op =>
    "command " ++ toString index ++ ": malformed operands for " ++ op.mnemonic
  | .noConvergence passes => "values did not settle after " ++ toString passes ++ " passes"
  | .region fault => fault.message

end Bench

/-- A circuit with its regions and the values given to inputs and registers, latest first. -/
structure Bench where
  circuit : Circuit
  block : Block
  inputs : List (NodeId × Nat)
  state : List (NodeId × Nat)

namespace Bench

/-! ## Setting up -/

/-- The width of a ground node must be known and at most 128. -/
def checkNode (id : NodeId) (n : Node) : Except Fault Unit :=
  match n.ty with
  | .aggregate _ => .ok ()
  | .element _ .unknown => .error (.unknownWidth id)
  | .element _ (.known w) => if w.toNat ≤ Value.maxWidth then .ok () else .error (.tooWide w)

/-- A bench for a circuit, with nothing set: every input and register is zero. -/
def of (c : Circuit) : Except Fault Bench :=
  match Block.ofCommands c.commands with
  | .error f => .error (.region f)
  | .ok block => do
    c.numbered.forM fun (id, n) => checkNode id n
    return ⟨c, block, [], []⟩

/-- The width of a ground node. -/
def width (b : Bench) (id : NodeId) : Except Fault Nat :=
  match (b.circuit.node? id).bind (·.ty.width?) with
  | some (.known w) => .ok w.toNat
  | _ => .error (.danglingNode id)

/-- Gives a value to an input port, cut to the width of the port. -/
def setInput (b : Bench) (name : String) (n : Nat) : Except Fault Bench :=
  match b.circuit.inputs.find? (·.name = name) with
  | none => .error (.unknownName .inputPort name)
  | some port => do
    let w ← b.width port.node
    return { b with inputs := (port.node, cut w n) :: b.inputs }

/-- The first register of a name. -/
def register? (c : Circuit) (name : String) : Option NodeId :=
  (c.numbered.find? fun (_, n) => n.role = .register ∧ n.name = some name).map (·.1)

/-- Gives a value to a register, cut to its width. -/
def setRegister (b : Bench) (name : String) (n : Nat) : Except Fault Bench :=
  match register? b.circuit name with
  | none => .error (.unknownName .register name)
  | some id => do
    let w ← b.width id
    return { b with state := (id, cut w n) :: b.state }

/-! ## Operands -/

/-- The value of a node in a table, zero where the table has none. -/
def valueAt (values : List Nat) (id : NodeId) : Nat := values.getD id.index.toNat 0

/-- The value of a constant: its own bits, cut to the declared width if there is one. -/
def constant (c : Constant) : Except Fault Value :=
  let w := c.width.get?.getD c.value.width
  if Value.maxWidth < w.toNat then .error (.tooWide w)
  else
    match c.value.toUnsigned? with
    | none => .error (.tooWide c.value.width)
    | some n => .ok ⟨cut w.toNat n, w.toNat, c.kind.isSigned⟩

/-- The value of an operand of the command at `index`. -/
def operand (b : Bench) (values : List Nat) (index : Nat) : Operand → Except Fault Value
  | .node id =>
    match b.circuit.node? id with
    | none => .error (.danglingNode id)
    | some n => do return ⟨valueAt values id, ← b.width id, n.ty.kind? = some .sint⟩
  | .constant c => constant c
  | .aggregate _ => .error (.malformedOperands index .mux)

/-! ## One pass -/

/-- What a pass has found so far. -/
structure Pass where
  /-- The value of each node. -/
  values : List Nat
  /-- The connections that took effect, latest first. -/
  drivers : List (NodeId × Nat)
  /-- The positions reached in active regions, latest first. -/
  active : List Nat

/-- Notes whether a position was reached in an active region. -/
def Pass.mark (p : Pass) (index : Nat) (active : Bool) : Pass :=
  if active then { p with active := index :: p.active } else p

/-- Writes the value of a node. -/
def Pass.write (p : Pass) (id : NodeId) (n : Nat) : Pass :=
  { p with values := p.values.set id.index.toNat n }

/-- Selects between two aggregates: the leaves of the result are written one after the other. -/
def selectLeaves (b : Bench) (index : Nat) : List (NodeId × Operand) → Pass → Except Fault Pass
  | [], p => .ok p
  | (leaf, source) :: rest, p => do
    let v ← b.operand p.values index source
    let w ← b.width leaf
    selectLeaves b index rest (p.write leaf (cut w v.reading))

/-- An operator whose result is an aggregate: only a selection can be. -/
def execAggregate (b : Bench) (index : Nat) (result : NodeId) (op : Operator)
    (args : List Operand) (p : Pass) : Except Fault Pass :=
  let malformed := Fault.malformedOperands index op
  match op, args with
  | .mux, [cond, .aggregate t, .aggregate f] => do
    let leaves := b.circuit.fieldNodes result
    if leaves.isEmpty then throw malformed
    if t.length ≠ leaves.length ∨ f.length ≠ leaves.length then throw malformed
    let holds := (← b.operand p.values index cond).isTrue
    b.selectLeaves index (leaves.zip (if holds then t else f)) p
  | _, _ => .error malformed

/-- The command at `index`, in a region that is active or not. -/
def execCommand (b : Bench) (index : Nat) (active : Bool) (cmd : Command) (p : Pass) :
    Except Fault Pass :=
  match cmd with
  | .defPrim result op args =>
    if args.length ≠ op.arity then .error (.malformedOperands index op)
    else
      match b.circuit.node? result with
      | none => .error (.danglingNode result)
      | some ⟨.aggregate _, _, _, _, _⟩ => b.execAggregate index result op args p
      | some _ => do
        let operands ← args.mapM (b.operand p.values index)
        let w ← b.width result
        return p.write result (op.apply operands w)
  | .connect target source =>
    if active then do
      let w ← b.width target
      let v ← b.operand p.values index source
      return { p with drivers := (target, cut w v.reading) :: p.drivers }
    else .ok p
  | _ => .ok p

/-- The commands of a block in order. -/
def exec (b : Bench) (active : Bool) : Block → Pass → Except Fault Pass
  | .empty, p => .ok p
  | .command i rest, p => do
    let p := p.mark i active
    let p ← match b.circuit.commands[i]? with
      | none => pure p
      | some cmd => b.execCommand i active cmd p
    b.exec active rest p
  | .clause pred i body rest, p => do
    let p := p.mark i active
    let holds := (← b.operand p.values i pred).isTrue
    let p ← b.exec (active && holds) body p
    b.exec active rest p
  | .clauseElse pred i body alternative rest, p => do
    let p := p.mark i active
    let holds := (← b.operand p.values i pred).isTrue
    let p ← b.exec (active && holds) body p
    let p ← b.exec (active && !holds) alternative p
    b.exec active rest p

/-! ## Passes until nothing changes -/

/-- Whether a node takes the value of its driver at once. -/
def isDriven (role : Role) : Bool :=
  match role with
  | .wire | .port .output => true
  | _ => false

/-- Wires and outputs take their drivers, or zero. -/
def drive (b : Bench) (p : Pass) : List Nat :=
  (b.circuit.numbered.zip p.values).map fun ((id, n), v) =>
    if isDriven n.role then (p.drivers.lookup id).getD 0 else v

/-- What each register holds next: its driver, or what it holds now. -/
def nextState (b : Bench) (p : Pass) : List (NodeId × Nat) :=
  b.circuit.numbered.filterMap fun (id, n) =>
    if n.role = .register then
      some (id, (p.drivers.lookup id).getD ((b.state.lookup id).getD 0))
    else none

/-- The values before the first pass: what was given to inputs and registers, else zero. -/
def initial (b : Bench) : List Nat :=
  b.circuit.numbered.map fun (id, _) =>
    ((b.state.lookup id).orElse fun _ => b.inputs.lookup id).getD 0

/-- A run that has come to rest. -/
structure Settled where
  circuit : Circuit
  /-- The value of each node. -/
  values : List Nat
  /-- What each register holds next. -/
  next : List (NodeId × Nat)
  /-- The positions reached in active regions, in order. -/
  active : List Nat
  /-- How many passes it took. -/
  passes : Nat
  deriving DecidableEq

/-- The number of passes after which a run is given up. -/
def passLimit (b : Bench) : Nat := b.circuit.nodes.length + 2

/-- At most `left` more passes from the given values. -/
def settle (b : Bench) : (left : Nat) → (values : List Nat) → Except Fault Settled
  | 0, _ => .error (.noConvergence b.passLimit)
  | left + 1, values => do
    let p ← b.exec true b.block ⟨values, [], []⟩
    let after := b.drive p
    if after = values then
      return ⟨b.circuit, after, b.nextState p, p.active.reverse, b.passLimit - left⟩
    else b.settle left after

/-- Runs the circuit until its values settle. -/
def run (b : Bench) : Except Fault Settled := b.settle b.passLimit b.initial

end Bench

end Circuitry
