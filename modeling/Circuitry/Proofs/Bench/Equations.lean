/-
  The equations of a circuit at work.

  A bench asks of an assignment of values to nodes that

  1. every result of an operator is the operator applied to the values of its operands, and so is
     every field of a selection between aggregates;
  2. every wire and every output is the source of the last connection to it whose guards all hold,
     cut to its width, or zero if there is none;
  3. every register and every input holds what it has been given, or zero.

  `Solves` says all this of an assignment without mentioning passes; which connections count is read
  off the guards of the nesting, with the predicates read in the assignment itself.
-/
import Circuitry.Proofs.Draft.Growth
import Circuitry.Proofs.Nesting.Arms
import Circuitry.Bench.Settled

namespace Circuitry.Bench

/-! ## Operands under an assignment -/

/-- The value of an operand, if it has one. -/
def value? (b : Bench) (values : List Nat) (a : Operand) : Option Value :=
  match b.operand values 0 a with
  | .ok v => some v
  | .error _ => none

/-- The position of the command only matters where an operand has no value. -/
theorem operand_eq_ok {b : Bench} {values : List Nat} {index : Nat} {a : Operand} {v : Value} :
    b.operand values index a = .ok v ↔ b.value? values a = some v := by
  cases a with
  | node id =>
    unfold value?
    have h : b.operand values index (.node id) = b.operand values 0 (.node id) := rfl
    rw [h]
    cases b.operand values 0 (.node id) <;> simp
  | constant c =>
    unfold value?
    have h : b.operand values index (.constant c) = b.operand values 0 (.constant c) := rfl
    rw [h]
    cases b.operand values 0 (.constant c) <;> simp
  | aggregate xs => simp [value?, operand]

/-- An operand only depends on its nodes. -/
theorem value?_congr {b : Bench} {values values' : List Nat} {a : Operand}
    (h : ∀ id ∈ a.nodes, values[id.index.toNat]? = values'[id.index.toNat]?) :
    b.value? values a = b.value? values' a := by
  cases a with
  | node id =>
    have hat : valueAt values id = valueAt values' id := by
      have hid := h id (List.mem_singleton_self _)
      rw [valueAt, valueAt, List.getD_eq_getElem?_getD, hid, ← List.getD_eq_getElem?_getD]
    simp only [value?, operand, hat]
  | constant c => rfl
  | aggregate xs => rfl

theorem mapM_value?_congr {b : Bench} {values values' : List Nat} : ∀ {args : List Operand},
    (∀ id ∈ operandsNodes args, values[id.index.toNat]? = values'[id.index.toNat]?) →
      args.mapM (b.value? values) = args.mapM (b.value? values')
  | [], _ => rfl
  | a :: args, h => by
    have ha : b.value? values a = b.value? values' a :=
      value?_congr fun id hid => h id (List.mem_append_left _ hid)
    have hargs : args.mapM (b.value? values) = args.mapM (b.value? values') :=
      mapM_value?_congr fun id hid => h id (List.mem_append_right _ hid)
    rw [List.mapM_cons, List.mapM_cons, ha, hargs]

/-- Whether a predicate holds. -/
def holds (b : Bench) (values : List Nat) (pred : Operand) : Bool :=
  (b.value? values pred).any Value.isTrue

/-- The value of a node in an assignment. -/
abbrev nodeValue? (values : List Nat) (id : NodeId) : Option Nat := values[id.index.toNat]?

/-! ## Operators -/

/-- A ground result is the operator applied to the values of its operands. -/
def ResultHolds (b : Bench) (values : List Nat) (result : NodeId) (op : Operator)
    (args : List Operand) : Prop :=
  ∃ w vs, b.width result = .ok w ∧ args.mapM (b.value? values) = some vs ∧
    nodeValue? values result = some (op.apply vs w)

/-- A field is the selection between the leaves in its place.  The leaf that is not selected need not
    have a value. -/
def FieldHolds (b : Bench) (values : List Nat) (cond : Value) (leaf : NodeId) (x y : Operand) :
    Prop :=
  ∃ w vx vy, b.width leaf = .ok w ∧ (cond.isTrue = true → b.value? values x = some vx) ∧
    (cond.isTrue = false → b.value? values y = some vy) ∧
    nodeValue? values leaf = some (Operator.apply .mux [cond, vx, vy] w)

/-- Every field of a selection between aggregates is right. -/
def FieldsHold (b : Bench) (values : List Nat) (result : NodeId) (op : Operator)
    (args : List Operand) : Prop :=
  ∃ (cond : Operand) (t f : List Operand) (c : Value), op = .mux ∧ args = [cond, .aggregate t, .aggregate f] ∧
    b.value? values cond = some c ∧
    t.length = (b.circuit.fieldNodes result).length ∧
    f.length = (b.circuit.fieldNodes result).length ∧
    ∀ (k : Nat) leaf x y, (b.circuit.fieldNodes result)[k]? = some leaf → t[k]? = some x →
      f[k]? = some y → b.FieldHolds values c leaf x y

/-- An operator has been computed. -/
def OperatorHolds (b : Bench) (values : List Nat) (result : NodeId) (op : Operator)
    (args : List Operand) : Prop :=
  match b.circuit.node? result with
  | none => False
  | some ⟨.aggregate _, _, _, _, _⟩ => b.FieldsHold values result op args
  | some _ => b.ResultHolds values result op args

/-- All operators have been computed. -/
def OperatorsHold (b : Bench) (values : List Nat) : Prop :=
  ∀ (i : Nat) result op args, b.circuit.commands[i]? = some (.defPrim result op args) →
    b.OperatorHolds values result op args

section Cases

variable {b : Bench} {values : List Nat} {result : NodeId} {op : Operator} {args : List Operand}
  {n : Node}

theorem operatorHolds_ground (hn : b.circuit.node? result = some n) (hground : n.IsGround) :
    b.OperatorHolds values result op args ↔ b.ResultHolds values result op args := by
  obtain ⟨ty, role, name, origin, loc⟩ := n
  obtain ⟨kind, width, rfl⟩ := hground
  simp [OperatorHolds, hn]

theorem operatorHolds_fields (hn : b.circuit.node? result = some n) (hfields : ¬ n.IsGround) :
    b.OperatorHolds values result op args ↔ b.FieldsHold values result op args := by
  obtain ⟨ty, role, name, origin, loc⟩ := n
  cases ty with
  | element kind width => exact absurd ⟨kind, width, rfl⟩ hfields
  | aggregate fs => simp [OperatorHolds, hn]

end Cases

/-! ## Connections -/

/-- The source of the connection at a position, if it is one to `target`. -/
def sourceTo? (b : Bench) (target : NodeId) (i : Nat) : Option Operand :=
  match b.circuit.commands[i]? with
  | some (.connect t source) => if t = target then some source else none
  | _ => none

theorem sourceTo?_eq_some {b : Bench} {target : NodeId} {i : Nat} {source : Operand} :
    b.sourceTo? target i = some source ↔
      b.circuit.commands[i]? = some (.connect target source) := by
  unfold sourceTo?
  cases b.circuit.commands[i]? with
  | none => simp
  | some cmd =>
    cases cmd with
    | connect t s => by_cases ht : t = target <;> simp [ht]
    | _ => simp

/-- The sources of the connections to `target` whose guards all hold, in stream order. -/
def sourcesTo (b : Bench) (values : List Nat) (target : NodeId) : List Operand :=
  (b.block.guarded.filter fun e => Block.allMet (b.holds values) e.2).filterMap
    fun e => b.sourceTo? target e.1

/-- The value of a source, cut to the width of the target. -/
def drive? (b : Bench) (values : List Nat) (target : NodeId) (source : Operand) : Option Nat :=
  match b.width target, b.value? values source with
  | .ok w, some v => some (cut w v.reading)
  | _, _ => none

theorem drive?_congr {b : Bench} {values values' : List Nat} {target : NodeId} {source : Operand}
    (h : ∀ id ∈ source.nodes, nodeValue? values id = nodeValue? values' id) :
    b.drive? values target source = b.drive? values' target source := by
  rw [drive?, drive?, value?_congr h]

/-- What the last active connection drives, or `rest` if none is active. -/
def driven? (b : Bench) (values : List Nat) (target : NodeId) (rest : Nat) : Option Nat :=
  match (b.sourcesTo values target).getLast? with
  | none => some rest
  | some source => b.drive? values target source

/-! ## Solutions -/

/-- What a register holds. -/
def stateOf (b : Bench) (id : NodeId) : Nat := (b.state.lookup id).getD 0

/-- What an input has been given. -/
def inputOf (b : Bench) (id : NodeId) : Nat := (b.inputs.lookup id).getD 0

/-- The assignment satisfies the equations of the circuit. -/
structure Solves (b : Bench) (values : List Nat) : Prop where
  length : values.length = b.circuit.nodes.length
  operators : b.OperatorsHold values
  driven : ∀ id n, b.circuit.node? id = some n → isDriven n.role = true →
    nodeValue? values id = b.driven? values id 0
  registers : ∀ id n, b.circuit.node? id = some n → n.role = .register →
    nodeValue? values id = some (b.stateOf id)
  inputs : ∀ id n, b.circuit.node? id = some n → n.role = .port .input →
    nodeValue? values id = some (b.inputOf id)

end Circuitry.Bench
