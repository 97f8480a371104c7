/-
  The command stream.

  An elaborated circuit is a flat list of commands, one for each step of its description.  Conditional
  regions are marked by four control commands with a depth.  A chain

      when c₁ then A, else when c₂ then B, otherwise C

  is the stream

      WhenBegin(c₁, 0) A WhenEnd(0)
      AltBegin(1) ⟨operations of c₂⟩ WhenBegin(c₂, 1) B WhenEnd(1)
      AltBegin(2) C OtherwiseEnd(2)

  `AltBegin(k)` opens the else-region of the clause that the command before it closed, and
  `OtherwiseEnd(n)` closes the `n` else-regions of its chain at once.

  Each command has one line of text; the text of an operand is also how predicates are named.
-/
import Circuitry.Bits
import Circuitry.Ty
import Circuitry.Operator

namespace Circuitry

/-- A reference into the node table. -/
structure NodeId where
  index : UInt32
  deriving DecidableEq, Inhabited, Repr

def NodeId.text (id : NodeId) : String := "n" ++ toString id.index

/-- The direction of a port. -/
inductive Direction where
  | input
  | output
  deriving DecidableEq, Inhabited, Repr

def Direction.text : Direction → String
  | .input => "input"
  | .output => "output"

/-- A constant operand: the declared width may be open, the payload always has one of its own. -/
structure Constant where
  kind : Kind
  width : Width
  value : Bits
  deriving DecidableEq, Inhabited, Repr

def Constant.text (c : Constant) : String :=
  match c.kind with
  | .bool => "Bool(" ++ (if c.value.isZero then "false" else "true") ++ ")"
  | _ => groundText c.kind c.width ++ "(0b" ++ c.value.text ++ ")"

/-- An operand of a command. -/
inductive Operand where
  | node (id : NodeId)
  | constant (c : Constant)
  /-- The leaves of an aggregate, depth first. -/
  | aggregate (leaves : List Operand)
  deriving Inhabited, Repr

namespace Operand

mutual
/-- Equality of operands, decided by structure. -/
def decEq : (a b : Operand) → Decidable (a = b)
  | .node i, .node j =>
    if h : i = j then isTrue (by rw [h]) else isFalse fun e => h (by injection e)
  | .constant c, .constant d =>
    if h : c = d then isTrue (by rw [h]) else isFalse fun e => h (by injection e)
  | .aggregate xs, .aggregate ys =>
    match decEqs xs ys with
    | isTrue h => isTrue (by rw [h])
    | isFalse h => isFalse fun e => h (by injection e)
  | .node _, .constant _ => isFalse nofun
  | .node _, .aggregate _ => isFalse nofun
  | .constant _, .node _ => isFalse nofun
  | .constant _, .aggregate _ => isFalse nofun
  | .aggregate _, .node _ => isFalse nofun
  | .aggregate _, .constant _ => isFalse nofun

/-- Equality of operand lists. -/
def decEqs : (a b : List Operand) → Decidable (a = b)
  | [], [] => isTrue rfl
  | x :: xs, y :: ys =>
    match decEq x y, decEqs xs ys with
    | isTrue h₁, isTrue h₂ => isTrue (by rw [h₁, h₂])
    | isFalse h, _ => isFalse fun e => h (by injection e)
    | _, isFalse h => isFalse fun e => h (by injection e)
  | [], _ :: _ => isFalse nofun
  | _ :: _, [] => isFalse nofun
end

instance : DecidableEq Operand := decEq

mutual
/-- The operand in a listing. -/
def text : Operand → String
  | .node id => id.text
  | .constant c => c.text
  | .aggregate xs => "[" ++ texts xs ++ "]"

/-- Operands separated by commas. -/
def texts : List Operand → String
  | [] => ""
  | [x] => x.text
  | x :: xs => x.text ++ ", " ++ texts xs
end

end Operand

/-- One step of a circuit. -/
inductive Command where
  | defPort (node : NodeId) (direction : Direction) (name : String)
  | defWire (node : NodeId)
  | defReg (node : NodeId)
  /-- `result` becomes the value of `op` on `args`. -/
  | defPrim (result : NodeId) (op : Operator) (args : List Operand)
  /-- `target` is driven by `source` while the enclosing regions are active. -/
  | connect (target : NodeId) (source : Operand)
  /-- Opens the region guarded by `pred`; `depth` clauses of its chain came before. -/
  | whenBegin (pred : Operand) (depth : UInt32)
  /-- Closes the region of the clause at `depth`. -/
  | whenEnd (depth : UInt32)
  /-- Opens the else-region of the clause at `depth - 1`. -/
  | altBegin (depth : UInt32)
  /-- Closes `depth` else-regions. -/
  | otherwiseEnd (depth : UInt32)
  deriving DecidableEq, Inhabited, Repr

namespace Command

/-- Whether the command only marks a region. -/
def isControl : Command → Bool
  | .whenBegin _ _ | .whenEnd _ | .altBegin _ | .otherwiseEnd _ => true
  | _ => false

/-- The node that the command brings into being. -/
def defines? : Command → Option NodeId
  | .defPort node _ _ | .defWire node | .defReg node | .defPrim node _ _ => some node
  | _ => none

/-- The operands of an operator followed by its constant parameters. -/
def argumentsText (op : Operator) (args : List Operand) : String :=
  let params := op.params.map toString
  String.intercalate ", " (args.map Operand.text ++ params)

def text : Command → String
  | .defPort node direction name => direction.text ++ " " ++ node.text ++ " " ++ name
  | .defWire node => "wire " ++ node.text
  | .defReg node => "reg " ++ node.text
  | .defPrim result op args =>
    result.text ++ " = " ++ op.mnemonic ++ "(" ++ argumentsText op args ++ ")"
  | .connect target source => target.text ++ " <= " ++ source.text
  | .whenBegin pred depth => "when " ++ pred.text ++ " [" ++ toString depth ++ "]"
  | .whenEnd depth => "end [" ++ toString depth ++ "]"
  | .altBegin depth => "else [" ++ toString depth ++ "]"
  | .otherwiseEnd depth => "end-else [" ++ toString depth ++ "]"

example : (defPrim ⟨3⟩ (.bits 1 0) [.node ⟨2⟩]).text = "n3 = bits(n2, 1, 0)" := by decide +kernel

end Command

end Circuitry
