/-
  Regions read back from the command stream.

  The stream marks conditional regions with opening and closing commands.  This file reads the nesting
  back: a chain of clauses becomes a clause whose else-part holds the operations of the next condition
  and then the next clause, and so on.

  1. `Block` is the result: commands by their position in the stream, and clauses with or without an
     else-part, in order;
  2. `Reader` is the state of the scan: the block being read, the regions it is nested in, and the
     clause that the command just before has closed;
  3. `Reader.step` takes one command, and `Block.ofCommands` a whole stream.

  A clause stays apart from its block for one step, since only the very next command may give it an
  else-part.  The depths are checked on the way, and the first command that does not fit is reported.
-/
import Circuitry.Command

namespace Circuitry

/-- Nested commands: what runs in order at one level. -/
inductive Block where
  | empty
  /-- The command at a position of the stream. -/
  | command (index : Nat) (rest : Block)
  /-- A clause that begins at a position, without an else-part. -/
  | clause (pred : Operand) (begun : Nat) (body : Block) (rest : Block)
  /-- A clause with an else-part. -/
  | clauseElse (pred : Operand) (begun : Nat) (body alternative : Block) (rest : Block)
  deriving DecidableEq, Inhabited, Repr

namespace Block

/-- One block after the other. -/
def append : Block → Block → Block
  | .empty, b => b
  | .command i rest, b => .command i (rest.append b)
  | .clause p i body rest, b => .clause p i body (rest.append b)
  | .clauseElse p i body alternative rest, b => .clauseElse p i body alternative (rest.append b)

instance : Append Block := ⟨append⟩

@[simp] theorem empty_append (b : Block) : (.empty : Block) ++ b = b := rfl

@[simp] theorem command_append (i : Nat) (a b : Block) :
    Block.command i a ++ b = .command i (a ++ b) := rfl

@[simp] theorem clause_append (p : Operand) (i : Nat) (body a b : Block) :
    Block.clause p i body a ++ b = .clause p i body (a ++ b) := rfl

@[simp] theorem clauseElse_append (p : Operand) (i : Nat) (body alternative a b : Block) :
    Block.clauseElse p i body alternative a ++ b = .clauseElse p i body alternative (a ++ b) := rfl

@[simp] theorem append_empty (a : Block) : a ++ .empty = a := by
  induction a <;> simp_all

theorem append_assoc (a b c : Block) : a ++ b ++ c = a ++ (b ++ c) := by
  induction a <;> simp_all

end Block

namespace Region

/-- Why a stream is not a nesting of regions. -/
inductive Fault where
  /-- A closing command has no region of its kind to close. -/
  | unmatchedEnd (index : Nat)
  /-- A closing command and the region it would close disagree on the depth. -/
  | depthMismatch (index expected found : Nat)
  /-- An else-region does not directly follow the clause it belongs to. -/
  | orphanAlt (index depth : Nat)
  /-- A later clause of a chain is not inside the else-region of the one before. -/
  | detachedClause (index depth : Nat)
  /-- Regions are still open at the end. -/
  | unclosed (count : Nat)
  deriving DecidableEq, Repr

def Fault.message : Fault → String
  | .unmatchedEnd i => "command " ++ toString i ++ ": closer has no matching open region"
  | .depthMismatch i expected found =>
    "command " ++ toString i ++ ": depth mismatch, expected " ++ toString expected ++
      ", found " ++ toString found
  | .orphanAlt i depth =>
    "command " ++ toString i ++ ": else-region at depth " ++ toString depth ++
      " does not follow a clause at depth " ++ toString (depth - 1)
  | .detachedClause i depth =>
    "command " ++ toString i ++ ": clause at depth " ++ toString depth ++
      " is not inside a matching else-region"
  | .unclosed count => toString count ++ " region(s) left open at end of stream"

/-- A clause that has been closed: its predicate, where it begins, its body and its depth. -/
structure Clause where
  pred : Operand
  begun : Nat
  body : Block
  depth : UInt32

/-- A region that is still open. -/
inductive Opened where
  | thenRegion (pred : Operand) (begun : Nat) (depth : UInt32)
  | elseRegion (of : Clause) (depth : UInt32)

/-- The state of the scan. -/
structure Reader where
  /-- Open regions, innermost first, each with the block that it interrupts. -/
  stack : List (Opened × Block)
  /-- The innermost block, as far as it has been read. -/
  block : Block
  /-- The clause that the command just before has closed. -/
  closed : Option Clause

namespace Reader

/-- Nothing read yet. -/
def start : Reader := ⟨[], .empty, none⟩

/-- Puts a clause just closed into its block, where it stays without an else-part. -/
def settle (r : Reader) : Reader :=
  match r.closed with
  | none => r
  | some c => ⟨r.stack, r.block ++ .clause c.pred c.begun c.body .empty, none⟩

/-- Whether the innermost region is an else-region of the given depth. -/
def insideElse (r : Reader) (depth : UInt32) : Bool :=
  match r.stack with
  | (.elseRegion _ d, _) :: _ => d == depth
  | _ => false

/-- Opens a region inside the present block. -/
def enter (r : Reader) (opened : Opened) : Reader := ⟨(opened, r.block) :: r.stack, .empty, none⟩

/-- Closes the else-regions of depths `depth`, …, 2, 1, innermost first. -/
def closeElses (index : Nat) : Nat → Reader → Except Fault Reader
  | 0, r => .ok r
  | depth + 1, r =>
    match r.stack with
    | (.elseRegion c d, outer) :: stack =>
      if d.toNat = depth + 1 then
        closeElses index depth
          ⟨stack, outer ++ .clauseElse c.pred c.begun c.body r.block .empty, none⟩
      else .error (.depthMismatch index d.toNat (depth + 1))
    | _ => .error (.unmatchedEnd index)

/-- Takes the command at a position. -/
def step (r : Reader) (index : Nat) (cmd : Command) : Except Fault Reader :=
  match cmd with
  | .whenBegin pred depth =>
    let r := r.settle
    if depth = 0 ∨ r.insideElse depth then .ok (r.enter (.thenRegion pred index depth))
    else .error (.detachedClause index depth.toNat)
  | .whenEnd depth =>
    let r := r.settle
    match r.stack with
    | (.thenRegion pred begun d, outer) :: stack =>
      if d = depth then .ok ⟨stack, outer, some ⟨pred, begun, r.block, d⟩⟩
      else .error (.depthMismatch index d.toNat depth.toNat)
    | _ => .error (.unmatchedEnd index)
  | .altBegin depth =>
    match r.closed with
    | some c =>
      if c.depth.toNat + 1 = depth.toNat then .ok (r.enter (.elseRegion c depth))
      else .error (.orphanAlt index depth.toNat)
    | none => .error (.orphanAlt index depth.toNat)
  | .otherwiseEnd depth =>
    if depth = 0 then .error (.unmatchedEnd index)
    else closeElses index depth.toNat r.settle
  | _ => let r := r.settle; .ok { r with block := r.block ++ .command index .empty }

/-- Takes the commands from a position on. -/
def run : Reader → Nat → List Command → Except Fault Reader
  | r, _, [] => .ok r
  | r, index, cmd :: rest =>
    match r.step index cmd with
    | .ok r => run r (index + 1) rest
    | .error e => .error e

/-- The whole block, once every region is closed. -/
def finish (r : Reader) : Except Fault Block :=
  let r := r.settle
  if r.stack.isEmpty then .ok r.block else .error (.unclosed r.stack.length)

end Reader

end Region

/-- The nesting of a command stream, or the first place where it has none. -/
def Block.ofCommands (commands : List Command) : Except Region.Fault Block :=
  match Region.Reader.start.run 0 commands with
  | .ok r => r.finish
  | .error e => .error e

end Circuitry
