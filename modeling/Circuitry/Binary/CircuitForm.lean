/-
  Circuits as bytes.

  For each kind of data in a circuit its stored form, as a pair `toBinary` and `ofBinary`.  A record
  is its fields in order, a variant its number followed by its data, an id a plain number.

  The readers accept any bytes of the right form: whether the words of a bit string suit its width, or
  an id exists, is not looked at.  Types and operands nest; each level takes at least one byte, so the
  number of bytes left bounds the nesting.
-/
import Circuitry.Binary
import Circuitry.Circuit

namespace Circuitry

open Binary (Reader number readTag readUInt32 readUInt64 readText readList readOpt)

/-! ## Numbers and bits -/

def Bits.toBinary (a : Bits) : List UInt8 :=
  number a.width.toNat ++ Binary.list (fun w => number w.toNat) a.words

def Bits.ofBinary : Reader Bits := return ⟨← readUInt32, ← readList readUInt64⟩

def Width.toBinary : Width → List UInt8
  | .unknown => number 0
  | .known n => number 1 ++ number n.toNat

def Width.ofBinary : Reader Width := do
  match ← readTag with
  | 0 => return .unknown
  | 1 => return .known (← readUInt32)
  | _ => failure

def NodeId.toBinary (id : NodeId) : List UInt8 := number id.index.toNat

def NodeId.ofBinary : Reader NodeId := NodeId.mk <$> readUInt32

/-! ## Kinds, directions, roles -/

def Kind.toBinary : Kind → List UInt8
  | .uint => number 0
  | .sint => number 1
  | .bool => number 2

def Kind.ofBinary : Reader Kind := do
  match ← readTag with
  | 0 => return .uint
  | 1 => return .sint
  | 2 => return .bool
  | _ => failure

def Direction.toBinary : Direction → List UInt8
  | .input => number 0
  | .output => number 1

def Direction.ofBinary : Reader Direction := do
  match ← readTag with
  | 0 => return .input
  | 1 => return .output
  | _ => failure

def Role.toBinary : Role → List UInt8
  | .unbound => number 0
  | .port d => number 1 ++ d.toBinary
  | .wire => number 2
  | .register => number 3
  | .literal => number 4
  | .result => number 5

def Role.ofBinary : Reader Role := do
  match ← readTag with
  | 0 => return .unbound
  | 1 => return .port (← Direction.ofBinary)
  | 2 => return .wire
  | 3 => return .register
  | 4 => return .literal
  | 5 => return .result
  | _ => failure

/-! ## Types -/

namespace Ty

mutual
def toBinary : Ty → List UInt8
  | .element k w => number 0 ++ k.toBinary ++ w.toBinary
  | .aggregate fs => number 1 ++ number fs.length ++ fieldsToBinary fs

/-- Fields one after the other, each a name and a type. -/
def fieldsToBinary : List (String × Ty) → List UInt8
  | [] => []
  | (n, t) :: fs => Binary.text n ++ t.toBinary ++ fieldsToBinary fs
end

/-- Reads a type nested at most `fuel` deep. -/
def ofBinaryWithin : Nat → Reader Ty
  | 0 => failure
  | fuel + 1 => do
    match ← readTag with
    | 0 => return .element (← Kind.ofBinary) (← Width.ofBinary)
    | 1 => return .aggregate (← readList do return (← readText, ← ofBinaryWithin fuel))
    | _ => failure

def ofBinary : Reader Ty := do ofBinaryWithin (← get).length

end Ty

/-! ## Operators -/

namespace Operator

def toBinary : Operator → List UInt8
  | .add => number 0
  | .sub => number 1
  | .tail n => number 2 ++ number n.toNat
  | .mul => number 3
  | .div => number 4
  | .rem => number 5
  | .and => number 6
  | .or => number 7
  | .xor => number 8
  | .not => number 9
  | .shl n => number 10 ++ number n.toNat
  | .shr n => number 11 ++ number n.toNat
  | .dshl => number 12
  | .dshr => number 13
  | .cat => number 14
  | .eq => number 15
  | .neq => number 16
  | .lt => number 17
  | .leq => number 18
  | .gt => number 19
  | .geq => number 20
  | .bits hi lo => number 21 ++ number hi.toNat ++ number lo.toNat
  | .asSInt => number 22
  | .asUInt => number 23
  | .asBool => number 24
  | .mux => number 25
  | .andReduce => number 26
  | .orReduce => number 27
  | .xorReduce => number 28
  | .pad n => number 29 ++ number n.toNat

def ofBinary : Reader Operator := do
  match ← readTag with
  | 0 => return .add
  | 1 => return .sub
  | 2 => return .tail (← readUInt32)
  | 3 => return .mul
  | 4 => return .div
  | 5 => return .rem
  | 6 => return .and
  | 7 => return .or
  | 8 => return .xor
  | 9 => return .not
  | 10 => return .shl (← readUInt32)
  | 11 => return .shr (← readUInt32)
  | 12 => return .dshl
  | 13 => return .dshr
  | 14 => return .cat
  | 15 => return .eq
  | 16 => return .neq
  | 17 => return .lt
  | 18 => return .leq
  | 19 => return .gt
  | 20 => return .geq
  | 21 => return .bits (← readUInt32) (← readUInt32)
  | 22 => return .asSInt
  | 23 => return .asUInt
  | 24 => return .asBool
  | 25 => return .mux
  | 26 => return .andReduce
  | 27 => return .orReduce
  | 28 => return .xorReduce
  | 29 => return .pad (← readUInt32)
  | _ => failure

end Operator

/-! ## Operands and commands -/

def Constant.toBinary (c : Constant) : List UInt8 :=
  c.kind.toBinary ++ c.width.toBinary ++ c.value.toBinary

def Constant.ofBinary : Reader Constant :=
  return ⟨← Kind.ofBinary, ← Width.ofBinary, ← Bits.ofBinary⟩

namespace Operand

mutual
def toBinary : Operand → List UInt8
  | .node id => number 0 ++ id.toBinary
  | .constant c => number 1 ++ c.toBinary
  | .aggregate xs => number 2 ++ number xs.length ++ listToBinary xs

/-- Operands one after the other. -/
def listToBinary : List Operand → List UInt8
  | [] => []
  | x :: xs => x.toBinary ++ listToBinary xs
end

/-- Reads an operand nested at most `fuel` deep. -/
def ofBinaryWithin : Nat → Reader Operand
  | 0 => failure
  | fuel + 1 => do
    match ← readTag with
    | 0 => return .node (← NodeId.ofBinary)
    | 1 => return .constant (← Constant.ofBinary)
    | 2 => return .aggregate (← readList (ofBinaryWithin fuel))
    | _ => failure

def ofBinary : Reader Operand := do ofBinaryWithin (← get).length

end Operand

namespace Command

def toBinary : Command → List UInt8
  | .defPort node direction name =>
    number 0 ++ node.toBinary ++ direction.toBinary ++ Binary.text name
  | .defWire node => number 1 ++ node.toBinary
  | .defReg node => number 2 ++ node.toBinary
  | .defPrim result op args =>
    number 3 ++ result.toBinary ++ op.toBinary ++ Binary.list Operand.toBinary args
  | .connect target source => number 4 ++ target.toBinary ++ source.toBinary
  | .whenBegin pred depth => number 5 ++ pred.toBinary ++ number depth.toNat
  | .whenEnd depth => number 6 ++ number depth.toNat
  | .altBegin depth => number 7 ++ number depth.toNat
  | .otherwiseEnd depth => number 8 ++ number depth.toNat

def ofBinary : Reader Command := do
  match ← readTag with
  | 0 => return .defPort (← NodeId.ofBinary) (← Direction.ofBinary) (← readText)
  | 1 => return .defWire (← NodeId.ofBinary)
  | 2 => return .defReg (← NodeId.ofBinary)
  | 3 => return .defPrim (← NodeId.ofBinary) (← Operator.ofBinary) (← readList Operand.ofBinary)
  | 4 => return .connect (← NodeId.ofBinary) (← Operand.ofBinary)
  | 5 => return .whenBegin (← Operand.ofBinary) (← readUInt32)
  | 6 => return .whenEnd (← readUInt32)
  | 7 => return .altBegin (← readUInt32)
  | 8 => return .otherwiseEnd (← readUInt32)
  | _ => failure

end Command

/-! ## Nodes and circuits -/

def Location.toBinary (l : Location) : List UInt8 :=
  Binary.text l.file ++ number l.line.toNat ++ number l.column.toNat

def Location.ofBinary : Reader Location := return ⟨← readText, ← readUInt32, ← readUInt32⟩

def Origin.toBinary : Origin → List UInt8
  | .defined => number 0
  | .field parent index => number 1 ++ parent.toBinary ++ number index.toNat

def Origin.ofBinary : Reader Origin := do
  match ← readTag with
  | 0 => return .defined
  | 1 => return .field (← NodeId.ofBinary) (← readUInt32)
  | _ => failure

def Node.toBinary (n : Node) : List UInt8 :=
  n.ty.toBinary ++ n.role.toBinary ++ Binary.opt Binary.text n.name ++ n.origin.toBinary ++
    n.loc.toBinary

def Node.ofBinary : Reader Node :=
  return ⟨← Ty.ofBinary, ← Role.ofBinary, ← readOpt readText, ← Origin.ofBinary,
    ← Location.ofBinary⟩

def Port.toBinary (p : Port) : List UInt8 :=
  Binary.text p.name ++ p.direction.toBinary ++ p.node.toBinary

def Port.ofBinary : Reader Port :=
  return ⟨← readText, ← Direction.ofBinary, ← NodeId.ofBinary⟩

def Circuit.toBinary (c : Circuit) : List UInt8 :=
  Binary.text c.name ++ Binary.list Node.toBinary c.nodes ++ Binary.list Port.toBinary c.ports ++
    Binary.list Command.toBinary c.commands

def Circuit.ofBinary : Reader Circuit :=
  return ⟨← readText, ← readList Node.ofBinary, ← readList Port.ofBinary,
    ← readList Command.ofBinary⟩

end Circuitry
