/-
  Commands as JSON.

  For each kind of data in a command the form it has in JSON, as a pair `toJson` and `ofJson?`.  Node
  ids are plain numbers, bit strings show their width and words, and every inductive type is written
  as a variant.

  Types and operands nest; their readers go down one level at a time and are bounded by the height of
  the data.  Readers of variants with fields are told where the data comes from.
-/
import Circuitry.Command
import Circuitry.Json.Record

namespace Circuitry

/-! ## Numbers and bits -/

def Bits.toJson (a : Bits) : Json :=
  .object [("width", .nat a.width.toNat), ("words", .list (fun w => .nat w.toNat) a.words)]

def Bits.ofJson? (j : Json) : Option Bits := do
  let [some width, some words] ← j.record? ["width", "words"] | none
  return ⟨← width.uint32?, ← words.list? Json.uint64?⟩

def Width.toJson : Width → Json
  | .unknown => .string "Unknown"
  | .known n => .tagged "Known" (.nat n.toNat)

def Width.ofJson? (j : Json) : Option Width :=
  match j.variant? with
  | some ("Unknown", none) | some ("Unknown", some .null) => some .unknown
  | some ("Known", some n) => n.uint32?.map .known
  | _ => none

def NodeId.toJson (id : NodeId) : Json := .nat id.index.toNat

def NodeId.ofJson? (j : Json) : Option NodeId := j.uint32?.map NodeId.mk

/-! ## Kinds and directions -/

def Kind.toJson (k : Kind) : Json := .string k.text

def Kind.ofJson? (j : Json) : Option Kind :=
  match j.bareVariant? with
  | some "UInt" => some .uint
  | some "SInt" => some .sint
  | some "Bool" => some .bool
  | _ => none

def Direction.toJson : Direction → Json
  | .input => .string "Input"
  | .output => .string "Output"

def Direction.ofJson? (j : Json) : Option Direction :=
  match j.bareVariant? with
  | some "Input" => some .input
  | some "Output" => some .output
  | _ => none

/-! ## Types -/

namespace Ty

mutual
def toJson : Ty → Json
  | .element k w => .tagged "Element" (.object [("kind", k.toJson), ("width", w.toJson)])
  | .aggregate fs => .tagged "Aggregate" (.array (fieldsToJson fs))

/-- Fields as records of a name and a type. -/
def fieldsToJson : List (String × Ty) → List Json
  | [] => []
  | (n, t) :: fs => .object [("name", .string n), ("ty", t.toJson)] :: fieldsToJson fs
end

/-- A named field, with the reader for its type given. -/
def fieldOfJson? (read : Json → Option Ty) (j : Json) : Option (String × Ty) := do
  let [some name, some ty] ← j.record? ["name", "ty"] | none
  return (← name.string?, ← read ty)

/-- Reads a type nested at most `fuel` deep. -/
def ofJsonWithin? (src : Json.Source) : Nat → Json → Option Ty
  | 0, _ => none
  | fuel + 1, j =>
    match j.variant? with
    | some ("Element", some payload) => do
      let [some kind, some width] ← payload.fields? src ["kind", "width"] | none
      return .element (← Kind.ofJson? kind) (← Width.ofJson? width)
    | some ("Aggregate", some payload) =>
      (payload.list? (fieldOfJson? (ofJsonWithin? src fuel))).map .aggregate
    | _ => none

def ofJson? (src : Json.Source) (j : Json) : Option Ty := ofJsonWithin? src (j.height + 1) j

end Ty

/-! ## Operators -/

namespace Operator

/-- The name of the variant. -/
def tag : Operator → String
  | .add => "Add"
  | .sub => "Sub"
  | .tail _ => "Tail"
  | .mul => "Mul"
  | .div => "Div"
  | .rem => "Rem"
  | .and => "And"
  | .or => "Or"
  | .xor => "Xor"
  | .not => "Not"
  | .shl _ => "Shl"
  | .shr _ => "Shr"
  | .dshl => "Dshl"
  | .dshr => "Dshr"
  | .cat => "Cat"
  | .eq => "Eq"
  | .neq => "Neq"
  | .lt => "Lt"
  | .leq => "Leq"
  | .gt => "Gt"
  | .geq => "Geq"
  | .bits _ _ => "Bits"
  | .asSInt => "AsSInt"
  | .asUInt => "AsUInt"
  | .asBool => "AsBool"
  | .mux => "Mux"
  | .andReduce => "AndR"
  | .orReduce => "OrR"
  | .xorReduce => "XorR"
  | .pad _ => "Pad"

def toJson (op : Operator) : Json :=
  match op with
  | .tail n | .shl n | .shr n | .pad n => .tagged op.tag (.nat n.toNat)
  | .bits hi lo => .tagged op.tag (.object [("hi", .nat hi.toNat), ("lo", .nat lo.toNat)])
  | _ => .string op.tag

/-- The operators without parameters. -/
def plain : List Operator :=
  [.add, .sub, .mul, .div, .rem, .and, .or, .xor, .not, .dshl, .dshr, .cat, .eq, .neq, .lt, .leq,
   .gt, .geq, .asSInt, .asUInt, .asBool, .mux, .andReduce, .orReduce, .xorReduce]

/-- The operator without parameters that has a tag. -/
def plainOfTag? (tag : String) : Option Operator := plain.find? (·.tag = tag)

def ofJson? (src : Json.Source) (j : Json) : Option Operator :=
  match j.variant? with
  | some ("Tail", some n) => n.uint32?.map .tail
  | some ("Shl", some n) => n.uint32?.map .shl
  | some ("Shr", some n) => n.uint32?.map .shr
  | some ("Pad", some n) => n.uint32?.map .pad
  | some ("Bits", some payload) => do
    let [some hi, some lo] ← payload.fields? src ["hi", "lo"] | none
    return .bits (← hi.uint32?) (← lo.uint32?)
  | _ => j.bareVariant?.bind plainOfTag?

end Operator

/-! ## Operands -/

def Constant.toJson (c : Constant) : Json :=
  .object [("kind", c.kind.toJson), ("width", c.width.toJson), ("value", c.value.toJson)]

def Constant.ofJson? (j : Json) : Option Constant := do
  let [some kind, some width, some value] ← j.record? ["kind", "width", "value"] | none
  return ⟨← Kind.ofJson? kind, ← Width.ofJson? width, ← Bits.ofJson? value⟩

namespace Operand

mutual
def toJson : Operand → Json
  | .node id => .tagged "Node" id.toJson
  | .constant c => .tagged "Lit" c.toJson
  | .aggregate xs => .tagged "Aggregate" (.array (listToJson xs))

/-- Operands in order. -/
def listToJson : List Operand → List Json
  | [] => []
  | x :: xs => x.toJson :: listToJson xs
end

/-- Reads an operand nested at most `fuel` deep. -/
def ofJsonWithin? : Nat → Json → Option Operand
  | 0, _ => none
  | fuel + 1, j =>
    match j.variant? with
    | some ("Node", some id) => (NodeId.ofJson? id).map .node
    | some ("Lit", some c) => (Constant.ofJson? c).map .constant
    | some ("Aggregate", some xs) => (xs.list? (ofJsonWithin? fuel)).map .aggregate
    | _ => none

def ofJson? (j : Json) : Option Operand := ofJsonWithin? (j.height + 1) j

end Operand

/-! ## Commands -/

namespace Command

def toJson : Command → Json
  | .defPort node direction name => .tagged "DefPort" <| .object
      [("node", node.toJson), ("direction", direction.toJson), ("name", .string name)]
  | .defWire node => .tagged "DefWire" (.object [("node", node.toJson)])
  | .defReg node => .tagged "DefReg" (.object [("node", node.toJson)])
  | .defPrim result op args => .tagged "DefPrim" <| .object
      [("result", result.toJson), ("op", op.toJson), ("args", .list Operand.toJson args)]
  | .connect target source => .tagged "Connect" <| .object
      [("target", target.toJson), ("source", source.toJson)]
  | .whenBegin pred depth => .tagged "WhenBegin" <| .object
      [("pred", pred.toJson), ("depth", .nat depth.toNat)]
  | .whenEnd depth => .tagged "WhenEnd" (.object [("depth", .nat depth.toNat)])
  | .altBegin depth => .tagged "AltBegin" (.object [("depth", .nat depth.toNat)])
  | .otherwiseEnd depth => .tagged "OtherwiseEnd" (.object [("depth", .nat depth.toNat)])

/-- The depth of a region, as the only field of a variant. -/
def depthOfJson? (src : Json.Source) (j : Json) : Option UInt32 := do
  let [some depth] ← j.fields? src ["depth"] | none
  depth.uint32?

/-- A node, as the only field of a variant. -/
def nodeOfJson? (src : Json.Source) (j : Json) : Option NodeId := do
  let [some node] ← j.fields? src ["node"] | none
  NodeId.ofJson? node

def ofJson? (src : Json.Source) (j : Json) : Option Command :=
  match j.variant? with
  | some ("DefPort", some payload) => do
    let [some node, some direction, some name] ←
      payload.fields? src ["node", "direction", "name"] | none
    return .defPort (← NodeId.ofJson? node) (← Direction.ofJson? direction) (← name.string?)
  | some ("DefWire", some payload) => (nodeOfJson? src payload).map .defWire
  | some ("DefReg", some payload) => (nodeOfJson? src payload).map .defReg
  | some ("DefPrim", some payload) => do
    let [some result, some op, some args] ← payload.fields? src ["result", "op", "args"] | none
    return .defPrim (← NodeId.ofJson? result) (← Operator.ofJson? src op)
      (← args.list? Operand.ofJson?)
  | some ("Connect", some payload) => do
    let [some target, some source] ← payload.fields? src ["target", "source"] | none
    return .connect (← NodeId.ofJson? target) (← Operand.ofJson? source)
  | some ("WhenBegin", some payload) => do
    let [some pred, some depth] ← payload.fields? src ["pred", "depth"] | none
    return .whenBegin (← Operand.ofJson? pred) (← depth.uint32?)
  | some ("WhenEnd", some payload) => (depthOfJson? src payload).map .whenEnd
  | some ("AltBegin", some payload) => (depthOfJson? src payload).map .altBegin
  | some ("OtherwiseEnd", some payload) => (depthOfJson? src payload).map .otherwiseEnd
  | _ => none

end Command

end Circuitry
