/-
  Primitive operators.

  Every derived value in a circuit is the result of one of thirty operators.  Some carry constant
  parameters, which are printed after the operands.

  `resultWidth` is width inference: the width of a result from the widths of the operands.  It is the
  only width rule that the description layer uses; the evaluator cuts every result to it.
-/
import Circuitry.Width

namespace Circuitry

/-- A primitive operator with its constant parameters. -/
inductive Operator where
  | add
  | sub
  | tail (n : UInt32)
  | mul
  | div
  | rem
  | and
  | or
  | xor
  | not
  | shl (n : UInt32)
  | shr (n : UInt32)
  | dshl
  | dshr
  | cat
  | eq
  | neq
  | lt
  | leq
  | gt
  | geq
  | bits (hi lo : UInt32)
  | asSInt
  | asUInt
  | asBool
  | mux
  | andReduce
  | orReduce
  | xorReduce
  | pad (n : UInt32)
  deriving DecidableEq, Inhabited, Repr

namespace Operator

/-- The number of operands. -/
def arity : Operator → Nat
  | .tail _ | .not | .shl _ | .shr _ | .bits _ _ | .asSInt | .asUInt | .asBool
  | .andReduce | .orReduce | .xorReduce | .pad _ => 1
  | .mux => 3
  | .add | .sub | .mul | .div | .rem | .and | .or | .xor | .dshl | .dshr | .cat
  | .eq | .neq | .lt | .leq | .gt | .geq => 2

/-- The name in listings. -/
def mnemonic : Operator → String
  | .add => "add"
  | .sub => "sub"
  | .tail _ => "tail"
  | .mul => "mul"
  | .div => "div"
  | .rem => "rem"
  | .and => "and"
  | .or => "or"
  | .xor => "xor"
  | .not => "not"
  | .shl _ => "shl"
  | .shr _ => "shr"
  | .dshl => "dshl"
  | .dshr => "dshr"
  | .cat => "cat"
  | .eq => "eq"
  | .neq => "neq"
  | .lt => "lt"
  | .leq => "leq"
  | .gt => "gt"
  | .geq => "geq"
  | .bits _ _ => "bits"
  | .asSInt => "asSInt"
  | .asUInt => "asUInt"
  | .asBool => "asBool"
  | .mux => "mux"
  | .andReduce => "andr"
  | .orReduce => "orr"
  | .xorReduce => "xorr"
  | .pad _ => "pad"

/-- The constant parameters, in the order in which they are printed. -/
def params : Operator → List UInt32
  | .tail n | .shl n | .shr n | .pad n => [n]
  | .bits hi lo => [hi, lo]
  | _ => []

/-- The width of the result for operands of the given widths.  A missing operand counts as one of
    unknown width. -/
def resultWidth (op : Operator) (widths : List Width) : Width :=
  let w (i : Nat) : Width := widths.getD i .unknown
  match op with
  | .add | .sub => ((w 0).max (w 1)).grow 1
  | .tail n | .shr n => (w 0).shrink n
  | .mul | .cat => (w 0).add (w 1)
  | .div | .rem | .not | .asSInt | .asUInt | .dshr => w 0
  | .and | .or | .xor => (w 0).max (w 1)
  | .shl n => (w 0).grow n
  | .dshl => (w 0).growBy (w 1)
  | .eq | .neq | .lt | .leq | .gt | .geq | .asBool | .andReduce | .orReduce | .xorReduce =>
    .known 1
  | .bits hi lo => .known (Width.saturate (hi.toNat - lo.toNat + 1))
  | .mux => (w 1).max (w 2)
  | .pad n => (w 0).max (.known n)

example : resultWidth .add [.known 4, .known 7] = .known 8 := by decide
example : resultWidth (.shr 6) [.known 4] = .known 0 := by decide
example : resultWidth .mux [.known 1, .known 3, .known 5] = .known 5 := by decide
example : resultWidth .eq [.unknown, .unknown] = .known 1 := by decide

end Operator

end Circuitry
