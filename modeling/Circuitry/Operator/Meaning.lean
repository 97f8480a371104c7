/-
  What operators compute.

  `Operator.apply` gives the result of an operator on values, cut to the width of the result.

  * Sums, differences and products are exact before they are cut.  Division truncates toward zero and
    yields zero for a zero divisor; it is signed when its first operand is.
  * The bitwise operators work on operands continued by their signs, so operands of different widths
    are aligned.
  * Shifts, concatenation and selection of bits work on the raw bits; only a right shift looks at the
    sign.
  * A comparison is signed when both operands are.
-/
import Circuitry.Operator
import Circuitry.Value

namespace Circuitry.Operator

/-- A left shift, clear from 128 places on. -/
def shiftLeft (n places : Nat) : Nat := if Value.maxWidth ≤ places then 0 else n <<< places

/-- A right shift of raw bits. -/
def shiftRight (n places : Nat) : Nat := if Value.maxWidth ≤ places then 0 else n >>> places

/-- A right shift that keeps the sign of a signed value. -/
def shiftRightSigned (a : Value) (places : Nat) : Int :=
  if a.signed then a.reading >>> min places (Value.maxWidth - 1) else shiftRight a.raw places

/-- Whether the first value is below the second. -/
def less (a b : Value) : Bool :=
  if a.signed && b.signed then a.reading < b.reading else a.raw < b.raw

/-- Whether two values compare as equal. -/
def same (a b : Value) : Bool :=
  if a.signed && b.signed then a.reading == b.reading else a.raw == b.raw

/-- A quotient rounded toward zero, or zero. -/
def quotient (a b : Value) : Int :=
  if b.raw = 0 then 0
  else if a.signed then a.reading.tdiv b.reading
  else (a.raw / b.raw : Nat)

/-- The remainder that goes with `quotient`, or zero. -/
def remainder (a b : Value) : Int :=
  if b.raw = 0 then 0
  else if a.signed then a.reading.tmod b.reading
  else (a.raw % b.raw : Nat)

/-- Whether the number of set bits is odd. -/
def parity (n : Nat) : Bool :=
  (List.range Value.maxWidth).foldl (fun odd i => odd != n.testBit i) false

/-- The result before it is cut.  A missing operand is taken to be the one before it. -/
def result (op : Operator) (a b c : Value) : Int :=
  match op with
  | .add => a.reading + b.reading
  | .sub => a.reading - b.reading
  | .tail _ | .asSInt | .asUInt | .asBool => a.raw
  | .mul => a.reading * b.reading
  | .div => quotient a b
  | .rem => remainder a b
  | .and => (a.extended &&& b.extended : Nat)
  | .or => (a.extended ||| b.extended : Nat)
  | .xor => (a.extended ^^^ b.extended : Nat)
  | .not => -1 - (a.raw : Int)
  | .shl n => shiftLeft a.raw n.toNat
  | .dshl => shiftLeft a.raw b.raw
  | .shr n => shiftRightSigned a n.toNat
  | .dshr => shiftRightSigned a b.raw
  | .cat => (shiftLeft a.raw b.width ||| b.raw : Nat)
  | .eq => (same a b).toNat
  | .neq => (!same a b).toNat
  | .lt => (less a b).toNat
  | .leq => (!less b a).toNat
  | .gt => (less b a).toNat
  | .geq => (!less a b).toNat
  | .bits _ lo => shiftRight a.raw lo.toNat
  | .mux => if a.isTrue then b.reading else c.reading
  | .andReduce => (a.raw == 2 ^ a.width - 1).toNat
  | .orReduce => (a.raw != 0).toNat
  | .xorReduce => (parity a.raw).toNat
  | .pad _ => a.reading

/-- The result of an operator, cut to `width` bits. -/
def apply (op : Operator) (args : List Value) (width : Nat) : Nat :=
  let a := args.getD 0 default
  let b := args.getD 1 a
  let c := args.getD 2 b
  cut width (op.result a b c)

theorem apply_lt (op : Operator) (args : List Value) (width : Nat) :
    op.apply args width < 2 ^ width := cut_lt _ _

example : apply .add [⟨0b1111, 4, true⟩, ⟨1, 4, true⟩] 5 = 0 := by decide
example : apply .sub [⟨3, 4, false⟩, ⟨5, 4, false⟩] 5 = 30 := by decide
example : apply .div [⟨0b1001, 4, true⟩, ⟨2, 4, true⟩] 4 = 0b1101 := by decide
example : apply (.shr 1) [⟨0b1001, 4, true⟩] 3 = 0b100 := by decide

end Circuitry.Operator
