/-
  Operators on signals.

  Every operator checks its operands, works out the width of its result by `Operator.resultWidth` and
  appends one command.  Sums and differences that keep their width take two commands, and a third for
  signed ones.

  `extract` and `bit` look at their indices first.  What is wrong with them is reported, and a zero of
  the wanted form is the result.  The bits of a literal are taken at once if the settings say so.
  Widths and indices are added up in 32 bits, and a description goes no further than a sum that does
  not fit (`Checked`).
-/
import Circuitry.Draft

namespace Circuitry.Draft

/-- Appends an operator with checked operands and returns its result. -/
def define (op : Operator) (args : List Operand) (kind : Kind) (width : Width) : Build Signal := do
  let s ← create kind width none
  let id ← allocate s.ty .result none .defined
  bind s .result id
  emit (.defPrim id op args)
  return s

/-- An operator with a result of a given width. -/
def applyAt (op : Operator) (signals : List Signal) (kind : Kind) (width : Width) :
    Build Signal := do
  define op (← operands signals) kind width

/-- An operator with a result of the inferred width. -/
def apply (op : Operator) (signals : List Signal) (kind : Kind) : Build Signal :=
  applyAt op signals kind (op.resultWidth (signals.map (·.width)))

/-! ## Arithmetic -/

/-- A binary operator with a result of its first operand's kind. -/
def binary (op : Operator) (a b : Signal) : Build Signal := apply op [a, b] a.kind

/-- A unary operator with a result of its operand's kind. -/
def unary (op : Operator) (a : Signal) : Build Signal := apply op [a] a.kind

/-- A sum or difference without its top bit. -/
def wrapping (op : Operator) (a b : Signal) : Build Signal := do
  let wide ← apply op [a, b] a.kind
  let low ← apply (.tail 1) [wide] .uint
  if a.kind.isSigned then apply .asSInt [low] .sint else return low

/-- A sum that has room for its carry. -/
def addWide (a b : Signal) : Build Signal := binary .add a b

/-- A difference that has room for its borrow. -/
def subWide (a b : Signal) : Build Signal := binary .sub a b

/-- A sum as wide as the wider operand. -/
def add (a b : Signal) : Build Signal := wrapping .add a b

/-- A difference as wide as the wider operand. -/
def sub (a b : Signal) : Build Signal := wrapping .sub a b

/-- A comparison of two signals of one kind. -/
def compare (op : Operator) (a b : Signal) : Build Signal := do
  if a.kind ≠ b.kind then throw (.typeMismatch op.mnemonic a.ty b.ty)
  apply op [a, b] .bool

/-- A reduction of all bits to one. -/
def reduce (op : Operator) (a : Signal) : Build Signal := apply op [a] .bool

/-! ## Shifts and joins -/

/-- A left shift by an amount that is a signal.  The result has room for the largest shift, so an
    amount wider than the settings allow is reported. -/
def shiftLeftBy (a amount : Signal) : Build Signal := do
  let limit := (← get).draft.settings.dynamicShiftLimit
  match amount.width.get?.filter (limit < ·) with
  | some width => do
    checkOperands [a, amount]
    report (.shiftAmountTooWide width limit)
    zero a.kind a.width
  | none => apply .dshl [a, amount] a.kind

/-- The bits of `a` above those of `b`. -/
def concat (a b : Signal) : Build Signal := apply .cat [a, b] .uint

def asSInt (a : Signal) : Build Signal := apply .asSInt [a] .sint

def asUInt (a : Signal) : Build Signal := apply .asUInt [a] .uint

/-- A value of one bit as a boolean. -/
def asBool (a : Signal) : Build Signal := do
  match a.width.get?.filter (· ≠ 1) with
  | some width => throw (.widthMismatch "as_bool" (.notOneBit width))
  | none => apply .asBool [a] .bool

/-! ## Sums of 32 bits -/

/-- A step of a description that may also stop for good, without a fault. -/
abbrev Checked := OptionT Build

namespace Checked

/-- A sum, which has to fit 32 bits. -/
def sum (a b : UInt32) : Checked UInt32 :=
  if a.toNat + b.toNat < 2 ^ 32 then return a + b else failure

/-- A difference, which has to be one of 32 bits as well. -/
def difference (a b : UInt32) : Checked UInt32 := if b ≤ a then return a - b else failure

end Checked

/-! ## Selection of bits -/

/-- The width of a range of bits, at least one and at most the largest width. -/
def rangeWidth (hi lo : Int) : Width := .known (Width.saturate (max 1 (hi - lo + 1)).toNat)

/-- Whether an index is one of a value of the given width.  At an open width every index of 32 bits
    is. -/
def indexFits (width : Width) (index : Int) : Bool :=
  match width with
  | .unknown => 0 ≤ index && index < 2 ^ 32
  | .known w => 0 ≤ index && index < w.toNat

/-- An index that lies within a signal; one that does not is reported. -/
def indexWithin? (a : Signal) (index : Int) : Build (Option UInt32) := do
  if indexFits a.width index then return some (UInt32.ofNat index.toNat)
  else
    report (.indexOutOfRange index (a.width.get?.getD (UInt32.ofNat Width.limit)))
    return none

/-- The bits of a literal, continued by its sign so that they reach bit `hi`; nothing for any other
    signal, or where the settings leave literals alone. -/
def foldable? (a : Signal) (hi : UInt32) : Checked (Option Bits) := do
  if (← get).draft.settings.foldLiterals then
    match a.literal with
    | none => return none
    | some v =>
      let next ← Checked.sum hi 1
      let span := max (a.width.get?.getD next) next
      return some (if a.kind.isSigned then v.signExtend span else v.resize span)
  else return none

/-- Bits of a signal whose indices are known to be good: at once from a literal, else by an
    operator. -/
def selectBits (a : Signal) (hi lo : UInt32) (kind : Kind) (width : Width) : Checked Signal := do
  match ← foldable? a hi with
  | some v => do create kind width (some (← (v.slice? hi lo).getM))
  | none => applyAt (.bits hi lo) [a] kind width

/-- Bits `lo` up to `hi`, which are known to be good, as an unsigned value. -/
def selectRange (a : Signal) (hi lo : UInt32) : Checked Signal := do
  let width ← Checked.sum (← Checked.difference hi lo) 1
  selectBits a hi lo .uint (.known width)

/-- Bits `lo` up to `hi` as an unsigned value. -/
def extract (a : Signal) (hi lo : Int) : Checked Signal := do
  checkOperands [a]
  if lo < 0 ∨ hi < lo then
    report (.invalidBitRange hi lo)
    zero .uint (rangeWidth hi lo)
  else
    match ← liftM (indexWithin? a hi) with
    | none => zero .uint (rangeWidth hi lo)
    | some high => selectRange a high (.ofNat lo.toNat)

/-- One bit as a boolean. -/
def bit (a : Signal) (index : Int) : Checked Signal := do
  checkOperands [a]
  if index < 0 then
    report (.negativeIndex index)
    zero .bool (.known 1)
  else
    match ← liftM (indexWithin? a index) with
    | none => zero .bool (.known 1)
    | some i => selectBits a i i .bool (.known 1)

/-! ## Selection between signals -/

/-- The kind of a selection: that of both branches, or unsigned if one is a boolean and the other is
    unsigned. -/
def mergeKinds? : Kind → Kind → Option Kind
  | .bool, .uint | .uint, .bool => some .uint
  | a, b => if a = b then some a else none

/-- `t` where `cond` holds, else `f`. -/
def mux (cond t f : Signal) : Build Signal := do
  let args ← operands [cond, t, f]
  match mergeKinds? t.kind f.kind with
  | none => throw (.typeMismatch "mux" t.ty f.ty)
  | some kind => define .mux args kind (t.width.max f.width)

end Circuitry.Draft
