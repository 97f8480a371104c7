/-
  Demo circuits.

  Three descriptions that come with the toolkit: a counter, a priority encoder and an arithmetic unit.
  They show ports and a register, literals, conditional chains with and without a last part, and a
  selection between aggregates.
-/
import Circuitry.Draft.Bundle
import Circuitry.Draft.Chain
import Circuitry.Draft.Finish
import Circuitry.Proofs.Draft.Checked

namespace Circuitry

open Draft

/-- The circuits that come with the toolkit. -/
inductive Demo where
  /-- Counts to 255 and around, with an enable and a clear input. -/
  | counter
  /-- The highest of four requests. -/
  | priority
  /-- Sums, differences and two operators on bits, with flags for zero and carry. -/
  | alu
  deriving DecidableEq, Repr

namespace Demo

def all : List Demo := [.counter, .priority, .alu]

def name : Demo → String
  | .counter => "counter"
  | .priority => "priority"
  | .alu => "alu"

/-- The demo of a name. -/
def ofName? (name : String) : Option Demo := all.find? (·.name = name)

theorem ofName?_name (d : Demo) : ofName? d.name = some d := by cases d <;> rfl

/-! ## Shorthands -/

/-- A newly declared signal. -/
def declared (r : Declared) (name : String) (kind : Kind) (width : UInt32) : Build Signal := do
  let s ← template kind (.known width)
  declare r name s
  return s

def input := declared (.port .input)

def output := declared (.port .output)

/-- A literal of a given width. -/
def constant (n : Nat) (width : UInt32) : Build Signal := literalUInt n (.known width)

/-! ## The descriptions -/

def counterDescription : Checked Unit := do
  let enable ← input "enable" .bool 1
  let clear ← input "clear" .bool 1
  let value ← output "value" .uint 8
  let wrap ← output "wrap" .bool 1
  let count ← declared .register "count" .uint 8
  let zero ← constant 0 8
  let one ← constant 1 8
  let next ← add count one
  let chain ← Chain.start (pure clear) (connect count zero)
  let chain ← chain.elseWhen (pure enable) (connect count next)
  chain.close
  connect value count
  let last ← literalText "hff"
  let atLast ← compare .eq count last
  let wrapping ← binary .and atLast enable
  connect wrap wrapping

def priorityDescription : Checked Unit := do
  let requests ← input "req" .uint 4
  let grant ← output "grant" .uint 2
  let valid ← output "valid" .bool 1
  let third ← constant 3 2
  let second ← constant 2 2
  let first ← constant 1 2
  let zeroth ← constant 0 2
  let chain ← Chain.start (bit requests 3) (connect grant third)
  let chain ← chain.elseWhen (bit requests 2) (connect grant second)
  let chain ← chain.elseWhen (bit requests 1) (connect grant first)
  chain.otherwise (connect grant zeroth)
  let any ← reduce .orReduce requests
  connect valid any

/-- The flags of the arithmetic unit as an aggregate. -/
def flags (zero carry : α) : Shape.Fields α := [("zero", .leaf zero), ("carry", .leaf carry)]

def aluDescription : Checked Unit := do
  let a ← input "a" .uint 8
  let b ← input "b" .uint 8
  let op ← input "op" .uint 2
  let result ← output "result" .uint 8
  let shown ← templateFields (flags (.bool, .known 1) (.bool, .known 1))
  declareFields (.port .output) "flags" shown
  let wide ← addWide a b
  let sum ← extract wide 7 0
  let carry ← bit wide 8
  let difference ← sub a b
  let both ← binary .and a b
  let either ← binary .or a b
  let addCode ← constant 0 2
  let subCode ← constant 1 2
  let andCode ← constant 2 2
  let isAdd ← compare .eq op addCode
  let chain ← Chain.start (pure isAdd) (connect result sum)
  let chain ← chain.elseWhen (compare .eq op subCode) (connect result difference)
  let chain ← chain.elseWhen (compare .eq op andCode) (connect result both)
  chain.otherwise (connect result either)
  let zero ← constant 0 8
  let isZero ← compare .eq result zero
  let noCarry ← literalBool false
  let chosen ← muxFields isAdd (flags isZero carry) (flags isZero noCarry)
  connectFields shown chosen

def description : Demo → Checked Unit
  | .counter => counterDescription
  | .priority => priorityDescription
  | .alu => aluDescription

/-- No demo takes a bit at the last index of 32 bits. -/
theorem proceeds_description (d : Demo) : d.description.Proceeds := by
  cases d
  -- by their heads alone: a chain and a selection are binds too, further down
  all_goals
    simp only [description, counterDescription, priorityDescription, aluDescription]
    repeat' with_reducible first
      | exact .lift _
      | exact proceeds_bit _ (by decide)
      | exact proceeds_extract _ _ (by decide)
      | refine .bind ?_ fun _ => ?_
      | refine .start ?_ ?_
      | refine .elseWhen _ ?_ ?_
      | refine .otherwise _ ?_
  all_goals exact .ret _

theorem isSome_describe? (d : Demo) (settings : Settings.Elaboration) :
    (describe? 0 d.name settings .empty d.description).isSome = true := by
  unfold describe?
  split
  · rfl
  · next hstop => exact absurd hstop (d.proceeds_description _ _)
  · rfl

/-- The circuit of a demo under given settings. -/
def circuit (d : Demo) (settings : Settings.Elaboration) : Except Failure Circuit :=
  (describe? 0 d.name settings .empty d.description).get (d.isSome_describe? settings)

end Demo

end Circuitry
