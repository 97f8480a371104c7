/-
  Values of at most 128 bits.

  A value is a number of known width together with the way it is to be read.  Arithmetic is
  arithmetic on `reading`, an integer; what comes out is `cut` to the width of its place.

  1. `twosComplement` reads the low bits of a number with a sign;
  2. `cut` is its counterpart: the low bits of an integer as a natural number;
  3. `reading` applies the first to signed values at their own width.  An unsigned value is read
     at 128 bits, where only one of full width can come out negative.
-/
import Circuitry.Power

namespace Circuitry

/-- The low `width` bits, read in two's complement. -/
def twosComplement (width n : Nat) : Int := Int.bmod n (2 ^ width)

/-- The low `width` bits of an integer. -/
def cut (width : Nat) (i : Int) : Nat := (i % 2 ^ width).toNat

theorem cut_lt (width : Nat) (i : Int) : cut width i < 2 ^ width := by
  have h : (0 : Int) < 2 ^ width := by exact_mod_cast Nat.two_pow_pos width
  rw [cut, Int.toNat_lt (Int.emod_nonneg i (Int.ne_of_gt h))]
  exact_mod_cast Int.emod_lt_of_pos i h

/-- A natural number is cut by dropping its high bits. -/
theorem cut_natCast (width n : Nat) : cut width n = n % 2 ^ width := by
  unfold cut
  exact_mod_cast Int.toNat_natCast (n % 2 ^ width)

/-- A number of known width, with its sign rule. -/
structure Value where
  raw : Nat
  width : Nat
  signed : Bool
  deriving DecidableEq, Inhabited, Repr

namespace Value

/-- The largest width of a value. -/
abbrev maxWidth : Nat := 128

/-- The integer that the value stands for. -/
def reading (v : Value) : Int := twosComplement (if v.signed then v.width else maxWidth) v.raw

/-- The value continued to 128 bits by its sign. -/
def extended (v : Value) : Nat := cut maxWidth v.reading

/-- Any bit set. -/
def isTrue (v : Value) : Bool := v.raw != 0

example : reading ⟨0b1101, 4, true⟩ = -3 ∧ reading ⟨0b1101, 4, false⟩ = 13 := by decide
example : reading ⟨5, 0, true⟩ = 0 := by decide

end Value

end Circuitry
