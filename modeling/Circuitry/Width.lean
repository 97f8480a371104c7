/-
  Widths that may still be open.

  A width is a bit count, or unknown until a later stage infers it.  Every computed width is exact up
  to the largest one, `2 ^ 32 - 1`, and stays there above it; an unknown operand makes the result
  unknown.

  `saturate` is the only place where a width is cut off, and `toNat_saturate` says where it lands.
-/
import Circuitry.Power

namespace Circuitry

/-- A bit count, or one left to inference. -/
inductive Width where
  | unknown
  | known (bits : UInt32)
  deriving DecidableEq, Inhabited, Repr

namespace Width

/-- The largest bit count. -/
abbrev limit : Nat := 2 ^ 32 - 1

/-- A bit count computed without bound, held at the largest one. -/
def saturate (n : Nat) : UInt32 := UInt32.ofNat (min n limit)

theorem toNat_saturate (n : Nat) : (saturate n).toNat = min n limit := by
  rw [saturate, UInt32.toNat_ofNat']
  exact Nat.mod_eq_of_lt (by simp only [limit]; omega)

/-- The bit count, if there is one. -/
def get? : Width → Option UInt32
  | .unknown => none
  | .known n => some n

def isKnown : Width → Bool
  | .unknown => false
  | .known _ => true

/-- Applies a rule to a known width. -/
def map (f : Nat → Nat) : Width → Width
  | .unknown => .unknown
  | .known a => .known (saturate (f a.toNat))

/-- Applies a rule to two known widths. -/
def map₂ (f : Nat → Nat → Nat) : Width → Width → Width
  | .known a, .known b => .known (saturate (f a.toNat b.toNat))
  | _, _ => .unknown

/-- The wider of two. -/
def max : Width → Width → Width := map₂ Nat.max

/-- The width of two values side by side. -/
def add : Width → Width → Width := map₂ (· + ·)

/-- `n` more bits. -/
def grow (w : Width) (n : UInt32) : Width := w.map (· + n.toNat)

/-- `n` fewer bits, down to none. -/
def shrink (w : Width) (n : UInt32) : Width := w.map (· - n.toNat)

/-- Room for a left shift by any amount of the given width, which is at most `2 ^ a - 1` places.
    Amounts of 32 bits or more already reach the largest width. -/
def growBy : Width → Width → Width :=
  map₂ fun w a => if a < 32 then w + (2 ^ a - 1) else limit

/-- The width between angle brackets. -/
def text : Width → String
  | .unknown => "<?>"
  | .known n => "<" ++ toString n ++ ">"

/-- The width by itself, as messages give it. -/
def bareText : Width → String
  | .unknown => "?"
  | .known n => toString n

example : (known 4).max (known 7) = known 7 ∧ (known 2).shrink 5 = known 0 := by decide
example : (known 8).growBy (known 3) = known 15 := by decide
example : (known 8).growBy (known 40) = known 4294967295 := by decide
example : unknown.add (known 3) = unknown ∧ (known 4294967295).grow 1 = known 4294967295 := by
  decide

end Width

end Circuitry
