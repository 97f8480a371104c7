/-
  The integers that values stand for.

  A value is cut to its width, and arithmetic on it goes by its reading, which for an unsigned value of
  full width is off by `2 ^ 128`.  Its `number` is what a description means by it.  The two agree up to
  multiples of `2 ^ 128` (`reading_modEq`), so they agree in whatever is cut to at most 128 bits
  (`cut_congr`), and what has been cut to a width stands for the integer reduced to that width
  (`number_cut`).

  An integer in the span of a width is not changed by that (`fit_of_inSpan`).  So an operator is exact
  once its exact result is in the span of the width that is inferred for it.
-/
import Mathlib.Data.Int.ModEq
import Mathlib.Tactic.Ring
import Circuitry.Operator.Meaning
import Circuitry.Proofs.Bits.Storage

namespace Circuitry

/-- The integer reduced to so many bits, and read with a sign or without. -/
def fit (signed : Bool) (width : Nat) (i : Int) : Int :=
  if signed then Int.bmod i (2 ^ width) else i % 2 ^ width

/-- The integers that values of a width stand for. -/
def InSpan (signed : Bool) (width : Nat) (i : Int) : Prop :=
  if signed then -2 ^ width ≤ 2 * i ∧ 2 * i < 2 ^ width else 0 ≤ i ∧ i < 2 ^ width

/-- What is in the span of a width is not changed by it. -/
theorem fit_of_inSpan {signed : Bool} {width : Nat} {i : Int} (h : InSpan signed width i) :
    fit signed width i = i := by
  cases signed with
  | true =>
    obtain ⟨hlow, hhigh⟩ := h
    refine Int.bmod_eq_of_le_mul_two ?_ ?_
    · rw [cast_two_pow]
      omega
    · rw [cast_two_pow]
      omega
  | false =>
    obtain ⟨hlow, hhigh⟩ := h
    exact Int.emod_eq_of_lt hlow hhigh

/-- What has been reduced to a width is in its span. -/
theorem inSpan_fit (signed : Bool) (width : Nat) (i : Int) :
    InSpan signed width (fit signed width i) := by
  have hpos := two_pow_pos width
  cases signed with
  | true =>
    have hlow := Int.le_bmod (x := i) (Nat.two_pow_pos width)
    have hhigh := Int.bmod_lt (x := i) (Nat.two_pow_pos width)
    rw [cast_two_pow] at hlow hhigh
    show -2 ^ width ≤ 2 * Int.bmod i (2 ^ width) ∧ 2 * Int.bmod i (2 ^ width) < 2 ^ width
    omega
  | false => exact ⟨Int.emod_nonneg i (Int.ne_of_gt hpos), Int.emod_lt_of_pos i hpos⟩

/-- An integer fits a width if the width does not change it. -/
theorem fit_eq_iff {signed : Bool} {width : Nat} {i : Int} :
    fit signed width i = i ↔ InSpan signed width i :=
  ⟨fun h => h ▸ inSpan_fit signed width i, fit_of_inSpan⟩

theorem cast_cut (width : Nat) (i : Int) : (cut width i : Int) = i % 2 ^ width :=
  toNat_emod_two_pow width i

/-- Of two cuts the narrower one counts. -/
theorem cut_cut {u v : Nat} (h : u ≤ v) (i : Int) : cut u (cut v i : Nat) = cut u i := by
  have hdvd : (2 : Int) ^ u ∣ 2 ^ v := by exact_mod_cast Nat.pow_dvd_pow 2 h
  unfold cut
  rw [show ((i % 2 ^ v).toNat : Int) = i % 2 ^ v from cast_cut v i, Int.emod_emod_of_dvd i hdvd]

/-- Integers that agree up to multiples of `2 ^ 128` are cut alike. -/
theorem cut_congr {width : Nat} {i j : Int} (hwidth : width ≤ Value.maxWidth)
    (h : i ≡ j [ZMOD 2 ^ Value.maxWidth]) : cut width i = cut width j := by
  have hdvd : (2 : Int) ^ width ∣ 2 ^ Value.maxWidth := by
    exact_mod_cast Nat.pow_dvd_pow 2 hwidth
  exact congrArg Int.toNat (h.of_dvd hdvd)

namespace Value

/-- The integer that a value stands for in its kind: in two's complement at its own width, or without
    a sign. -/
def number (v : Value) : Int := if v.signed then twosComplement v.width v.raw else v.raw

/-- The bits of a value continued to a width by its kind: by copies of its sign, or by zeros. -/
def widened (v : Value) (width : Nat) : Nat := cut width v.number

theorem number_cut (signed : Bool) (width : Nat) (i : Int) :
    number ⟨cut width i, width, signed⟩ = fit signed width i := by
  cases signed with
  | true =>
    show Int.bmod (cut width i : Int) (2 ^ width) = Int.bmod i (2 ^ width)
    rw [cast_cut, ← cast_two_pow, Int.emod_bmod]
  | false => exact cast_cut width i

/-- The value keeps within its width, and the width within that of all values. -/
structure Fits (v : Value) : Prop where
  raw_lt : v.raw < 2 ^ v.width
  width_le : v.width ≤ maxWidth

section Reading

variable {v : Value}

/-- The reading is the number, up to a multiple of `2 ^ 128`. -/
theorem reading_modEq (v : Value) : v.reading ≡ v.number [ZMOD 2 ^ maxWidth] := by
  obtain ⟨raw, width, signed⟩ := v
  cases signed with
  | true => exact Int.ModEq.refl _
  | false =>
    show Int.bmod raw (2 ^ maxWidth) % 2 ^ maxWidth = (raw : Int) % 2 ^ maxWidth
    rw [← cast_two_pow, Int.bmod_emod]

theorem reading_of_signed (h : v.signed = true) : v.reading = v.number := by
  simp [reading, number, h]

theorem number_of_unsigned (h : v.signed = false) : v.number = v.raw := by
  simp [number, h]

end Reading

namespace Fits

variable {v : Value}

theorem number_eq_fit (h : v.Fits) : v.number = fit v.signed v.width v.raw := by
  obtain ⟨raw, width, signed⟩ := v
  cases signed with
  | true => rfl
  | false =>
    have hlt : (raw : Int) < 2 ^ width := by exact_mod_cast h.raw_lt
    exact (Int.emod_eq_of_lt (Int.natCast_nonneg raw) hlt).symm

theorem inSpan (h : v.Fits) : InSpan v.signed v.width v.number := by
  rw [h.number_eq_fit]
  exact inSpan_fit _ _ _

/-- Back from the number to the bits. -/
theorem cut_number (h : v.Fits) : cut v.width v.number = v.raw := by
  have hraw : v.number % 2 ^ v.width = v.raw % 2 ^ v.width := by
    rw [number]
    split
    · rw [twosComplement, ← cast_two_pow, Int.bmod_emod]
    · rfl
  rw [cut, hraw]
  exact_mod_cast Nat.mod_eq_of_lt h.raw_lt

/-- The bits agree with the number up to multiples of the span. -/
theorem raw_modEq (h : v.Fits) : (v.raw : Int) ≡ v.number [ZMOD 2 ^ v.width] := by
  rw [← h.cut_number, cast_cut]
  exact Int.mod_modEq _ _

/-- A value is not cut in its own width. -/
theorem cut_raw (h : v.Fits) : cut v.width v.raw = v.raw := by
  rw [cut_natCast, Nat.mod_eq_of_lt h.raw_lt]

/-- A value is zero if it stands for zero. -/
theorem raw_eq_zero_iff (h : v.Fits) : v.raw = 0 ↔ v.number = 0 := by
  constructor
  · intro hraw
    simp [number, hraw, twosComplement]
  · intro hnumber
    rw [← h.cut_number, hnumber, cut, Int.zero_emod]
    rfl

end Fits

end Value

end Circuitry
