/-
  Natural numbers as little-endian lists of 64-bit words.

  A bit string is stored in words, but every law about it is a law about the number the words
  stand for.  This file holds the two directions and the one arithmetic step that long numerals
  need:

  1. `toNat` reads a word list, least significant word first;
  2. `ofNat count n` writes the low `64 · count` bits of `n` into exactly `count` words;
  3. `mulAdd` multiplies a word list in place by a small factor and adds a carry, growing the
     list by one word when the carry does not fit.

  `toNat_ofNat` and `toNat_mulAdd` say that both are exact, `toNat_lt` bounds what a list of a
  given length can hold.
-/
import Circuitry.Power

namespace Circuitry.Words

/-- The number of values of one word. -/
abbrev base : Nat := 2 ^ 64

/-- The number a word list stands for, least significant word first. -/
def toNat : List UInt64 → Nat
  | [] => 0
  | w :: ws => w.toNat + base * toNat ws

/-- The low `64 · count` bits of `n`, in exactly `count` words. -/
def ofNat : Nat → Nat → List UInt64
  | 0, _ => []
  | count + 1, n => UInt64.ofNat n :: ofNat count (n / base)

/-- Multiplies by `factor` and adds `carry`, one word at a time: a word keeps the low part of its
    product and hands the rest on.  A carry left at the end becomes a new most significant word. -/
def mulAdd (factor carry : Nat) : List UInt64 → List UInt64
  | [] => if carry = 0 then [] else [UInt64.ofNat carry]
  | w :: ws =>
    let acc := w.toNat * factor + carry
    UInt64.ofNat acc :: mulAdd factor (acc / base) ws

/-! ## Sizes and values -/

@[simp] theorem length_ofNat : ∀ count n, (ofNat count n).length = count
  | 0, _ => rfl
  | count + 1, n => by simp [ofNat, length_ofNat count]

theorem word_lt (w : UInt64) : w.toNat < base := w.toNat_lt

/-- Writing keeps the number up to the room there is. -/
theorem toNat_ofNat : ∀ count n, toNat (ofNat count n) = n % base ^ count
  | 0, n => by simp [ofNat, toNat, Nat.mod_one]
  | count + 1, n => by
    rw [ofNat, toNat, toNat_ofNat count, UInt64.toNat_ofNat', @Nat.pow_succ base count,
      Nat.mul_comm _ base, Nat.mod_mul]

theorem toNat_lt : ∀ ws : List UInt64, toNat ws < base ^ ws.length
  | [] => by simp [toNat]
  | w :: ws => by
    have hw := word_lt w
    have hws := toNat_lt ws
    rw [toNat, List.length_cons, @Nat.pow_succ base ws.length, Nat.mul_comm _ base]
    calc w.toNat + base * toNat ws
        < base + base * toNat ws := by omega
      _ = base * (toNat ws + 1) := by rw [Nat.mul_add, Nat.mul_one, Nat.add_comm]
      _ ≤ base * base ^ ws.length := Nat.mul_le_mul_left _ hws

/-- A word times a word leaves room for a carry, and one more. -/
theorem product_lt {factor carry : Nat} (hfactor : factor < base) (hcarry : carry < base)
    (w : UInt64) : w.toNat * factor + carry < base * base := by
  have hw := word_lt w
  calc w.toNat * factor + carry
      ≤ (base - 1) * (base - 1) + (base - 1) :=
        Nat.add_le_add (Nat.mul_le_mul (by omega) (by omega)) (by omega)
    _ < base * base := by decide

/-- What a word hands on is less than a word. -/
theorem carry_lt {factor carry : Nat} (hfactor : factor < base) (hcarry : carry < base)
    (w : UInt64) : (w.toNat * factor + carry) / base < base :=
  Nat.div_lt_of_lt_mul (product_lt hfactor hcarry w)

/-- One multiply-and-add step is exact as long as each carry fits a word, which a factor of at
    most a word guarantees. -/
theorem toNat_mulAdd (factor : Nat) (hf : factor < base) :
    ∀ (carry : Nat) (ws : List UInt64), carry < base →
      toNat (mulAdd factor carry ws) = toNat ws * factor + carry
  | carry, [], hc => by
    by_cases h : carry = 0
    · simp [mulAdd, toNat, h]
    · have hword : (UInt64.ofNat carry).toNat = carry := by
        rw [UInt64.toNat_ofNat']
        exact Nat.mod_eq_of_lt hc
      simp [mulAdd, toNat, h, hword]
  | carry, w :: ws, hc => by
    rw [mulAdd, toNat, toNat_mulAdd factor hf _ ws (carry_lt hf hc w), toNat, UInt64.toNat_ofNat']
    have := Nat.mod_add_div (w.toNat * factor + carry) base
    rw [Nat.add_mul, Nat.mul_add, Nat.mul_assoc]
    simp only [base] at *
    omega

/-! ## Bit length -/

/-- How many bits the binary numeral of `n` has; none for zero. -/
def bitLength (n : Nat) : Nat := if n = 0 then 0 else n.log2 + 1

theorem lt_two_pow_bitLength (n : Nat) : n < 2 ^ bitLength n := by
  unfold bitLength
  split
  · simp_all
  · exact Nat.lt_log2_self

theorem bitLength_le_iff (n k : Nat) : bitLength n ≤ k ↔ n < 2 ^ k := by
  constructor
  · intro h
    exact Nat.lt_of_lt_of_le (lt_two_pow_bitLength n) (Nat.pow_le_pow_right (by decide) h)
  · intro h
    unfold bitLength
    split
    · omega
    · next hn => exact (Nat.log2_lt hn).2 h

end Circuitry.Words
