/-
  Natural numbers as bytes, lowest byte first.

  Stored circuits and digests fix the byte order of every fixed-size number to little-endian.
  `write count n` gives exactly `count` bytes and `read` takes any bytes back to a number;
  `read_write` says what survives: the number up to the room given.
-/
import Circuitry.Power

namespace Circuitry.LittleEndian

/-- The low `count` bytes of `n`. -/
def write : Nat → Nat → List UInt8
  | 0, _ => []
  | count + 1, n => UInt8.ofNat n :: write count (n / 256)

/-- The number that a byte list stands for. -/
def read : List UInt8 → Nat
  | [] => 0
  | b :: bs => b.toNat + 256 * read bs

@[simp] theorem length_write : ∀ count n, (write count n).length = count
  | 0, _ => rfl
  | count + 1, n => by simp [write, length_write count]

theorem read_write : ∀ count n, read (write count n) = n % 256 ^ count
  | 0, n => by simp [write, read, Nat.mod_one]
  | count + 1, n => by
    rw [write, read, read_write count, UInt8.toNat_ofNat', @Nat.pow_succ 256 count,
      Nat.mul_comm _ 256, Nat.mod_mul]

/-- A number that fits its room comes back unchanged. -/
theorem read_write_of_lt {count n : Nat} (h : n < 256 ^ count) : read (write count n) = n := by
  rw [read_write, Nat.mod_eq_of_lt h]

example : write 4 0x01020304 = [4, 3, 2, 1] ∧ read [4, 3, 2, 1] = 0x01020304 := by decide

end Circuitry.LittleEndian
