/-
  Pieces of the stored form.

  Stored data is a run of bytes without gaps: a reader takes what it needs from the front and
  leaves the rest, or fails.

  1. `number` writes a natural number below 2^64 in one byte up to 250, and else as a marker byte
     with 2, 4 or 8 bytes, lowest first;
  2. `readNumber` reads it back, with the largest size that the place allows.  It also accepts a
     number written longer than need be;
  3. text is its length and its UTF-8 bytes, a sequence its length and its items, an optional value
     one byte and, if that is 1, the value.

  `readNumber_number` is the law of the first two.
-/
import Circuitry.LittleEndian

namespace Circuitry.Binary

/-- Takes a value from the front of the bytes. -/
abbrev Reader := StateT (List UInt8) Option

namespace Reader

/-- A value that takes no bytes. -/
@[simp] theorem pure_apply (a : α) (bytes : List UInt8) :
    (pure a : Reader α) bytes = some (a, bytes) := rfl

/-- One reader after the other, on what the first one leaves. -/
theorem bind_apply {r : Reader α} {f : α → Reader β} {bytes rest : List UInt8} {a : α}
    (h : r bytes = some (a, rest)) : (r >>= f) bytes = f a rest := by
  change (r bytes >>= fun p => f p.1 p.2) = f a rest
  rw [h]
  rfl

end Reader

/-! ## Bytes -/

/-- Takes one byte. -/
def readByte : Reader UInt8
  | [] => none
  | b :: rest => some (b, rest)

/-- Takes so many bytes. -/
def readBytes (count : Nat) : Reader (List UInt8) := fun bytes =>
  if count ≤ bytes.length then some (bytes.take count, bytes.drop count) else none

@[simp] theorem readByte_cons (b : UInt8) (rest : List UInt8) :
    readByte (b :: rest) = some (b, rest) := rfl

theorem readBytes_append {count : Nat} {front : List UInt8} (h : front.length = count)
    (rest : List UInt8) : readBytes count (front ++ rest) = some (front, rest) := by
  subst h
  simp [readBytes]

/-! ## Numbers -/

/-- A number in 1, 3, 5 or 9 bytes. -/
def number (n : Nat) : List UInt8 :=
  if n ≤ 250 then [UInt8.ofNat n]
  else if n < 2 ^ 16 then 251 :: LittleEndian.write 2 n
  else if n < 2 ^ 32 then 252 :: LittleEndian.write 4 n
  else 253 :: LittleEndian.write 8 n

/-- How many bytes follow a marker. -/
def markedSize? (marker : UInt8) : Option Nat :=
  if marker = 251 then some 2
  else if marker = 252 then some 4
  else if marker = 253 then some 8
  else none

/-- Reads a number of which at most `room` bytes may follow the marker. -/
def readNumber (room : Nat) : Reader Nat := do
  let b ← readByte
  if b ≤ 250 then return b.toNat
  else
    match markedSize? b with
    | none => failure
    | some size =>
      if size ≤ room then return LittleEndian.read (← readBytes size) else failure

/-- A number comes back, and all that follows it is left: the room has to be 4 bytes at least, and 8
    for a number that needs them. -/
theorem readNumber_number {n room : Nat} (hn : n < 2 ^ 64) (hroom : 4 ≤ room)
    (hwide : 2 ^ 32 ≤ n → 8 ≤ room) (rest : List UInt8) :
    readNumber room (number n ++ rest) = some (n, rest) := by
  have step (count : Nat) (h : n < 256 ^ count) :
      readBytes count (LittleEndian.write count n ++ rest)
        = some (LittleEndian.write count n, rest) :=
    readBytes_append (LittleEndian.length_write count n) rest
  have back (count : Nat) (h : n < 256 ^ count) :
      LittleEndian.read (LittleEndian.write count n) = n := LittleEndian.read_write_of_lt h
  have marked (marker : UInt8) (count : Nat) (hm : ¬marker ≤ 250)
      (hsize : markedSize? marker = some count) (h : n < 256 ^ count) (hle : count ≤ room) :
      readNumber room (marker :: LittleEndian.write count n ++ rest) = some (n, rest) := by
    rw [readNumber, List.cons_append, Reader.bind_apply (readByte_cons _ _), if_neg hm, hsize]
    simp only [hle, if_true]
    rw [Reader.bind_apply (step count h), Reader.pure_apply, back count h]
  unfold number
  split
  · next h =>
    have hb : (UInt8.ofNat n).toNat = n := by rw [UInt8.toNat_ofNat']; omega
    have hle : UInt8.ofNat n ≤ 250 := by rw [UInt8.le_iff_toNat_le, hb]; exact h
    rw [readNumber, List.singleton_append, Reader.bind_apply (readByte_cons _ _), if_pos hle,
      Reader.pure_apply, hb]
  · split
    · next h => exact marked 251 2 (by decide) rfl h (by omega)
    · split
      · next h => exact marked 252 4 (by decide) rfl h hroom
      · next h => exact marked 253 8 (by decide) rfl hn (hwide (by omega))

/-- A 32-bit number. -/
def readUInt32 : Reader UInt32 := UInt32.ofNat <$> readNumber 4

/-- A 64-bit number, also any length and count. -/
def readUInt64 : Reader UInt64 := UInt64.ofNat <$> readNumber 8

/-- The number of a variant. -/
def readTag : Reader Nat := readNumber 4

/-! ## Compound data -/

/-- A text: its length in bytes and its UTF-8 form. -/
def text (s : String) : List UInt8 :=
  let bytes := s.toUTF8.toList
  number bytes.length ++ bytes

def readText : Reader String := do
  let bytes ← readBytes (← readNumber 8)
  match String.fromUTF8? bytes.toByteArray with
  | some s => return s
  | none => failure

/-- A sequence: its length and its items. -/
def list (f : α → List UInt8) (xs : List α) : List UInt8 := number xs.length ++ xs.flatMap f

/-- So many items, one after the other. -/
def readItems (item : Reader α) : Nat → Reader (List α)
  | 0 => return []
  | count + 1 => return (← item) :: (← readItems item count)

def readList (item : Reader α) : Reader (List α) := do readItems item (← readNumber 8)

/-- A value that may be missing. -/
def opt (f : α → List UInt8) : Option α → List UInt8
  | none => [0]
  | some a => 1 :: f a

def readOpt (item : Reader α) : Reader (Option α) := do
  let b ← readByte
  if b = 0 then return none
  else if b = 1 then return some (← item)
  else failure

example : number 250 = [250] ∧ number 251 = [251, 251, 0] ∧ number 65536 = [252, 0, 0, 1, 0] := by
  decide

end Circuitry.Binary
