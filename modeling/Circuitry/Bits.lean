/-
  Two-state bit strings.

  A bit string has a width and its bits packed into 64-bit words, least significant word first.  It
  carries literal payloads of any width and the raw bits of evaluated values.

  The representation is plain data: a stored file can name any width beside any words, so nothing in
  the type ties the two together.  `WellFormed` is the tie that every operation here establishes:
  `⌈width / 64⌉` words, and no storage bit set at or above the width.

  1. `value` is the number in the low `width` bits; everything that reads bits reads it;
  2. `ofNat` and `ofInt` are the constructors: a number cut to a width;
  3. resizing, slicing, joining and complementing are arithmetic on `value`;
  4. a range (`slice?`) and the word-by-word operations (`and?`, `or?`, `xor?`, `set?`) have a side
     condition on widths or indices and give nothing when it fails.
-/
import Circuitry.Words

namespace Circuitry

/-- A packed string of bits, least significant word first. -/
structure Bits where
  width : UInt32
  words : List UInt64
  deriving DecidableEq, Inhabited, Repr

namespace Bits

/-- How many words hold `width` bits. -/
def wordCount (width : UInt32) : Nat := (width.toNat + 63) / 64

/-- The number in the low `width` bits. -/
def value (a : Bits) : Nat := Words.toNat a.words % 2 ^ a.width.toNat

/-- Exactly the words that the width asks for, and no bit above the width. -/
structure WellFormed (a : Bits) : Prop where
  words_length : a.words.length = wordCount a.width
  value_lt : Words.toNat a.words < 2 ^ a.width.toNat

/-! ## Constructors -/

/-- The low `width` bits of a natural number. -/
def ofNat (width : UInt32) (n : Nat) : Bits :=
  ⟨width, Words.ofNat (wordCount width) (n % 2 ^ width.toNat)⟩

/-- The low `width` bits of an integer in two's complement, continued by its sign. -/
def ofInt (width : UInt32) (i : Int) : Bits := ofNat width (i % 2 ^ width.toNat).toNat

/-- All bits clear. -/
def zero (width : UInt32) : Bits := ofNat width 0

/-- All bits set. -/
def allOnes (width : UInt32) : Bits := ofNat width (2 ^ width.toNat - 1)

/-- One bit. -/
def ofBool (b : Bool) : Bits := ofNat 1 b.toNat

theorem two_pow_le_base_pow (width : UInt32) :
    2 ^ width.toNat ≤ Words.base ^ wordCount width := by
  rw [← Nat.pow_mul]
  exact Nat.pow_le_pow_right (by decide) (by unfold wordCount; omega)

theorem toNat_words_ofNat (width : UInt32) (n : Nat) :
    Words.toNat (ofNat width n).words = n % 2 ^ width.toNat := by
  rw [ofNat, Words.toNat_ofNat]
  exact Nat.mod_eq_of_lt
    (Nat.lt_of_lt_of_le (Nat.mod_lt _ (Nat.two_pow_pos _)) (two_pow_le_base_pow width))

@[simp] theorem width_ofNat (width : UInt32) (n : Nat) : (ofNat width n).width = width := rfl

/-- The one law of the constructor: a number is cut to the width. -/
@[simp] theorem value_ofNat (width : UInt32) (n : Nat) :
    (ofNat width n).value = n % 2 ^ width.toNat := by
  rw [value, toNat_words_ofNat, width_ofNat, Nat.mod_mod]

theorem wellFormed_ofNat (width : UInt32) (n : Nat) : (ofNat width n).WellFormed where
  words_length := Words.length_ofNat _ _
  value_lt := by
    rw [toNat_words_ofNat]
    exact Nat.mod_lt _ (Nat.two_pow_pos _)

theorem value_lt (a : Bits) : a.value < 2 ^ a.width.toNat := Nat.mod_lt _ (Nat.two_pow_pos _)

/-! ## Reading -/

/-- The bit at `index`; clear at and above the width. -/
def get (a : Bits) (index : Nat) : Bool := a.value.testBit index

/-- Whether no stored bit is set. -/
def isZero (a : Bits) : Bool := a.words.all (· == 0)

/-- One more than the index of the highest stored bit that is set; zero if there is none. -/
def significantBits (a : Bits) : Nat := Words.bitLength (Words.toNat a.words)

/-- The unsigned reading, if it fits 128 bits. -/
def toUnsigned? (a : Bits) : Option Nat :=
  if a.significantBits ≤ 128 then some a.value else none

/-- The two's-complement reading; zero for width zero. -/
def signed (a : Bits) : Int :=
  if a.width.toNat ≠ 0 ∧ a.get (a.width.toNat - 1) then (a.value : Int) - 2 ^ a.width.toNat
  else a.value

/-- The two's-complement reading of a string of at most 128 bits. -/
def toSigned? (a : Bits) : Option Int :=
  if a.width.toNat = 0 then some 0
  else if 128 < a.width.toNat then none
  else if a.significantBits ≤ 128 then some a.signed
  else none

/-- One character per bit, most significant first. -/
def text (a : Bits) : String :=
  let v := a.value
  String.ofList ((List.range a.width.toNat).reverse.map fun i => if v.testBit i then '1' else '0')

/-- The bits between parentheses, as they appear inside the description of a signal. -/
def debugText (a : Bits) : String := "Bits(" ++ a.text ++ ")"

/-! ## Change of width -/

/-- Cuts to `width`, or extends by zeros. -/
def resize (a : Bits) (width : UInt32) : Bits := ofNat width a.value

/-- Cuts to `width`, or extends by copies of the top bit. -/
def signExtend (a : Bits) (width : UInt32) : Bits := ofInt width a.signed

/-- Bits `lo` up to `hi`; positions above the width read as clear. -/
def slice (a : Bits) (hi lo : UInt32) : Bits := ofNat (hi - lo + 1) (a.value >>> lo.toNat)

/-- `slice`, refused for a reversed range, and for the one whose width does not fit 32 bits. -/
def slice? (a : Bits) (hi lo : UInt32) : Option Bits :=
  if lo ≤ hi ∧ hi.toNat - lo.toNat + 1 < 2 ^ 32 then some (a.slice hi lo) else none

theorem slice?_of_fits (a : Bits) {hi lo : UInt32} (hle : lo ≤ hi)
    (hfits : hi.toNat - lo.toNat + 1 < 2 ^ 32) : a.slice? hi lo = some (a.slice hi lo) :=
  if_pos ⟨hle, hfits⟩

/-- `high` above `low`. -/
def concat (high low : Bits) : Bits :=
  ofNat (high.width + low.width) (high.value * 2 ^ low.width.toNat + low.value)

/-! ## Bitwise operations -/

/-- Every bit inverted. -/
def not (a : Bits) : Bits := ofNat a.width (2 ^ a.width.toNat - 1 - a.value)

/-- A word-by-word operation on two strings of one width. -/
def zipWords (f : UInt64 → UInt64 → UInt64) (a b : Bits) : Option Bits :=
  if a.width = b.width then some ⟨a.width, List.zipWith f a.words b.words⟩ else none

def and? : Bits → Bits → Option Bits := zipWords (· &&& ·)
def or? : Bits → Bits → Option Bits := zipWords (· ||| ·)
def xor? : Bits → Bits → Option Bits := zipWords (· ^^^ ·)

/-- One bit replaced; refused at and above the width. -/
def set? (a : Bits) (index : UInt32) (bit : Bool) : Option Bits :=
  if index < a.width then
    let mask := (1 : UInt64) <<< UInt64.ofNat (index.toNat % 64)
    some ⟨a.width, a.words.modify (index.toNat / 64) fun w =>
      if bit then w ||| mask else w &&& ~~~mask⟩
  else none

example : (ofNat 4 0b10111).text = "0111" := by decide
example : (ofInt 4 (-3)).text = "1101" ∧ (ofInt 4 (-3)).signed = -3 := by decide
example : ((ofNat 8 0b10110110).slice 5 2).value = 0b1101 := by decide
example : (concat (ofNat 2 0b10) (ofNat 3 0b011)).text = "10011" := by decide

end Bits

end Circuitry
