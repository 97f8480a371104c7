/-
  Bit strings and integers of 128 bits.

  An integer is written into a string of any width, and a string is read as an integer, without a sign or
  with one.  Both are arithmetic here.  A machine has words of 128 bits for it, and goes other ways at
  other widths: it copies bits one after the other, fills what is above the word with copies of the sign,
  and continues a sign inside a word by a mask.

  1. Writing comes to the integer modulo the power of two of the width (`writeWord_eq`): up to 128 bits
     from the bits of the word, beyond that by extending what is written at 128 bits.
  2. Reading comes to the number of the string, if a word has room for it, and with a sign to the reading
     of a bit vector of the same width (`readSigned_eq`).  The mask is made at widths below 128 only, so
     it is never shifted by all bits of the word.
  3. An integer comes back from a width exactly if it is in the span of the width (`toSigned?_ofInt`),
     which at width zero is zero alone.

  All of it holds of every well-formed string, and so of whatever constructors and operations make
  (`Built.wellFormed`).
-/
import Circuitry.Proofs.Bench.Careful
import Circuitry.Proofs.Bits.Number

namespace Circuitry.Bits

variable {a : Bits} {width : UInt32} {i : Int}

/-! ## On a machine -/

/-- Copies the bits of a string into one of another width. -/
def copyEach (a : Bits) (width : UInt32) : Option Bits :=
  setWhere a.get 0 (min width.toNat a.width.toNat) (zero width)

/-- Copies the bits of a string, and then its top bit into every place above. -/
def extendEach (a : Bits) (width : UInt32) : Option Bits := do
  let b ← copyEach a width
  if 0 < a.width.toNat ∧ a.get (a.width.toNat - 1) then
    setWhere (fun _ => true) a.width.toNat (width.toNat - a.width.toNat) b
  else return b

/-- Copies the bits of a word, at most as many as there are. -/
def copyWord (x : Word) (width : UInt32) : Option Bits :=
  setWhere x.getLsbD 0 (min width.toNat 128) (zero width)

/-- Writes a word with a sign: the part that is in the word, and copies of the sign above it. -/
def writeWord (x : Word) (width : UInt32) : Option Bits :=
  if 128 < width.toNat then do extendEach (← copyWord x 128) width else copyWord x width

/-- Reads a string as a word with a sign.  A mask fills what is above the width. -/
def readWord (a : Bits) : Except Hazard (Option Word) :=
  if a.width.toNat = 0 then .ok (some 0)
  else if 128 < a.width.toNat then .ok none
  else do
    match ← Bench.Careful.unsigned a with
    | none => return none
    | some x =>
      if a.width.toNat = 128 then return some x
      else if ← Machine.found (a.bit? (a.width.toNat - 1)) then
        return some (x ||| (← Machine.shifted (· <<< ·) (BitVec.allOnes _) a.width.toNat))
      else return some x

/-! ## Writing -/

theorem extendEach_eq (a : Bits) (width : UInt32) : extendEach a width = some (a.signExtend width) := by
  rw [extendEach, copyEach, resize_loop]
  exact signExtend_loop a width

theorem copyWord_eq (x : Word) (width : UInt32) : copyWord x width = some (ofNat width x.toNat) :=
  ofNat_loop width x.isLt

/-- An integer of a word is written as its residue at the width. -/
theorem writeWord_eq (hlow : -2 ^ 127 ≤ i) (hhigh : i < 2 ^ 127) :
    writeWord (.ofInt _ i) width = some (ofInt width i) := by
  rw [ofInt_eq width hlow hhigh, writeWord]
  split
  · rw [copyWord_eq, Option.bind_eq_bind, Option.bind_some, extendEach_eq, BitVec.toNat_ofInt]
    rfl
  · rw [copyWord_eq, BitVec.toNat_ofInt]
    rfl

/-- An integer of a word is continued beyond the word by its sign. -/
theorem ofInt_beyond (hlow : -2 ^ 127 ≤ i) (hhigh : i < 2 ^ 127) (hwidth : 128 < width.toNat) :
    ofInt width i = (ofInt 128 i).signExtend width := by
  rw [ofInt_eq width hlow hhigh, if_pos hwidth]
  rfl

/-! ## Reading -/

/-- The number of the string, read with a sign by a bit vector of its width. -/
def reading (a : Bits) : Int := (BitVec.ofNat a.width.toNat a.val).toInt

theorem WellFormed.signed_eq (h : a.WellFormed) : a.signed = a.reading := by
  rw [signed_eq_toInt, reading, h.val_eq_value]

theorem WellFormed.toUnsigned?_eq (h : a.WellFormed) :
    a.toUnsigned? = if a.val < 2 ^ 128 then some a.val else none := by
  have hfits : a.significantBits ≤ 128 ↔ a.val < 2 ^ 128 := by
    rw [a.val_eq]
    exact Words.bitLength_le_iff _ _
  simp only [toUnsigned?, hfits, h.val_eq_value]

/-- A string of at most 128 bits has room in a word. -/
theorem WellFormed.val_lt (h : a.WellFormed) {room : Nat} (hwidth : a.width.toNat ≤ room) :
    a.val < 2 ^ room := by
  rw [h.val_eq_value]
  exact Nat.lt_of_lt_of_le a.value_lt (Nat.pow_le_pow_right (by decide) hwidth)

theorem WellFormed.toSigned?_eq (h : a.WellFormed) :
    a.toSigned? = if 128 < a.width.toNat then none else some a.reading := by
  unfold toSigned?
  by_cases hzero : a.width.toNat = 0
  · rw [if_pos hzero, if_neg (by omega), reading, hzero, BitVec.toInt_zero_length]
  rw [if_neg hzero]
  split
  · rfl
  · next hle =>
    have hfits : a.significantBits ≤ 128 := by
      rw [significantBits, Words.bitLength_le_iff, ← a.val_eq]
      exact h.val_lt (Nat.le_of_not_lt hle)
    rw [if_pos hfits, h.signed_eq]

/-- The mask sets what is above the width, which are the places that the sign is to be continued to. -/
theorem or_mask {n w : Nat} (hw : w < 128) (hn : n < 2 ^ w)
    (htop : (BitVec.ofNat w n).msb = true) :
    BitVec.ofNat 128 n ||| BitVec.allOnes 128 <<< w = (BitVec.ofNat w n).signExtend 128 := by
  refine BitVec.eq_of_getLsbD_eq fun i hi => ?_
  rw [BitVec.getLsbD_or, BitVec.getLsbD_ofNat, BitVec.getLsbD_shiftLeft, BitVec.getLsbD_allOnes,
    BitVec.getLsbD_signExtend, BitVec.getLsbD_ofNat, htop, decide_eq_true hi]
  by_cases hlow : i < w
  · simp [hlow]
  · have hclear : n.testBit i = false :=
      Nat.testBit_lt_two_pow (Nat.lt_of_lt_of_le hn (Nat.pow_le_pow_right (by decide) (by omega)))
    have hinside : i - w < 128 := by omega
    simp [hlow, hclear, hinside]

/-- A string that a word has room for is read as a bit vector of its width, continued to the word. -/
theorem readWord_eq (h : a.WellFormed) : readWord a = .ok (if 128 < a.width.toNat then none
    else some ((BitVec.ofNat a.width.toNat a.val).signExtend 128)) := by
  unfold readWord
  by_cases hzero : a.width.toNat = 0
  · rw [if_pos hzero, if_neg (by omega), hzero, BitVec.signExtend, BitVec.toInt_zero_length]
    rfl
  rw [if_neg hzero]
  split
  · rfl
  next hle =>
  have hlt := h.val_lt (Nat.le_refl _)
  rw [Bench.Careful.unsigned_eq h, h.toUnsigned?_eq, if_pos (h.val_lt (Nat.le_of_not_lt hle))]
  show (if a.width.toNat = 128 then (.ok (some (BitVec.ofNat 128 a.val)) : Except Hazard (Option Word))
    else _) = _
  split
  · next hfull => rw [hfull, BitVec.signExtend_eq]
  next hpart =>
  have hbelow : a.width.toNat < 128 := by omega
  have htop : (BitVec.ofNat a.width.toNat a.val).msb = a.get (a.width.toNat - 1) := by
    have hlast : a.width.toNat - 1 < a.width.toNat := by omega
    rw [BitVec.msb_eq_getLsbD_last, BitVec.getLsbD_ofNat, decide_eq_true hlast, h.val_eq_value]
    rfl
  rw [h.bit?_eq]
  cases hbit : a.get (a.width.toNat - 1) with
  | true =>
    rw [← or_mask hbelow hlt (htop.trans hbit)]
    show (do return some (_ ||| (← Machine.shifted _ _ _)) : Except Hazard (Option Word)) = _
    rw [Machine.shifted_eq hbelow]
    rfl
  | false =>
    have hplain : BitVec.ofNat 128 a.val = (BitVec.ofNat a.width.toNat a.val).signExtend 128 := by
      rw [BitVec.signExtend_eq_setWidth_of_msb_false (htop.trans hbit)]
      exact (BitVec.setWidth_ofNat_of_le_of_lt (Nat.le_of_lt hbelow) hlt).symm
    rw [← hplain]
    rfl

/-- Reads a string as an integer with a sign, in a word. -/
def readSigned (a : Bits) : Except Hazard (Option Int) := do return (← readWord a).map BitVec.toInt

theorem readSigned_eq (h : a.WellFormed) : readSigned a = .ok a.toSigned? := by
  rw [readSigned, readWord_eq h, h.toSigned?_eq]
  split
  · rfl
  · next hle =>
    refine congrArg (fun n => Except.ok (some n)) ?_
    exact BitVec.toInt_signExtend_of_le (Nat.le_of_not_lt hle)

/-! ## There and back -/

theorem wellFormed_ofInt (width : UInt32) (i : Int) : (ofInt width i).WellFormed :=
  wellFormed_ofNat width _

/-- An integer comes back exactly if it is in the span of the width. -/
theorem toSigned?_ofInt (hwidth : width.toNat ≤ 128) :
    (ofInt width i).toSigned? = some i ↔ InSpan true width.toNat i := by
  have hwf := wellFormed_ofInt width i
  have hroom : ¬ 128 < (ofInt width i).width.toNat := Nat.not_lt_of_le hwidth
  rw [hwf.toSigned?_eq, if_neg hroom, ← hwf.signed_eq, signed_ofInt, Option.some_inj]
  show fit true width.toNat i = i ↔ _
  exact fit_eq_iff

/-- A larger width does not change the reading. -/
theorem WellFormed.reading_signExtend (h : a.WellFormed) (hle : a.width.toNat ≤ width.toNat) :
    (a.signExtend width).reading = a.reading := by
  show (ofInt width a.signed).reading = _
  rw [← (wellFormed_ofInt width a.signed).signed_eq, signed_ofInt, h.signed_eq]
  refine Eq.trans ?_ (BitVec.toInt_signExtend_of_le hle)
  exact (BitVec.toInt_ofInt ..).symm

/-- A smaller one cuts the number. -/
theorem WellFormed.val_signExtend (h : a.WellFormed) (hle : width.toNat ≤ a.width.toNat) :
    (a.signExtend width).val = a.val % 2 ^ width.toNat := by
  rw [signExtend_eq_resize (.inl hle), resize, val_ofNat, h.val_eq_value]

/-- What an integer comes to at a width. -/
structure Written (i : Int) (width : UInt32) : Prop where
  machine : writeWord (.ofInt _ i) width = some (ofInt width i)
  width_eq : (ofInt width i).width = width
  val_eq : ((ofInt width i).val : Int) = i % 2 ^ width.toNat
  back : width.toNat ≤ 128 → ((ofInt width i).toSigned? = some i ↔
    -2 ^ width.toNat ≤ 2 * i ∧ 2 * i < 2 ^ width.toNat)
  beyond : 128 < width.toNat → ofInt width i = (ofInt 128 i).signExtend width

/-- What a string is read as, and what another width makes of it. -/
structure ReadAs (a : Bits) : Prop where
  machineUnsigned : Bench.Careful.unsigned a = .ok (a.toUnsigned?.map (BitVec.ofNat 128))
  unsigned : a.toUnsigned? = some a.val ↔ a.val < 2 ^ 128
  unsigned_none : a.toUnsigned? = none ↔ ¬ a.val < 2 ^ 128
  machineSigned : readSigned a = .ok a.toSigned?
  signed : a.width.toNat ≤ 128 → a.toSigned? = some a.reading
  signed_none : a.toSigned? = none ↔ 128 < a.width.toNat
  extended : ∀ width, a.width.toNat ≤ width.toNat → (a.signExtend width).reading = a.reading
  cut : ∀ width, width.toNat ≤ a.width.toNat →
    (a.signExtend width).val = a.val % 2 ^ width.toNat

theorem written_of_word (hlow : -2 ^ 127 ≤ i) (hhigh : i < 2 ^ 127) (width : UInt32) :
    Written i width where
  machine := writeWord_eq hlow hhigh
  width_eq := rfl
  val_eq := val_ofInt width i
  back := toSigned?_ofInt
  beyond := ofInt_beyond hlow hhigh

theorem WellFormed.readAs (h : a.WellFormed) : a.ReadAs where
  machineUnsigned := Bench.Careful.unsigned_eq h
  unsigned := by
    rw [h.toUnsigned?_eq]
    split <;> simp_all
  unsigned_none := by
    rw [h.toUnsigned?_eq]
    split <;> simp_all
  machineSigned := readSigned_eq h
  signed hle := by rw [h.toSigned?_eq, if_neg (Nat.not_lt_of_le hle)]
  signed_none := by
    rw [h.toSigned?_eq]
    split <;> simp_all
  extended _ := h.reading_signExtend
  cut _ := h.val_signExtend

/-- **Two's complement at every width.**  Every integer of 128 bits is written as its residue at the
    width, and comes back if the width has room for it.  Every string is read as its number, and with a
    sign as a bit vector of its width; neither is there exactly if a word has no room for it. -/
theorem conversions_exact :
    (∀ i : Int, -2 ^ 127 ≤ i → i < 2 ^ 127 → ∀ width, Written i width) ∧
    ∀ a : Bits, a.WellFormed → a.ReadAs :=
  ⟨fun _ => written_of_word, fun _ => WellFormed.readAs⟩

/-- The least integer at its own width, at one bit less, and far beyond it; and a string of 128 bits that
    has its top bit set. -/
theorem leastInteger_exact :
    (ofInt 128 (-2 ^ 127)).toSigned? = some (-2 ^ 127) ∧
    (ofInt 127 (-2 ^ 127)).toSigned? ≠ some (-2 ^ 127) ∧
    (ofInt 200 (-2 ^ 127)).val = 2 ^ 200 - 2 ^ 127 ∧
    (ofNat 128 (2 ^ 127)).toUnsigned? = some (2 ^ 127) ∧
    readSigned (ofNat 128 (2 ^ 127)) = .ok (some (-2 ^ 127)) := by
  obtain ⟨hwritten, hread⟩ := conversions_exact
  have hleast := hwritten (-2 ^ 127) (by decide) (by decide)
  have hwf : (ofNat 128 (2 ^ 127)).WellFormed := wellFormed_ofNat 128 (2 ^ 127)
  have htop := hread _ hwf
  have hval : (ofNat 128 (2 ^ 127)).val = 2 ^ 127 := val_ofNat 128 (2 ^ 127)
  refine ⟨?_, ?_, ?_, ?_, ?_⟩
  · exact ((hleast 128).back (by decide)).2 (by decide)
  · intro hback
    exact absurd (((hleast 127).back (by decide)).1 hback) (by decide)
  · exact Int.natCast_inj.1 ((hleast 200).val_eq.trans (by decide))
  · rw [← hval]
    exact htop.unsigned.2 (by rw [hval]; decide)
  · rw [htop.machineSigned, htop.signed (by decide), reading, hval]
    decide

end Circuitry.Bits
