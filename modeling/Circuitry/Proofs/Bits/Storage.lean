/-
  Bits in words.

  A bit string is stored in words of 64 bits, and it is said twice here what is in them: place by place
  (`Bits.stored`, which looks into one word), and as the number that the places add up to
  (`Bits.val`, the sum of the powers of two at the places that are set).

  1. Both agree with the number that the words stand for (`Bits.stored_eq`, `Bits.val_eq`).  So a fact
     about places becomes one about numbers by `Nat.testBit`, and a fact about numbers one about places.
  2. A string is well formed if it has the words that its width asks for and nothing is stored at or
     above the width (`Bits.wellFormed_iff_stored`).  Then every read of a bit is inside the words, and
     equality is equality of width and number (`WellFormed.bit?_eq`, `WellFormed.eq_iff`).
  3. A change of width keeps the bits that there is room for (`testBit_resize`, `testBit_signExtend`).
-/
import Mathlib.Algebra.BigOperators.Group.Finset.Basic
import Mathlib.Algebra.Order.Floor.Div
import Mathlib.Data.Nat.Bitwise
import Mathlib.Data.Nat.Size
import Mathlib.Tactic.NormNum
import Circuitry.Bits

namespace Circuitry

theorem cast_two_pow (width : Nat) : ((2 ^ width : Nat) : Int) = 2 ^ width := by
  exact_mod_cast rfl

theorem two_pow_pos (width : Nat) : (0 : Int) < 2 ^ width := by
  exact_mod_cast Nat.two_pow_pos width

theorem toNat_emod_two_pow (width : Nat) (i : Int) :
    ((i % 2 ^ width).toNat : Int) = i % 2 ^ width :=
  Int.toNat_of_nonneg (Int.emod_nonneg i (Int.ne_of_gt (two_pow_pos width)))

/-! ## Words -/

namespace Words

/-- A bit of the number is a bit of one word; behind the last word all are clear. -/
theorem testBit_toNat (ws : List UInt64) (i : Nat) :
    (toNat ws).testBit i = (ws[i / 64]?.map (·.toNat.testBit (i % 64))).getD false := by
  induction ws generalizing i with
  | nil => simp [toNat]
  | cons w ws ih =>
    rw [toNat, Nat.add_comm, Nat.testBit_two_pow_mul_add _ (word_lt w)]
    split
    · next hlow =>
      rw [Nat.div_eq_of_lt hlow, Nat.mod_eq_of_lt hlow]
      rfl
    · next hhigh =>
      obtain ⟨j, rfl⟩ := Nat.exists_eq_add_of_le (Nat.le_of_not_lt hhigh)
      rw [Nat.add_sub_cancel_left, ih, Nat.add_comm, Nat.add_div_right _ (by decide),
        Nat.add_mod_right]
      rfl

/-- Lists of one length that stand for one number are equal. -/
theorem eq_of_toNat_eq : ∀ {ws vs : List UInt64}, ws.length = vs.length → toNat ws = toNat vs →
    ws = vs
  | [], [], _, _ => rfl
  | w :: ws, v :: vs, hlength, h => by
    have hw := word_lt w
    have hv := word_lt v
    simp only [toNat, base] at h hw hv
    have hrest : ws = vs := eq_of_toNat_eq (Nat.succ.inj hlength) (by omega)
    rw [hrest, UInt64.toNat_inj.1 (show w.toNat = v.toNat by omega)]

theorem bitLength_eq_size (n : Nat) : bitLength n = n.size :=
  eq_of_forall_ge_iff fun k => (bitLength_le_iff n k).trans Nat.size_le.symm

end Words

/-- The low bits of a number add up to its remainder. -/
theorem sum_testBit (n : Nat) : ∀ count,
    ∑ i ∈ (Finset.range count).filter (n.testBit ·), 2 ^ i = n % 2 ^ count
  | 0 => (Nat.mod_one n).symm
  | count + 1 => by
    have hbit : n / 2 ^ count % 2 = (n.testBit count).toNat := by
      rw [Nat.testBit_eq_decide_div_mod_eq]
      rcases Nat.mod_two_eq_zero_or_one (n / 2 ^ count) with h | h <;> rw [h] <;> rfl
    rw [Finset.range_add_one, Finset.filter_insert, @Nat.pow_succ 2 count, Nat.mod_mul, hbit]
    split
    · next hset =>
      rw [Finset.sum_insert (by simp), sum_testBit n count, hset, Nat.add_comm]
      exact congrArg _ (Nat.mul_one _).symm
    · next hclear =>
      rw [sum_testBit n count, Bool.eq_false_of_not_eq_true hclear]
      rfl

namespace Bits

/-! ## Places -/

/-- Whether the bit at a place is set, in the word that holds it; clear where there is no word. -/
def stored (a : Bits) (i : Nat) : Bool :=
  (a.words[i / 64]?.map (·.toNat.testBit (i % 64))).getD false

/-- The sum of the powers of two at the places that are set. -/
def val (a : Bits) : Nat := ∑ i ∈ (Finset.range (64 * a.words.length)).filter (a.stored ·), 2 ^ i

theorem stored_eq (a : Bits) (i : Nat) : a.stored i = (Words.toNat a.words).testBit i :=
  (Words.testBit_toNat a.words i).symm

theorem val_eq (a : Bits) : a.val = Words.toNat a.words := by
  have hroom : Words.toNat a.words < 2 ^ (64 * a.words.length) := by
    rw [Nat.pow_mul]
    exact Words.toNat_lt a.words
  simp only [val, stored_eq]
  rw [sum_testBit, Nat.mod_eq_of_lt hroom]

/-- The bit at `index`, taken from the word that holds it; nothing if there is no such word. -/
def bit? (a : Bits) (index : Nat) : Option Bool :=
  if index < a.width.toNat then a.words[index / 64]?.map (·.toNat.testBit (index % 64))
  else some false

/-- There are no bits above the width. -/
theorem testBit_value_of_le (a : Bits) {i : Nat} (h : a.width.toNat ≤ i) :
    a.value.testBit i = false := by
  refine Nat.testBit_lt_two_pow (Nat.lt_of_lt_of_le a.value_lt ?_)
  exact Nat.pow_le_pow_right (by decide) h

theorem wordCount_eq (width : UInt32) : wordCount width = width.toNat ⌈/⌉ 64 := by
  rw [Nat.ceilDiv_eq_add_pred_div]
  rfl

/-- The words of the width, and nothing stored at or above it. -/
theorem wellFormed_iff_stored {a : Bits} : a.WellFormed ↔
    a.words.length = a.width.toNat ⌈/⌉ 64 ∧ ∀ i, a.width.toNat ≤ i → a.stored i = false := by
  rw [← wordCount_eq]
  simp only [stored_eq]
  constructor
  · rintro ⟨hlength, hlt⟩
    refine ⟨hlength, fun i hi => Nat.testBit_lt_two_pow (Nat.lt_of_lt_of_le hlt ?_)⟩
    exact Nat.pow_le_pow_right (by decide) hi
  · rintro ⟨hlength, hclear⟩
    exact ⟨hlength, Nat.lt_pow_two_of_testBit _ hclear⟩

namespace WellFormed

variable {a b : Bits}

theorem value_eq (h : a.WellFormed) : a.value = Words.toNat a.words := Nat.mod_eq_of_lt h.value_lt

theorem val_eq_value (h : a.WellFormed) : a.val = a.value := a.val_eq.trans h.value_eq.symm

theorem stored_eq_get (h : a.WellFormed) (i : Nat) : a.stored i = a.get i := by
  rw [stored_eq, get, h.value_eq]

/-- Every read of a bit is inside the words. -/
theorem bit?_eq (h : a.WellFormed) (index : Nat) : a.bit? index = some (a.get index) := by
  unfold bit? get value
  rw [Nat.testBit_mod_two_pow]
  split
  · next hindex =>
    have hword : index / 64 < a.words.length := by
      rw [h.words_length, wordCount]
      omega
    rw [Words.testBit_toNat, List.getElem?_eq_getElem hword]
    simp [hindex]
  · next hindex => simp [hindex]

/-- Equality compares values. -/
theorem eq_iff (ha : a.WellFormed) (hb : b.WellFormed) :
    a = b ↔ a.width = b.width ∧ a.value = b.value := by
  constructor
  · rintro rfl
    exact ⟨rfl, rfl⟩
  · rintro ⟨hwidth, hvalue⟩
    rw [value, value, Nat.mod_eq_of_lt ha.value_lt, Nat.mod_eq_of_lt hb.value_lt] at hvalue
    have hlength : a.words.length = b.words.length := by
      rw [ha.words_length, hb.words_length, hwidth]
    have hwords := Words.eq_of_toNat_eq hlength hvalue
    obtain ⟨width, words⟩ := a
    obtain rfl : width = b.width := hwidth
    obtain rfl : words = b.words := hwords
    rfl

/-- Strings of one width are equal if they have the same bits. -/
theorem ext_get (ha : a.WellFormed) (hb : b.WellFormed) (hwidth : a.width = b.width)
    (h : ∀ i, a.get i = b.get i) : a = b :=
  (ha.eq_iff hb).2 ⟨hwidth, Nat.eq_of_testBit_eq h⟩

end WellFormed

/-! ## Change of width -/

/-- The reading in two's complement is that of a bit vector. -/
theorem signed_eq_toInt (a : Bits) : a.signed = (BitVec.ofNat a.width.toNat a.value).toInt := by
  have hvalue : (BitVec.ofNat a.width.toNat a.value).toNat = a.value := by
    rw [BitVec.toNat_ofNat]
    exact Nat.mod_eq_of_lt a.value_lt
  rw [BitVec.toInt_eq_msb_cond, BitVec.msb_eq_getLsbD_last, BitVec.getLsbD_ofNat, hvalue, signed]
  by_cases hw : a.width.toNat = 0
  · simp [hw]
  · have hlt : a.width.toNat - 1 < a.width.toNat := by omega
    simp [hw, hlt, get]

/-- An integer that has been cut is read as the one next to zero that is cut alike. -/
theorem signed_ofInt (width : UInt32) (i : Int) :
    (ofInt width i).signed = Int.bmod i (2 ^ width.toNat) := by
  rw [signed_eq_toInt, ofInt, value_ofNat, width_ofNat, BitVec.toInt_ofNat', Int.natCast_emod,
    toNat_emod_two_pow, ← cast_two_pow, Int.emod_emod, Int.emod_bmod]

/-- The bits of an extended string: its own, and above them copies of the top one. -/
theorem testBit_signExtend (a : Bits) {span : UInt32} {i : Nat} (hi : i < span.toNat) :
    (a.signExtend span).value.testBit i =
      if i < a.width.toNat then a.value.testBit i
      else decide (a.width.toNat ≠ 0) && a.value.testBit (a.width.toNat - 1) := by
  have hvalue : (a.signExtend span).value =
      ((BitVec.ofNat a.width.toNat a.value).signExtend span.toNat).toNat := by
    rw [signExtend, ofInt, value_ofNat, signed_eq_toInt, BitVec.signExtend, BitVec.toNat_ofInt]
    have hpos : (0 : Int) < 2 ^ span.toNat := by exact_mod_cast Nat.two_pow_pos span.toNat
    generalize (BitVec.ofNat a.width.toNat a.value).toInt = n
    have hlt : (n % 2 ^ span.toNat).toNat < 2 ^ span.toNat := by
      rw [Int.toNat_lt (Int.emod_nonneg n (Int.ne_of_gt hpos))]
      exact_mod_cast Int.emod_lt_of_pos n hpos
    rw [Nat.mod_eq_of_lt hlt]
    norm_cast
  rw [hvalue, BitVec.testBit_toNat, BitVec.getLsbD_signExtend, BitVec.getLsbD_ofNat,
    BitVec.msb_eq_getLsbD_last, BitVec.getLsbD_ofNat]
  by_cases hw : i < a.width.toNat
  · simp [hi, hw]
  · by_cases hzero : a.width.toNat = 0
    · simp [hzero]
    · have hlt : a.width.toNat - 1 < a.width.toNat := by omega
      simp [hi, hw, hzero, hlt]

theorem testBit_resize (a : Bits) {span : UInt32} {i : Nat} (hi : i < span.toNat) :
    (a.resize span).value.testBit i = a.value.testBit i := by
  rw [resize, value_ofNat, Nat.testBit_mod_two_pow]
  simp [hi]

end Bits

end Circuitry
