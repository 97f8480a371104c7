/-
  Digits that are read on a machine.

  Reading a numeral makes a number larger, digit by digit, and a number has no bound.  A machine holds it
  in words of 64 bits and multiplies in 128 bits.  This file reads digits the way a machine does: every
  product, every sum and every word that is pushed is checked for its size (`fitting?`), and the string is
  made at the end by the loops over words and places.

  1. The carry that a word hands on is less than a word, since neither the word nor the radix is more
     than a word (`Words.carry_lt`).  So by induction on the words no check fails
     (`Words.mulAddFitting?_eq`), and by induction on the digits none ever does (`digitWordsFitting?_eq`).
  2. The words that are left have room for the number, and the bits up to the highest one that is set are
     the least width for it (`isLeast_width`).

  What is read is the number that the digits spell, however many there are, as long as the room in the
  words can be counted in 32 bits (`Bits.digits_exact`).
-/
import Mathlib.Order.Bounds.Basic
import Circuitry.Proofs.Bits.Number
import Circuitry.Proofs.Numeral.Digits

namespace Circuitry

/-- A number of so many bits; nothing if it takes more. -/
def fitting? (bits n : Nat) : Option Nat := if n < 2 ^ bits then some n else none

theorem fitting?_eq {bits n : Nat} (h : n < 2 ^ bits) : fitting? bits n = some n := if_pos h

namespace Words

/-- `mulAdd` with every product and every sum inside 128 bits, and the last carry inside a word. -/
def mulAddFitting? (factor : Nat) : Nat → List UInt64 → Option (List UInt64)
  | carry, [] =>
    if carry = 0 then some [] else (fitting? 64 carry).map fun top => [UInt64.ofNat top]
  | carry, w :: ws => do
    let product ← fitting? 128 (w.toNat * factor)
    let acc ← fitting? 128 (product + carry)
    let rest ← mulAddFitting? factor (acc / base) ws
    return UInt64.ofNat acc :: rest

/-- No check fails on the way through the words. -/
theorem mulAddFitting?_eq {factor carry : Nat} (hfactor : factor < base) (hcarry : carry < base)
    (ws : List UInt64) : mulAddFitting? factor carry ws = some (mulAdd factor carry ws) := by
  induction ws generalizing carry with
  | nil =>
    rw [mulAddFitting?, mulAdd]
    split
    · rfl
    · rw [fitting?_eq hcarry]
      rfl
  | cons w ws ih =>
    have hsum : w.toNat * factor + carry < 2 ^ 128 := product_lt hfactor hcarry w
    have hproduct : w.toNat * factor < 2 ^ 128 := Nat.lt_of_le_of_lt (Nat.le_add_right _ _) hsum
    rw [mulAddFitting?, fitting?_eq hproduct, Option.bind_eq_bind, Option.bind_some,
      fitting?_eq hsum, Option.bind_some, ih (carry_lt hfactor hcarry w)]
    rfl

end Words

section Digits

variable {radix : Nat} {cs : List Char} {vs : List Nat}

/-- The words of a numeral, with checked arithmetic.  What is missing outside is a check that failed, and
    inside it is a character that is no digit. -/
def digitWordsFitting? (radix : Nat) : List UInt64 → List Char → Option (Option (List UInt64))
  | ws, [] => some (some ws)
  | ws, c :: cs =>
    match digitIn? radix c with
    | none => some none
    | some v => (Words.mulAddFitting? radix v ws).bind fun ws => digitWordsFitting? radix ws cs

/-- No check fails on the way through the digits: a digit is less than the radix, and is the first
    carry. -/
theorem digitWordsFitting?_eq (hradix : radix < Words.base) (cs : List Char) (ws : List UInt64) :
    digitWordsFitting? radix ws cs = some (digitWords? radix ws cs) := by
  induction cs generalizing ws with
  | nil => rfl
  | cons c cs ih =>
    rw [digitWordsFitting?, digitWords?]
    cases hv : digitIn? radix c with
    | none => rfl
    | some v =>
      have hlt : v < Words.base := Nat.lt_trans (digitIn?_eq_some_iff.1 hv).lt hradix
      show (Words.mulAddFitting? radix v ws).bind _ = _
      rw [Words.mulAddFitting?_eq hradix hlt, Option.bind_some, ih]
      rfl

namespace Bits

/-- The room in the words of a numeral can be counted in 32 bits. -/
def ShortDigits (radix : Nat) (cs : List Char) : Prop :=
  ∀ ws, digitWords? radix [0] cs = some ws → 64 * ws.length < 2 ^ 32

/-- Reads digits with checked arithmetic, and makes the string by loops: its width is read off the highest
    word that is not zero, and its bits are copied one after the other. -/
def ofDigitsFitting? (radix : Nat) (cs : List Char) : Option (Option Bits) :=
  if cs = [] then some none
  else do
    match ← digitWordsFitting? radix [0] cs with
    | none => return none
    | some ws =>
      let room ← fitting? 32 (64 * ws.length)
      let raw : Bits := ⟨UInt32.ofNat room, ws⟩
      let width := UInt32.ofNat (max 1 (Words.topBit ws))
      let a ← setWhere raw.get 0 (min width.toNat raw.width.toNat) (zero width)
      return some a

/-- The words of a numeral are a string of all the bits that there is room for. -/
theorem value_raw {ws : List UInt64} (hroom : 64 * ws.length < 2 ^ 32) :
    (⟨UInt32.ofNat (64 * ws.length), ws⟩ : Bits).value = Words.toNat ws := by
  have hwidth : (UInt32.ofNat (64 * ws.length)).toNat = 64 * ws.length := by
    rw [UInt32.toNat_ofNat', Nat.mod_eq_of_lt hroom]
  have hlt : Words.toNat ws < 2 ^ (64 * ws.length) := by
    rw [Nat.pow_mul]
    exact Words.toNat_lt ws
  rw [value, hwidth, Nat.mod_eq_of_lt hlt]

theorem ofDigitsFitting?_eq (hradix : radix < Words.base) (hshort : ShortDigits radix cs) :
    ofDigitsFitting? radix cs = some (ofDigits? radix cs) := by
  unfold ofDigitsFitting? ofDigits?
  split
  · rfl
  · rw [digitWordsFitting?_eq hradix]
    cases hws : digitWords? radix [0] cs with
    | none => rfl
    | some ws =>
      have hroom := hshort ws hws
      have hcopied := resize_loop ⟨UInt32.ofNat (64 * ws.length), ws⟩
        (UInt32.ofNat (max 1 (Words.topBit ws)))
      rw [resize, value_raw hroom] at hcopied
      simp only [Option.bind_eq_bind, Option.bind_some, fitting?_eq hroom, hcopied, Option.map_some,
        Words.bitLength_toNat]
      rfl

/-- A number in the width that is worked out for it keeps its value, and no width of at least one bit is
    less. -/
theorem isLeast_width {n room : Nat} (hn : n < 2 ^ room) (hroom : room < 2 ^ 32) :
    (ofNat (UInt32.ofNat (max 1 n.size)) n).val = n ∧
      IsLeast {width | 1 ≤ width ∧ n < 2 ^ width}
        (ofNat (UInt32.ofNat (max 1 n.size)) n).width.toNat := by
  have hsize : n.size ≤ room := Nat.size_le.2 hn
  have hwidth : (UInt32.ofNat (max 1 n.size)).toNat = max 1 n.size := by
    rw [UInt32.toNat_ofNat', Nat.mod_eq_of_lt (by omega)]
  have hfits : n < 2 ^ max 1 n.size := Nat.size_le.1 (Nat.le_max_right 1 n.size)
  constructor
  · rw [val_ofNat, hwidth, Nat.mod_eq_of_lt hfits]
  · rw [width_ofNat, hwidth]
    constructor
    · exact ⟨Nat.le_max_left 1 n.size, hfits⟩
    · rintro width ⟨hone, hlt⟩
      exact Nat.max_le.2 ⟨hone, Nat.size_le.2 hlt⟩

/-- **Digits of any length.**  A string is not read exactly if it is empty or has some character that is
    no digit of the radix; otherwise it is read as the number that its digits spell, in the least width of
    at least one bit.  On a machine no product, sum or carry is too large for the words that hold them,
    and the loops come to the same string. -/
theorem digits_exact (hradix : radix ≤ 36) (cs : List Char) (hshort : ShortDigits radix cs) :
    (ofDigits? radix cs = none ↔ cs = [] ∨ ∃ c ∈ cs, ∀ v, ¬ IsDigit radix c v) ∧
    (∀ vs, cs ≠ [] → List.Forall₂ (IsDigit radix) cs vs → ∃ a, ofDigits? radix cs = some a ∧
      a.WellFormed ∧ a.val = Nat.ofDigits radix vs.reverse ∧
      IsLeast {width | 1 ≤ width ∧ Nat.ofDigits radix vs.reverse < 2 ^ width} a.width.toNat) ∧
    ofDigitsFitting? radix cs = some (ofDigits? radix cs) := by
  have hbase : radix < Words.base := Nat.lt_of_le_of_lt hradix (by decide)
  refine ⟨ofDigits?_eq_none_iff hbase, ?_, ofDigitsFitting?_eq hbase hshort⟩
  intro vs hsome hdigits
  obtain ⟨ws, hws, hvalue⟩ := exists_digitWords? hbase [0] hdigits
  have hlt : Nat.ofDigits radix vs.reverse < 2 ^ (64 * ws.length) := by
    have hroom := Words.toNat_lt ws
    rw [hvalue, show Words.toNat [0] = 0 from rfl, Nat.zero_mul, Nat.zero_add] at hroom
    rwa [Nat.pow_mul]
  obtain ⟨hval, hleast⟩ := isLeast_width hlt (hshort ws hws)
  exact ⟨_, ofDigits?_of_digits hbase hsome hdigits, wellFormed_ofNat _ _, hval, hleast⟩

/-- Digits of base 36 in either letter case, which carry into a third word. -/
theorem thirdWord_exact :
    let cs := "zZ0123456789abcdefghijABCDEFGHIJ".toList
    ∃ a, ofDigits? 36 cs = some a ∧ ofDigitsFitting? 36 cs = some (some a) ∧
      a.words.length = 3 ∧ a.width.toNat = 166 := by
  intro cs
  have hshort : ShortDigits 36 cs := by
    intro ws hws
    have hlength : (digitWords? 36 [0] cs).map List.length = some 3 := by decide +kernel
    rw [hws] at hlength
    rw [Option.some.inj hlength]
    decide
  obtain ⟨-, -, hmachine⟩ := digits_exact (by decide) cs hshort
  have hread : (ofDigits? 36 cs).map (fun a => (a.words.length, a.width.toNat)) = some (3, 166) := by
    decide +kernel
  obtain ⟨a, ha, hsizes⟩ := Option.map_eq_some_iff.1 hread
  obtain ⟨hwords, hwidth⟩ := Prod.mk.inj hsizes
  exact ⟨a, ha, ha ▸ hmachine, hwords, hwidth⟩

end Bits

end Digits

end Circuitry
