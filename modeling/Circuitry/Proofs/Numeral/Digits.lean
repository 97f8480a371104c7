/-
  Digits, and the numbers that they spell.

  A digit has its value by its place among the digits, which are listed here in either letter case
  (`IsDigit`).  A string of digits spells the sum of its digits times powers of the radix, the last digit
  counting once (`Nat.ofDigits` of the values from the last one on).

  Digits are read one after the other into words, with no bound on how many.  Each makes the number so
  far larger by a factor of the radix and by its own value, and that is exact
  (`Words.toNat_mulAdd`).  So by induction on the digits a string is read as the number that it spells
  (`Bits.ofDigits?_of_digits`), and is not read exactly if it is empty or has some character that is no
  digit (`Bits.ofDigits?_eq_none_iff`).
-/
import Mathlib.Data.Nat.Digits.Defs
import Mathlib.Tactic.IntervalCases
import Circuitry.Numeral
import Circuitry.Proofs.Bits.Storage

namespace Circuitry

/-! ## Digits -/

/-- The digits in the order of their values. -/
def lowerDigits : List Char := "0123456789abcdefghijklmnopqrstuvwxyz".toList

/-- The same in capital letters. -/
def upperDigits : List Char := "0123456789ABCDEFGHIJKLMNOPQRSTUVWXYZ".toList

/-- The character is a digit of the radix, with this value. -/
structure IsDigit (radix : Nat) (c : Char) (v : Nat) : Prop where
  lt : v < radix
  listed : lowerDigits[v]? = some c ∨ upperDigits[v]? = some c

/-- Reading a digit is looking it up in the lists. -/
theorem digitValue?_eq_some_iff {c : Char} {v : Nat} :
    digitValue? c = some v ↔ lowerDigits[v]? = some c ∨ upperDigits[v]? = some c := by
  have hlisted : ∀ v < 36, ∀ c, lowerDigits[v]? = some c ∨ upperDigits[v]? = some c →
      digitValue? c = some v := by
    intro v hv
    interval_cases v <;> (rintro c (h | h) <;> cases h <;> rfl)
  -- the three runs of digits in the order of characters
  have hzero : ∀ k < 10, lowerDigits[k]? = some (Char.ofNat (48 + k)) := by decide
  have hlower : ∀ k < 26, lowerDigits[k + 10]? = some (Char.ofNat (97 + k)) := by decide
  have hupper : ∀ k < 26, upperDigits[k + 10]? = some (Char.ofNat (65 + k)) := by decide
  have hplace : ∀ low, low ≤ c.toNat → Char.ofNat (low + (c.toNat - low)) = c := fun low hlow => by
    rw [Nat.add_sub_cancel' hlow, Char.ofNat_toNat]
  constructor
  · intro h
    unfold digitValue? at h
    split at h
    · next hrange =>
      have hlow : 48 ≤ c.toNat := hrange.1
      have hhigh : c.toNat ≤ 57 := hrange.2
      obtain rfl : c.toNat - 48 = v := Option.some.inj h
      exact .inl ((hzero _ (by omega)).trans (congrArg some (hplace 48 hlow)))
    split at h
    · next hrange =>
      have hlow : 97 ≤ c.toNat := hrange.1
      have hhigh : c.toNat ≤ 122 := hrange.2
      obtain rfl : c.toNat - 97 + 10 = v := Option.some.inj h
      exact .inl ((hlower _ (by omega)).trans (congrArg some (hplace 97 hlow)))
    split at h
    · next hrange =>
      have hlow : 65 ≤ c.toNat := hrange.1
      have hhigh : c.toNat ≤ 90 := hrange.2
      obtain rfl : c.toNat - 65 + 10 = v := Option.some.inj h
      exact .inr ((hupper _ (by omega)).trans (congrArg some (hplace 65 hlow)))
    · cases h
  · intro h
    have hv : v < 36 := by
      rcases h with h | h
      · exact (List.getElem?_eq_some_iff.1 h).1
      · exact (List.getElem?_eq_some_iff.1 h).1
    exact hlisted v hv c h

theorem digitIn?_eq_some_iff {radix : Nat} {c : Char} {v : Nat} :
    digitIn? radix c = some v ↔ IsDigit radix c v := by
  rw [digitIn?, Option.filter_eq_some_iff, digitValue?_eq_some_iff, decide_eq_true_iff]
  exact ⟨fun h => ⟨h.2, h.1⟩, fun h => ⟨h.listed, h.lt⟩⟩

theorem digitIn?_eq_none_iff {radix : Nat} {c : Char} :
    digitIn? radix c = none ↔ ∀ v, ¬ IsDigit radix c v := by
  simp only [Option.eq_none_iff_forall_ne_some, ne_eq, digitIn?_eq_some_iff]

/-! ## Strings of digits -/

section Strings

variable {radix : Nat} {cs : List Char} {vs : List Nat}

/-- Either all characters are digits, or some character is not. -/
theorem digits_or_not (radix : Nat) (cs : List Char) :
    (∃ vs, List.Forall₂ (IsDigit radix) cs vs) ∨ ∃ c ∈ cs, ∀ v, ¬ IsDigit radix c v := by
  induction cs with
  | nil => exact .inl ⟨[], .nil⟩
  | cons c cs ih =>
    by_cases hc : ∃ v, IsDigit radix c v
    · obtain ⟨v, hv⟩ := hc
      rcases ih with ⟨vs, hvs⟩ | ⟨d, hd, hbad⟩
      · exact .inl ⟨v :: vs, .cons hv hvs⟩
      · exact .inr ⟨d, List.mem_cons_of_mem c hd, hbad⟩
    · exact .inr ⟨c, List.mem_cons_self, not_exists.1 hc⟩

/-- The number that digits spell grows by the radix with each digit. -/
theorem exists_digitWords? (hradix : radix < Words.base) (ws : List UInt64)
    (h : List.Forall₂ (IsDigit radix) cs vs) : ∃ ws', digitWords? radix ws cs = some ws' ∧
      Words.toNat ws' = Words.toNat ws * radix ^ vs.length + Nat.ofDigits radix vs.reverse := by
  induction h generalizing ws with
  | nil => exact ⟨ws, rfl, by simp⟩
  | @cons c v cs vs hc _ ih =>
    have hexact := Words.toNat_mulAdd radix hradix v ws (Nat.lt_trans hc.lt hradix)
    obtain ⟨ws', hws', hvalue⟩ := ih (Words.mulAdd radix v ws)
    refine ⟨ws', ?_, ?_⟩
    · rw [digitWords?, digitIn?_eq_some_iff.2 hc]
      exact hws'
    · rw [hvalue, hexact, List.reverse_cons, Nat.ofDigits_append, List.length_reverse,
        Nat.ofDigits_singleton, List.length_cons, @Nat.pow_succ radix]
      ring

theorem digitWords?_eq_none (ws : List UInt64) (h : ∃ c ∈ cs, ∀ v, ¬ IsDigit radix c v) :
    digitWords? radix ws cs = none := by
  obtain ⟨bad, hbad, hno⟩ := h
  induction cs generalizing ws with
  | nil => cases hbad
  | cons c cs ih =>
    rw [digitWords?]
    rcases List.mem_cons.1 hbad with rfl | hbad
    · rw [digitIn?_eq_none_iff.2 hno]
      rfl
    · cases digitIn? radix c with
      | none => rfl
      | some d => exact ih _ hbad

/-- What digits spell keeps below the power of the radix that has one more of them. -/
theorem spelled_lt (hradix : 1 < radix) (h : List.Forall₂ (IsDigit radix) cs vs) :
    Nat.ofDigits radix vs.reverse < radix ^ vs.length := by
  have hdigits : ∀ v ∈ vs, v < radix := by
    induction h with
    | nil => nofun
    | cons hc _ ih => exact List.forall_mem_cons.2 ⟨hc.lt, ih⟩
  have hlt := Nat.ofDigits_lt_base_pow_length hradix fun v hv => hdigits v (List.mem_reverse.1 hv)
  rwa [List.length_reverse] at hlt

namespace Bits

/-- Digits are read as the number that they spell, in the least width for it. -/
theorem ofDigits?_of_digits (hradix : radix < Words.base) (hsome : cs ≠ [])
    (h : List.Forall₂ (IsDigit radix) cs vs) : ofDigits? radix cs =
      some (ofNat (UInt32.ofNat (max 1 (Nat.ofDigits radix vs.reverse).size))
        (Nat.ofDigits radix vs.reverse)) := by
  obtain ⟨ws, hws, hvalue⟩ := exists_digitWords? hradix [0] h
  have hzero : Words.toNat [0] = 0 := rfl
  rw [hzero, Nat.zero_mul, Nat.zero_add] at hvalue
  rw [ofDigits?, if_neg hsome, hws, ← hvalue, ← Words.bitLength_eq_size]
  rfl

/-- A string is not read exactly if it is empty or has some character that is no digit. -/
theorem ofDigits?_eq_none_iff (hradix : radix < Words.base) :
    ofDigits? radix cs = none ↔ cs = [] ∨ ∃ c ∈ cs, ∀ v, ¬ IsDigit radix c v := by
  constructor
  · intro h
    refine or_iff_not_imp_left.2 fun hsome => ?_
    rcases digits_or_not radix cs with ⟨vs, hvs⟩ | hbad
    · rw [ofDigits?_of_digits hradix hsome hvs] at h
      cases h
    · exact hbad
  · rintro (rfl | hbad)
    · rfl
    · unfold ofDigits?
      split
      · rfl
      · rw [digitWords?_eq_none _ hbad]
        rfl

end Bits

end Strings

end Circuitry
