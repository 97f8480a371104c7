/-
  What operators make of the integers that their operands stand for.

  Each operator is said in the width that is inferred for it.

  1. Sums, differences, products and remainders are exact there, and quotients up to the one that is out
     of range; a difference without a sign wraps around.
  2. Comparisons compare the integers, as long as both operands are of one kind.
  3. A left shift is a product and a right shift a quotient rounded down, with a sign or without; a
     shift of raw bits by a value is a product of raw bits only.
  4. The bitwise operators, concatenation and reductions are said bit by bit.
-/
import Mathlib.Algebra.Order.Ring.Abs
import Mathlib.Data.Nat.Bitwise
import Circuitry.Proofs.Operator.Numbers

namespace Circuitry

/-! ## Spans -/

section Spans

variable {signed : Bool} {u v : Nat} {i j : Int}

theorem pow_le_pow (h : u ≤ v) : (2 : Int) ^ u ≤ 2 ^ v := by
  exact_mod_cast Nat.pow_le_pow_right (by decide) h

theorem pow_succ_eq (v : Nat) : (2 : Int) ^ (v + 1) = 2 * 2 ^ v := by
  exact_mod_cast Nat.pow_succ'

theorem pow_add_eq (u v : Nat) : (2 : Int) ^ (u + v) = 2 ^ u * 2 ^ v := by
  exact_mod_cast Nat.pow_add 2 u v

theorem InSpan.mono (h : InSpan signed u i) (huv : u ≤ v) : InSpan signed v i := by
  have hpow := pow_le_pow huv
  cases signed with
  | true =>
    obtain ⟨hlow, hhigh⟩ := h
    exact ⟨by omega, by omega⟩
  | false => exact ⟨h.1, Int.lt_of_lt_of_le h.2 hpow⟩

/-- A sum has room in one more bit. -/
theorem InSpan.add (hi : InSpan signed u i) (hj : InSpan signed v j) :
    InSpan signed (max u v + 1) (i + j) := by
  have hi := hi.mono (Nat.le_max_left u v)
  have hj := hj.mono (Nat.le_max_right u v)
  have hsucc := pow_succ_eq (max u v)
  cases signed with
  | true =>
    obtain ⟨hi₁, hi₂⟩ := hi
    obtain ⟨hj₁, hj₂⟩ := hj
    exact ⟨by omega, by omega⟩
  | false =>
    obtain ⟨hi₁, hi₂⟩ := hi
    obtain ⟨hj₁, hj₂⟩ := hj
    exact ⟨by omega, by omega⟩

/-- A difference with a sign has room in one more bit. -/
theorem InSpan.sub (hi : InSpan true u i) (hj : InSpan true v j) :
    InSpan true (max u v + 1) (i - j) := by
  obtain ⟨hi₁, hi₂⟩ := hi.mono (Nat.le_max_left u v)
  obtain ⟨hj₁, hj₂⟩ := hj.mono (Nat.le_max_right u v)
  have hsucc := pow_succ_eq (max u v)
  exact ⟨by omega, by omega⟩

/-- A product has room in the bits of both. -/
theorem InSpan.mul (hi : InSpan signed u i) (hj : InSpan signed v j) :
    InSpan signed (u + v) (i * j) := by
  have hu := two_pow_pos u
  have hv := two_pow_pos v
  cases signed with
  | true =>
    obtain ⟨hi₁, hi₂⟩ := hi
    obtain ⟨hj₁, hj₂⟩ := hj
    have habs : |2 * i| * |2 * j| ≤ 2 ^ u * 2 ^ v :=
      mul_le_mul (abs_le.2 ⟨hi₁, hi₂.le⟩) (abs_le.2 ⟨hj₁, hj₂.le⟩) (abs_nonneg _) hu.le
    rw [← abs_mul, show 2 * i * (2 * j) = 4 * (i * j) by ring] at habs
    obtain ⟨hlow, hhigh⟩ := abs_le.1 habs
    have hpos : (0 : Int) < 2 ^ u * 2 ^ v := Int.mul_pos hu hv
    show -2 ^ (u + v) ≤ 2 * (i * j) ∧ 2 * (i * j) < 2 ^ (u + v)
    rw [pow_add_eq]
    exact ⟨by omega, by omega⟩
  | false =>
    obtain ⟨hi₁, hi₂⟩ := hi
    obtain ⟨hj₁, hj₂⟩ := hj
    refine ⟨Int.mul_nonneg hi₁ hj₁, ?_⟩
    rw [pow_add_eq]
    exact mul_lt_mul'' hi₂ hj₂ hi₁ hj₁

/-- A remainder is no farther from zero than what is divided. -/
theorem InSpan.tmod (hi : InSpan signed u i) (j : Int) : InSpan signed u (i.tmod j) := by
  have habs : (i.tmod j).natAbs ≤ i.natAbs := by
    rw [Int.natAbs_tmod]
    exact Nat.mod_le _ _
  have hpos : 0 ≤ i → 0 ≤ i.tmod j := Int.tmod_nonneg j
  have hneg : i ≤ 0 → i.tmod j ≤ 0 := by
    intro h
    have hflip := Int.tmod_nonneg j (show 0 ≤ -i by omega)
    rw [Int.neg_tmod] at hflip
    omega
  cases signed with
  | true =>
    obtain ⟨hi₁, hi₂⟩ := hi
    exact ⟨by omega, by omega⟩
  | false =>
    obtain ⟨hi₁, hi₂⟩ := hi
    exact ⟨by omega, by omega⟩

/-- A quotient rounded down is no farther from zero. -/
theorem InSpan.ediv (hi : InSpan signed u i) (n : Nat) : InSpan signed u (i / 2 ^ n) := by
  have hn := two_pow_pos n
  have hpos : 0 ≤ i → 0 ≤ i / 2 ^ n ∧ i / 2 ^ n ≤ i := fun h =>
    ⟨Int.ediv_nonneg h hn.le, Int.ediv_le_self _ h⟩
  have hneg : i < 0 → i ≤ i / 2 ^ n ∧ i / 2 ^ n < 0 := fun h =>
    ⟨Int.le_ediv_of_mul_le hn (mul_le_of_one_le_right h.le hn), Int.ediv_neg_of_neg_of_pos h hn⟩
  cases signed with
  | true =>
    obtain ⟨hi₁, hi₂⟩ := hi
    exact ⟨by omega, by omega⟩
  | false =>
    obtain ⟨hi₁, hi₂⟩ := hi
    exact ⟨by omega, by omega⟩

/-- A product by a power has room in so many more bits. -/
theorem InSpan.shift (hi : InSpan signed u i) (n : Nat) : InSpan signed (u + n) (i * 2 ^ n) := by
  have hn := two_pow_pos n
  have hpow := pow_add_eq u n
  cases signed with
  | true =>
    obtain ⟨hi₁, hi₂⟩ := hi
    have hlow : -2 ^ u * 2 ^ n ≤ 2 * i * 2 ^ n := Int.mul_le_mul_of_nonneg_right hi₁ hn.le
    have hhigh : 2 * i * 2 ^ n < 2 ^ u * 2 ^ n := Int.mul_lt_mul_of_pos_right hi₂ hn
    rw [mul_assoc] at hlow hhigh
    refine ⟨?_, ?_⟩
    · rw [hpow]
      rw [neg_mul] at hlow
      exact hlow
    · rw [hpow]
      exact hhigh
  | false =>
    obtain ⟨hi₁, hi₂⟩ := hi
    refine ⟨Int.mul_nonneg hi₁ hn.le, ?_⟩
    rw [hpow]
    exact Int.mul_lt_mul_of_pos_right hi₂ hn

end Spans

namespace Operator

variable {p q c : Value} {width : Nat}

/-! ## Arithmetic -/

section Arithmetic

variable (hwidth : width ≤ Value.maxWidth)

include hwidth

theorem apply_add : apply .add [p, q] width = cut width (p.number + q.number) :=
  cut_congr hwidth (p.reading_modEq.add q.reading_modEq)

theorem apply_sub : apply .sub [p, q] width = cut width (p.number - q.number) :=
  cut_congr hwidth (p.reading_modEq.sub q.reading_modEq)

theorem apply_mul : apply .mul [p, q] width = cut width (p.number * q.number) :=
  cut_congr hwidth (p.reading_modEq.mul q.reading_modEq)

theorem apply_pad (n : UInt32) : apply (.pad n) [p] width = cut width p.number :=
  cut_congr hwidth p.reading_modEq

/-- A selection takes one of its branches, and needs no more than its truth of the condition. -/
theorem apply_mux :
    apply .mux [c, p, q] width = cut width (if c.isTrue then p.number else q.number) := by
  show cut width (if c.isTrue then p.reading else q.reading) = _
  split
  · exact cut_congr hwidth p.reading_modEq
  · exact cut_congr hwidth q.reading_modEq

end Arithmetic

/-- Two values of one kind are both signed, and read so, or both taken as they are. -/
theorem numbers_eq (hsigned : p.signed = q.signed) :
    (p.signed = true ∧ p.number = p.reading ∧ q.number = q.reading) ∨
      (p.signed = false ∧ p.number = p.raw ∧ q.number = q.raw) := by
  cases hp : p.signed with
  | true =>
    exact .inl ⟨rfl, (Value.reading_of_signed hp).symm,
      (Value.reading_of_signed (hsigned ▸ hp)).symm⟩
  | false =>
    exact .inr ⟨rfl, Value.number_of_unsigned hp, Value.number_of_unsigned (hsigned ▸ hp)⟩

/-- A quotient is truncated toward zero, and a quotient by zero is zero. -/
theorem apply_div (hq : q.Fits) (hsigned : p.signed = q.signed) :
    apply .div [p, q] width = cut width (p.number.tdiv q.number) := by
  show cut width (quotient p q) = _
  unfold quotient
  split
  · next hzero => rw [hq.raw_eq_zero_iff.1 hzero, Int.tdiv_zero]
  · obtain ⟨hp, hpn, hqn⟩ | ⟨hp, hpn, hqn⟩ := numbers_eq hsigned
    · rw [if_pos hp, hpn, hqn]
    · rw [if_neg (by simp [hp]), hpn, hqn]
      rfl

theorem apply_rem (hq : q.Fits) (hsigned : p.signed = q.signed) :
    apply .rem [p, q] width =
      cut width (if q.number = 0 then 0 else p.number.tmod q.number) := by
  show cut width (remainder p q) = _
  unfold remainder
  by_cases hzero : q.raw = 0
  · rw [if_pos hzero, if_pos (hq.raw_eq_zero_iff.1 hzero)]
  · rw [if_neg hzero, if_neg (mt hq.raw_eq_zero_iff.2 hzero)]
    obtain ⟨hp, hpn, hqn⟩ | ⟨hp, hpn, hqn⟩ := numbers_eq hsigned
    · rw [if_pos hp, hpn, hqn]
    · rw [if_neg (by simp [hp]), hpn, hqn]
      rfl

/-! ## Comparisons -/

theorem less_eq (hsigned : p.signed = q.signed) : less p q = decide (p.number < q.number) := by
  unfold less
  obtain ⟨hp, hpn, hqn⟩ | ⟨hp, hpn, hqn⟩ := numbers_eq hsigned
  · rw [← hsigned, hp, hpn, hqn]
    rfl
  · rw [hp, hpn, hqn]
    simp

theorem same_eq (hsigned : p.signed = q.signed) : same p q = decide (p.number = q.number) := by
  unfold same
  obtain ⟨hp, hpn, hqn⟩ | ⟨hp, hpn, hqn⟩ := numbers_eq hsigned
  · rw [← hsigned, hp, hpn, hqn]
    exact Bool.beq_eq_decide_eq _ _
  · rw [hp, hpn, hqn]
    simp [Bool.beq_eq_decide_eq]

/-! ## Shifts -/

/-- What is shifted out of a result is not missed in it. -/
theorem cut_shiftLeft (hwidth : width ≤ Value.maxWidth) (n places : Nat) :
    cut width (shiftLeft n places : Nat) = cut width (n * 2 ^ places : Nat) := by
  rw [cut_natCast, cut_natCast, shiftLeft]
  split
  · next hfar =>
    have hdvd : 2 ^ width ∣ n * 2 ^ places :=
      Nat.dvd_mul_left_of_dvd (Nat.pow_dvd_pow 2 (Nat.le_trans hwidth hfar)) n
    rw [Nat.zero_mod, Nat.mod_eq_zero_of_dvd hdvd]
  · rw [Nat.shiftLeft_eq]

/-- An integer of at most 128 bits is shifted as far by 127 places as by more. -/
theorem ediv_min {i : Int} (hspan : InSpan true width i) (hwidth : width ≤ Value.maxWidth)
    (places : Nat) : i / 2 ^ min places (Value.maxWidth - 1) = i / 2 ^ places := by
  obtain ⟨hlow, hhigh⟩ := hspan.mono hwidth
  by_cases hnear : places ≤ Value.maxWidth - 1
  · rw [Nat.min_eq_left hnear]
  rw [Nat.min_eq_right (Nat.le_of_not_le hnear)]
  have hfar := pow_le_pow (Nat.le_of_not_le hnear)
  have hspan : -2 ^ (Value.maxWidth - 1) ≤ i ∧ i < 2 ^ (Value.maxWidth - 1) := by
    have htop := pow_succ_eq (Value.maxWidth - 1)
    simp only [Value.maxWidth] at *
    omega
  by_cases hneg : i < 0
  · rw [Int.ediv_eq_neg_one_of_neg_of_le hneg (by omega),
      Int.ediv_eq_neg_one_of_neg_of_le hneg (by omega)]
  · rw [Int.ediv_eq_zero_of_lt (by omega) hspan.2, Int.ediv_eq_zero_of_lt (by omega) (by omega)]

/-- A right shift divides, and rounds down. -/
theorem shiftRightSigned_eq (hp : p.Fits) (places : Nat) :
    shiftRightSigned p places = p.number / 2 ^ places := by
  unfold shiftRightSigned
  cases hsigned : p.signed with
  | true =>
    have hspan : InSpan true p.width p.number := by
      have hspan := hp.inSpan
      rwa [hsigned] at hspan
    rw [if_pos rfl, Value.reading_of_signed hsigned, Int.shiftRight_eq_div_pow, cast_two_pow,
      ediv_min hspan hp.width_le]
  | false =>
    rw [if_neg (by simp), Value.number_of_unsigned hsigned, shiftRight]
    split
    · next hfar =>
      have hlt : p.raw < 2 ^ places :=
        Nat.lt_of_lt_of_le hp.raw_lt
          (Nat.pow_le_pow_right (by decide) (Nat.le_trans hp.width_le hfar))
      have hzero := Nat.div_eq_of_lt hlt
      exact_mod_cast hzero.symm
    · rw [Nat.shiftRight_eq_div_pow]
      exact_mod_cast rfl

theorem apply_shl (hwidth : width ≤ Value.maxWidth) (n : UInt32) :
    apply (.shl n) [p] width = cut width (p.raw * 2 ^ n.toNat : Nat) :=
  cut_shiftLeft hwidth p.raw n.toNat

theorem apply_dshl (hwidth : width ≤ Value.maxWidth) :
    apply .dshl [p, q] width = cut width (p.raw * 2 ^ q.raw : Nat) :=
  cut_shiftLeft hwidth p.raw q.raw

theorem apply_shr (hp : p.Fits) (n : UInt32) :
    apply (.shr n) [p] width = cut width (p.number / 2 ^ n.toNat) :=
  congrArg (cut width) (shiftRightSigned_eq hp n.toNat)

theorem apply_dshr (hp : p.Fits) : apply .dshr [p, q] width = cut width (p.number / 2 ^ q.raw) :=
  congrArg (cut width) (shiftRightSigned_eq hp q.raw)

/-! ## Bits -/

/-- What has been continued to 128 bits is cut as what it stands for. -/
theorem extended_mod (hwidth : width ≤ Value.maxWidth) (p : Value) :
    p.extended % 2 ^ width = p.widened width := by
  rw [← cut_natCast]
  refine cut_congr hwidth ?_
  rw [Value.extended, cast_cut]
  exact (Int.mod_modEq _ _).trans p.reading_modEq

section Bitwise

variable (hwidth : width ≤ Value.maxWidth)

include hwidth

theorem apply_and : apply .and [p, q] width = p.widened width &&& q.widened width := by
  show cut width (p.extended &&& q.extended : Nat) = _
  rw [cut_natCast, Nat.and_mod_two_pow, extended_mod hwidth, extended_mod hwidth]

theorem apply_or : apply .or [p, q] width = p.widened width ||| q.widened width := by
  show cut width (p.extended ||| q.extended : Nat) = _
  rw [cut_natCast, Nat.or_mod_two_pow, extended_mod hwidth, extended_mod hwidth]

theorem apply_xor : apply .xor [p, q] width = p.widened width ^^^ q.widened width := by
  show cut width (p.extended ^^^ q.extended : Nat) = _
  rw [cut_natCast, Nat.xor_mod_two_pow, extended_mod hwidth, extended_mod hwidth]

/-- The bits of the first operand followed by those of the second. -/
theorem apply_cat (hq : q.Fits) :
    apply .cat [p, q] width = cut width (p.raw * 2 ^ q.width + q.raw : Nat) := by
  have hshift := cut_shiftLeft hwidth p.raw q.width
  rw [cut_natCast, cut_natCast] at hshift
  show cut width (shiftLeft p.raw q.width ||| q.raw : Nat) = _
  rw [cut_natCast, Nat.or_mod_two_pow, hshift, ← Nat.or_mod_two_pow, ← Nat.shiftLeft_eq,
    ← Nat.shiftLeft_add_eq_or_of_lt hq.raw_lt, ← cut_natCast]

end Bitwise

/-- The complement of every bit. -/
theorem apply_not (hp : p.Fits) : apply .not [p] p.width = 2 ^ p.width - 1 - p.raw := by
  have hlt := hp.raw_lt
  have hcast : (-1 - (p.raw : Int)) % 2 ^ p.width = (2 ^ p.width - 1 - p.raw : Nat) := by
    have hpow := cast_two_pow p.width
    rw [← Int.add_emod_right, Int.emod_eq_of_lt (by omega) (by omega)]
    omega
  show cut p.width (-1 - (p.raw : Int)) = _
  rw [cut, hcast, Int.toNat_natCast]

/-! ## Reductions -/

/-- All bits are set in the largest number of a width only. -/
theorem eq_allOnes_iff (n : Nat) (h : n < 2 ^ width) :
    n = 2 ^ width - 1 ↔ ∀ i < width, n.testBit i = true := by
  constructor
  · rintro rfl i hi
    simp [hi]
  · intro hall
    refine Nat.eq_of_testBit_eq fun i => ?_
    rw [Nat.testBit_two_pow_sub_one]
    by_cases hi : i < width
    · rw [hall i hi, decide_eq_true hi]
    · rw [decide_eq_false hi]
      exact Nat.testBit_lt_two_pow
        (Nat.lt_of_lt_of_le h (Nat.pow_le_pow_right (by decide) (Nat.le_of_not_lt hi)))

theorem ne_zero_iff_testBit (n : Nat) (h : n < 2 ^ width) :
    n ≠ 0 ↔ ∃ i < width, n.testBit i = true := by
  constructor
  · intro hne
    obtain ⟨i, hi⟩ := Nat.exists_testBit_of_ne_zero hne
    refine ⟨i, Nat.lt_of_not_le fun hle => ?_, hi⟩
    rw [Nat.testBit_lt_two_pow
      (Nat.lt_of_lt_of_le h (Nat.pow_le_pow_right (by decide) hle))] at hi
    cases hi
  · rintro ⟨i, -, hi⟩ rfl
    simp at hi

/-- How many bits are set. -/
def ones (n width : Nat) : Nat := (List.range width).countP n.testBit

theorem foldl_odd (n : Nat) (places : List Nat) (odd : Bool) :
    places.foldl (fun odd i => odd != n.testBit i) odd =
      (odd != decide (places.countP n.testBit % 2 = 1)) := by
  induction places generalizing odd with
  | nil => simp
  | cons i places ih =>
    rw [List.foldl_cons, ih, List.countP_cons]
    cases n.testBit i with
    | false => simp
    | true =>
      have hflip : decide ((places.countP n.testBit + 1) % 2 = 1) =
          !decide (places.countP n.testBit % 2 = 1) := by
        rw [← decide_not, decide_eq_decide]
        omega
      rw [if_pos rfl, hflip]
      cases odd <;> simp

/-- No bit is set at the width or above it. -/
theorem ones_eq {n width : Nat} (h : n < 2 ^ width) (more : Nat) :
    ones n (width + more) = ones n width := by
  have hclear : ((List.range more).map (width + ·)).countP n.testBit = 0 := by
    rw [List.countP_eq_zero]
    rintro i hi
    obtain ⟨j, -, rfl⟩ := List.mem_map.1 hi
    rw [Nat.testBit_lt_two_pow
      (Nat.lt_of_lt_of_le h (Nat.pow_le_pow_right (by decide) (Nat.le_add_right width j)))]
    simp
  rw [ones, ones, List.range_add, List.countP_append, hclear, Nat.add_zero]

theorem parity_eq_ones (n : Nat) : parity n = decide (ones n Value.maxWidth % 2 = 1) := by
  rw [parity, foldl_odd, Bool.false_bne, ones]

theorem parity_eq (hp : p.Fits) : parity p.raw = decide (ones p.raw p.width % 2 = 1) := by
  have hmore := ones_eq hp.raw_lt (Value.maxWidth - p.width)
  rw [Nat.add_sub_cancel' hp.width_le] at hmore
  rw [parity_eq_ones, hmore]

end Operator

end Circuitry
