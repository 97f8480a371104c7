/-
  Bits of a literal, taken at once and taken by an operator.

  Taking bits `lo` up to `hi` of a literal at once first continues its payload so that it reaches bit
  `hi`: by copies of the top bit for a signed literal, by zeros otherwise.  An operator on the same
  literal gets the payload as it is, and reads zeros above it.  `folded_eq_iff` says exactly when the two
  differ: when the literal is signed and negative and the range reaches above its payload
  (`Constant.Overreaches`), which only a literal of open width lets it do.  Such a literal has an index
  that no payload can be continued to, the last one of 32 bits, and nothing is said of that.

  Everything is said bit by bit: `testBit_extended` for the one way, `testBit_of_constant` for the
  other.  `extract_literal` and `bit_literal` say what a description gets from either call where literals
  are folded.
-/
import Circuitry.Bench
import Circuitry.Proofs.Bits.Storage
import Circuitry.Proofs.Draft.Checked

namespace Circuitry

namespace Constant

/-- The payload has its top bit set. -/
def Negative (k : Constant) : Prop :=
  k.value.width.toNat ≠ 0 ∧ k.value.value.testBit (k.value.width.toNat - 1) = true

/-- The range reaches above the payload of a negative literal, and would read its sign there. -/
def Overreaches (k : Constant) (hi : UInt32) : Prop :=
  k.kind.isSigned = true ∧ k.Negative ∧ k.value.width.toNat ≤ hi.toNat

instance (k : Constant) : Decidable k.Negative := inferInstanceAs (Decidable (_ ∧ _))

instance (k : Constant) (hi : UInt32) : Decidable (k.Overreaches hi) :=
  inferInstanceAs (Decidable (_ ∧ _))

theorem toNat_max (a b : UInt32) : (max a b).toNat = max a.toNat b.toNat := by
  show (if a ≤ b then b else a).toNat = _
  split
  · next h =>
    have := UInt32.le_iff_toNat_le.1 h
    omega
  · next h =>
    have := mt UInt32.le_iff_toNat_le.2 h
    omega

/-- The bits up to `hi` of a continued payload. -/
theorem testBit_extended (k : Constant) {hi : UInt32} (hhi : hi.toNat + 1 < 2 ^ 32) {i : Nat}
    (hle : i ≤ hi.toNat) : (k.extended hi).value.testBit i =
      (k.value.value.testBit i ||
        (k.kind.isSigned && decide k.Negative && decide (k.value.width.toNat ≤ i))) := by
  have hnext : (hi + 1).toNat = hi.toNat + 1 := by
    rw [UInt32.toNat_add]
    exact Nat.mod_eq_of_lt hhi
  have hspan : i < (max (k.width.get?.getD (hi + 1)) (hi + 1)).toNat := by
    rw [toNat_max]
    omega
  unfold extended
  dsimp only
  cases hsigned : k.kind.isSigned with
  | false =>
    rw [if_neg (by simp), Bits.testBit_resize _ hspan]
    simp
  | true =>
    rw [if_pos rfl, Bits.testBit_signExtend _ hspan]
    -- below the payload both are its bits; above it the sign repeats
    by_cases hi' : i < k.value.width.toNat
    · have hnot : ¬ k.value.width.toNat ≤ i := by omega
      simp [hi', hnot]
    · have habove : k.value.width.toNat ≤ i := by omega
      have hclear := k.value.testBit_value_of_le habove
      by_cases hzero : k.value.width.toNat = 0
      · simp [hclear, Negative, hzero]
      · simp [hi', hclear, Negative, hzero, habove]

/-- The value of a literal is its payload, cut to the width that it is read in. -/
theorem constant_eq_ok {k : Constant} {x : Value} (hx : Bench.constant k = .ok x) :
    (k.width.get?.getD k.value.width).toNat ≤ Value.maxWidth ∧
      x = ⟨k.value.value % 2 ^ (k.width.get?.getD k.value.width).toNat,
        (k.width.get?.getD k.value.width).toNat, k.kind.isSigned⟩ := by
  unfold Bench.constant at hx
  dsimp only at hx
  split at hx
  · cases hx
  · next hle =>
    unfold Bits.toUnsigned? at hx
    split at hx
    · cases hx
    · next n hn =>
      split at hn
      · obtain rfl := Option.some.inj hn
        obtain rfl := Except.ok.inj hx
        rw [cut_natCast]
        exact ⟨Nat.le_of_not_lt hle, rfl⟩
      · cases hn

/-- The value of a literal has the bits of its payload, as far as it can be asked for them. -/
theorem testBit_of_constant {k : Constant} {x : Value} (hx : Bench.constant k = .ok x) {i : Nat}
    (hi : ∀ w, k.width = .known w → i < w.toNat) : x.raw.testBit i = k.value.value.testBit i := by
  obtain ⟨-, rfl⟩ := constant_eq_ok hx
  rw [Nat.testBit_mod_two_pow]
  cases hw : k.width with
  | known w => simp [Width.get?, hi w hw]
  | unknown =>
    by_cases hlt : i < k.value.width.toNat
    · simp [Width.get?, hlt]
    · rw [k.value.testBit_value_of_le (Nat.le_of_not_lt hlt), Bool.and_false]

theorem raw_lt {k : Constant} {x : Value} (hx : Bench.constant k = .ok x) :
    x.raw < 2 ^ Value.maxWidth := by
  obtain ⟨hle, rfl⟩ := constant_eq_ok hx
  exact Nat.lt_of_lt_of_le (Nat.mod_lt _ (Nat.two_pow_pos _)) (Nat.pow_le_pow_right (by decide) hle)

/-- What an operator makes of the literal, in the width of the range. -/
def evaluated (x : Value) (hi lo : UInt32) : Nat :=
  Operator.apply (.bits hi lo) [x] (hi - lo + 1).toNat

theorem shiftRight_eq {n places : Nat} (h : n < 2 ^ Value.maxWidth) :
    Operator.shiftRight n places = n >>> places := by
  unfold Operator.shiftRight
  split
  · next hle =>
    refine (Nat.shiftRight_eq_zero n places ?_).symm
    exact Nat.lt_of_lt_of_le h (Nat.pow_le_pow_right (by decide) hle)
  · rfl

theorem evaluated_eq {x : Value} (hx : x.raw < 2 ^ Value.maxWidth) (hi lo : UInt32) :
    evaluated x hi lo = (x.raw >>> lo.toNat) % 2 ^ (hi - lo + 1).toNat := by
  show cut _ ((Operator.shiftRight x.raw lo.toNat : Nat) : Int) = _
  rw [cut_natCast, shiftRight_eq hx]

/-- Two numbers have the same bits in a range. -/
theorem range_eq_iff {m n width lo : Nat} : (m >>> lo) % 2 ^ width = (n >>> lo) % 2 ^ width ↔
    ∀ i, lo ≤ i → i < lo + width → m.testBit i = n.testBit i := by
  constructor
  · intro h i hlo hi
    have hbit := congrArg (·.testBit (i - lo)) h
    have hlt : i - lo < width := by omega
    have hadd : lo + (i - lo) = i := by omega
    simpa [Nat.testBit_mod_two_pow, Nat.testBit_shiftRight, hlt, hadd] using hbit
  · intro h
    refine Nat.eq_of_testBit_eq fun j => ?_
    rw [Nat.testBit_mod_two_pow, Nat.testBit_mod_two_pow, Nat.testBit_shiftRight,
      Nat.testBit_shiftRight]
    by_cases hj : j < width
    · rw [h (lo + j) (by omega) (by omega)]
    · simp [hj]

/-- **When both ways agree.**  For a literal that has a value, an index that lies within it and can be
    reached, and a range of at most 128 bits, taking the bits at once gives what the operator gives,
    exactly unless the range overreaches. -/
theorem folded_eq_iff {k : Constant} {x : Value} (hx : Bench.constant k = .ok x) {hi lo : UInt32}
    (hrange : lo ≤ hi) (hfits : Draft.indexFits k.width hi.toNat = true)
    (hreach : hi.toNat + 1 < 2 ^ 32) :
    (k.folded hi lo).value = evaluated x hi lo ↔ ¬ k.Overreaches hi := by
  have hknown : ∀ w, k.width = .known w → hi.toNat < w.toNat := by
    intro w hw
    simpa [Draft.indexFits, hw] using hfits
  have hle := UInt32.le_iff_toNat_le.1 hrange
  have hspan : lo.toNat + (hi - lo + 1).toNat = hi.toNat + 1 := by
    rw [UInt32.toNat_add, UInt32.toNat_sub_of_le _ _ hrange, UInt32.toNat_one]
    omega
  rw [evaluated_eq (raw_lt hx), folded, Bits.slice, Bits.value_ofNat, range_eq_iff, hspan]
  have hbit : ∀ i, i ≤ hi.toNat → x.raw.testBit i = k.value.value.testBit i := fun i hi' =>
    testBit_of_constant hx fun w hw => Nat.lt_of_le_of_lt hi' (hknown w hw)
  constructor
  · -- the highest bit of the range tells the two ways apart
    rintro h ⟨hsigned, hnegative, habove⟩
    have htop := h hi.toNat hle (by omega)
    rw [testBit_extended k hreach (Nat.le_refl _), hbit _ (Nat.le_refl _),
      k.value.testBit_value_of_le habove] at htop
    simp [hsigned, hnegative, habove] at htop
  · intro hover i _ hi'
    rw [testBit_extended k hreach (by omega), hbit i (by omega)]
    have hnone : (k.kind.isSigned && decide k.Negative && decide (k.value.width.toNat ≤ i)) =
        false := by
      rw [Bool.eq_false_iff]
      intro hall
      simp only [Bool.and_eq_true, decide_eq_true_eq] at hall
      exact hover ⟨hall.1.1, hall.1.2, by omega⟩
    rw [hnone, Bool.or_false]

end Constant

namespace Draft

/-! ## Bits of a literal in a description -/

/-- A range of bits within a literal, in 32 bits. -/
theorem range_of_indexFits {width : Width} {hi lo : Int} (hlo : 0 ≤ lo) (hle : lo ≤ hi)
    (hfits : indexFits width hi = true) :
    UInt32.ofNat lo.toNat ≤ UInt32.ofNat hi.toNat ∧
      indexFits width (UInt32.ofNat hi.toNat).toNat = true ∧
      (hi - lo < Value.maxWidth →
        (UInt32.ofNat hi.toNat - UInt32.ofNat lo.toNat + 1).toNat = (hi - lo + 1).toNat) := by
  have hhigh := toNat_of_indexFits hfits
  have hlow := toNat_of_le hle hfits
  have hrange : UInt32.ofNat lo.toNat ≤ UInt32.ofNat hi.toNat :=
    UInt32.le_iff_toNat_le.2 (by omega)
  refine ⟨hrange, by rw [hhigh]; exact hfits, fun hwidth => ?_⟩
  rw [UInt32.toNat_add, UInt32.toNat_sub_of_le _ _ hrange, UInt32.toNat_one]
  simp only [Value.maxWidth] at hwidth
  omega

section Run

variable {a : Signal} {v : Bits}

/-- A literal is an operand as it is. -/
theorem operand_literal (ha : a.literal = some v) (w : Session) :
    operand a w = .ok (.constant ⟨a.kind, a.width, v⟩) w := by
  unfold operand
  have hstanding : w.signals.standing a = .literal v := by
    rw [Signals.standing]
    simp [ha]
  refine (bind_of_ok (show (get : Build Session) w = .ok w w from rfl)).trans ?_
  dsimp only
  rw [hstanding]
  rfl

theorem checkOperands_literal (ha : a.literal = some v) (w : Session) :
    checkOperands [a] w = .ok () w := by
  have hoperands : operands [a] w = .ok [.constant ⟨a.kind, a.width, v⟩] w :=
    (bind_of_ok (operand_literal ha w)).trans rfl
  exact (bind_of_ok hoperands).trans rfl

/-- Bits of a literal are a literal, and nothing is added to the circuit. -/
theorem selectBits_literal (ha : a.literal = some v) {w : Session}
    (hon : w.draft.settings.foldLiterals = true) {hi lo : UInt32} (hle : lo ≤ hi)
    (hreach : hi.toNat + 1 < 2 ^ 32) (kind : Kind) (width : Width) :
    ∃ r w', (selectBits a hi lo kind width).run w = .ok (some r) w' ∧ w'.draft = w.draft ∧
      r.literal = some (Constant.folded ⟨a.kind, a.width, v⟩ hi lo) := by
  rw [selectBits_on hon, ha]
  dsimp only
  rw [if_pos ⟨hle, hreach⟩]
  exact ⟨_, _, rfl, rfl, rfl⟩

theorem extract_literal (ha : a.literal = some v) {w : Session}
    (hon : w.draft.settings.foldLiterals = true) {hi lo : Int} (hlo : 0 ≤ lo) (hle : lo ≤ hi)
    (hfits : indexFits a.width hi = true) (hreach : hi < 2 ^ 32 - 1) :
    ∃ r w', (extract a hi lo).run w = .ok (some r) w' ∧ w'.draft = w.draft ∧
      r.literal = some (Constant.folded ⟨a.kind, a.width, v⟩ (.ofNat hi.toNat) (.ofNat lo.toNat)) := by
  obtain ⟨hrange, -, -⟩ := range_of_indexFits hlo hle hfits
  have hhigh := toNat_of_indexFits hfits
  have hselect := selectBits_literal ha hon hrange (by omega) .uint
    (.known (.ofNat hi.toNat - .ofNat lo.toNat + 1))
  rw [run_extract, selection_of_fits (by omega) (checkOperands_literal ha w) hfits, run_selectRange,
    if_pos ⟨hrange, by omega⟩]
  exact hselect

theorem bit_literal (ha : a.literal = some v) {w : Session}
    (hon : w.draft.settings.foldLiterals = true) {index : Int}
    (hfits : indexFits a.width index = true) (hreach : index < 2 ^ 32 - 1) :
    ∃ r w', (bit a index).run w = .ok (some r) w' ∧ w'.draft = w.draft ∧
      r.literal =
        some (Constant.folded ⟨a.kind, a.width, v⟩ (.ofNat index.toNat) (.ofNat index.toNat)) := by
  have hindex := toNat_of_indexFits hfits
  have hselect := selectBits_literal ha hon (UInt32.le_refl (.ofNat index.toNat)) (by omega) .bool
    (.known 1)
  rw [run_bit, selection_of_fits (by omega) (checkOperands_literal ha w) hfits]
  exact hselect

variable {w : Session} {x : Value}

/-- What `extract` takes from a literal is what the operator takes from it, exactly unless the range
    overreaches. -/
theorem extract_literal_iff (ha : a.literal = some v) (hon : w.draft.settings.foldLiterals = true)
    {hi lo : Int} (hlo : 0 ≤ lo) (hle : lo ≤ hi) (hfits : indexFits a.width hi = true)
    (hreach : hi < 2 ^ 32 - 1) (hwidth : hi - lo < Value.maxWidth)
    (hx : Bench.constant ⟨a.kind, a.width, v⟩ = .ok x) :
    ∃ r w' payload, (extract a hi lo).run w = .ok (some r) w' ∧ r.literal = some payload ∧
      (payload.value =
          Operator.apply (.bits (.ofNat hi.toNat) (.ofNat lo.toNat)) [x] (hi - lo + 1).toNat ↔
        ¬ Constant.Overreaches ⟨a.kind, a.width, v⟩ (.ofNat hi.toNat)) := by
  obtain ⟨r, w', hrun, -, hliteral⟩ := extract_literal ha hon hlo hle hfits hreach
  obtain ⟨hrange, hfits', hspan⟩ := range_of_indexFits hlo hle hfits
  have hhigh := toNat_of_indexFits hfits
  refine ⟨r, w', _, hrun, hliteral, ?_⟩
  rw [← hspan hwidth]
  exact Constant.folded_eq_iff hx hrange hfits' (by omega)

/-- What `bit` takes from a literal is what the operator takes from it, exactly unless the index
    overreaches. -/
theorem bit_literal_iff (ha : a.literal = some v) (hon : w.draft.settings.foldLiterals = true)
    {index : Int} (hindex : 0 ≤ index) (hfits : indexFits a.width index = true)
    (hreach : index < 2 ^ 32 - 1) (hx : Bench.constant ⟨a.kind, a.width, v⟩ = .ok x) :
    ∃ r w' payload, (bit a index).run w = .ok (some r) w' ∧ r.literal = some payload ∧
      (payload.value =
          Operator.apply (.bits (.ofNat index.toNat) (.ofNat index.toNat)) [x] 1 ↔
        ¬ Constant.Overreaches ⟨a.kind, a.width, v⟩ (.ofNat index.toNat)) := by
  obtain ⟨r, w', hrun, -, hliteral⟩ := bit_literal ha hon hfits hreach
  obtain ⟨hrange, hfits', -⟩ := range_of_indexFits hindex (Int.le_refl index) hfits
  have hhigh := toNat_of_indexFits hfits
  have hspan : (UInt32.ofNat index.toNat - UInt32.ofNat index.toNat + 1).toNat = 1 := by
    rw [UInt32.sub_self, UInt32.zero_add]
    rfl
  refine ⟨r, w', _, hrun, hliteral, ?_⟩
  have hiff := Constant.folded_eq_iff hx hrange hfits' (by omega)
  rw [Constant.evaluated, hspan] at hiff
  exact hiff

end Run

end Draft

end Circuitry
