/-
  What the operators of a description promise.

  Arithmetic and comparisons promise an integer (`Binary.integer?`).  `Binary.Law` and `Unary.Law` say of
  every operator what the value of its result has to do with the values of the operands: as integers
  (`Value.number`) where there is one promised and for most shifts, and bit by bit for the others.  Widths
  appear only where a result is reduced to one, or where the bits themselves are spoken of.

  The lemmas show that what the evaluator computes in the inferred width keeps the promise.  A result
  that is to be exact is so because the exact one is in the span of that width.
-/
import Circuitry.Proofs.Operator.Exact
import Circuitry.Script.Call

namespace Circuitry

/-- One for what holds, and zero for what does not. -/
def indicator (b : Bool) : Int := b.toNat

namespace Script

/-! ## The promises -/

/-- The integer that arithmetic or a comparison promises, from the integers `i` of `m` bits and `j` of
    `n` bits; operators on bits promise none. -/
def Binary.integer? (op : Binary) (signed : Bool) (m n : Nat) (i j : Int) : Option Int :=
  match op with
  | .addWide => some (i + j)
  | .subWide => some (if signed then i - j else (i - j) % 2 ^ (max m n + 1))
  | .mul => some (i * j)
  | .add => some (fit signed (max m n) (i + j))
  | .sub => some (fit signed (max m n) (i - j))
  | .div => some (if j = 0 then 0 else fit signed m (i.tdiv j))
  | .rem => some (if j = 0 then 0 else i - j * i.tdiv j)
  | .eq => some (indicator (i = j))
  | .neq => some (indicator (i ≠ j))
  | .lt => some (indicator (i < j))
  | .leq => some (indicator (i ≤ j))
  | .gt => some (indicator (i > j))
  | .geq => some (indicator (i ≥ j))
  | .and | .or | .xor | .logicAnd | .logicOr | .concat | .shiftLeftBy | .shiftRightBy => none

/-- The result `v` of an operator on `p` and `q`. -/
def Binary.Law (op : Binary) (p q v : Value) : Prop :=
  let wide := max p.width q.width
  match op with
  | .and | .logicAnd => v.width = wide ∧ v.raw = p.widened wide &&& q.widened wide
  | .or | .logicOr => v.width = wide ∧ v.raw = p.widened wide ||| q.widened wide
  | .xor => v.width = wide ∧ v.raw = p.widened wide ^^^ q.widened wide
  | .concat => v.width = p.width + q.width ∧ v.number = (p.raw * 2 ^ q.width + q.raw : Nat)
  | .shiftLeftBy =>
    v.signed = p.signed ∧ v.width = p.width + (2 ^ q.width - 1) ∧ v.raw = p.raw * 2 ^ q.raw
  | .shiftRightBy => v.width = p.width ∧ v.number = p.number / 2 ^ q.raw
  | op => op.integer? p.signed p.width q.width p.number q.number = some v.number

/-- The result `v` of an operator on `p`. -/
def Unary.Law (op : Unary) (p v : Value) : Prop :=
  match op with
  | .not => v.width = p.width ∧ ∀ i < p.width, v.raw.testBit i = !p.raw.testBit i
  | .asSInt => v.signed = true ∧ v.width = p.width ∧ v.raw = p.raw
  | .asUInt => v.signed = false ∧ v.width = p.width ∧ v.raw = p.raw
  | .asBool => v.raw = p.raw % 2
  | .andReduce => v.number = indicator (∀ i < p.width, p.raw.testBit i = true)
  | .orReduce => v.number = indicator (∃ i < p.width, p.raw.testBit i = true)
  | .xorReduce => v.number = indicator (Operator.ones p.raw p.width % 2 = 1)
  | .shl n => v.width = p.width + n.toNat ∧ v.number = p.number * 2 ^ n.toNat
  | .shr n =>
    v.width = p.width - n.toNat ∧ v.number = fit p.signed v.width (p.number / 2 ^ n.toNat)
  | .pad n => v.width = max p.width n.toNat ∧ v.number = p.number

variable {p q : Value} {width : Nat}

/-! ## Arithmetic -/

section Arithmetic

variable (hle : width ≤ Value.maxWidth)

theorem fit_zero (signed : Bool) (width : Nat) : fit signed width 0 = 0 := by
  cases signed <;> simp [fit]

include hle

theorem law_addWide (hp : p.Fits) (hq : q.Fits) (hsame : p.signed = q.signed)
    (hwidth : width = max p.width q.width + 1) :
    Binary.Law .addWide p q ⟨Operator.apply .add [p, q] width, width, p.signed⟩ := by
  refine congrArg some (Eq.symm ?_)
  show Value.number _ = _
  rw [Operator.apply_add hle, Value.number_cut, hwidth]
  exact fit_of_inSpan (hp.inSpan.add (hsame ▸ hq.inSpan))

/-- A difference is exact with a sign, and wraps around without. -/
theorem law_subWide (hp : p.Fits) (hq : q.Fits) (hsame : p.signed = q.signed)
    (hwidth : width = max p.width q.width + 1) :
    Binary.Law .subWide p q ⟨Operator.apply .sub [p, q] width, width, p.signed⟩ := by
  refine congrArg some (Eq.symm ?_)
  show Value.number _ = _
  rw [Operator.apply_sub hle, Value.number_cut, hwidth]
  cases hsigned : p.signed with
  | true =>
    have hi : InSpan true p.width p.number := hsigned ▸ hp.inSpan
    have hj : InSpan true q.width q.number := hsigned ▸ hsame ▸ hq.inSpan
    exact fit_of_inSpan (hi.sub hj)
  | false => rfl

theorem law_mul (hp : p.Fits) (hq : q.Fits) (hsame : p.signed = q.signed)
    (hwidth : width = p.width + q.width) :
    Binary.Law .mul p q ⟨Operator.apply .mul [p, q] width, width, p.signed⟩ := by
  refine congrArg some (Eq.symm ?_)
  show Value.number _ = _
  rw [Operator.apply_mul hle, Value.number_cut, hwidth]
  exact fit_of_inSpan (hp.inSpan.mul (hsame ▸ hq.inSpan))

omit hle in
theorem law_div (hq : q.Fits) (hsame : p.signed = q.signed) (hwidth : width = p.width) :
    Binary.Law .div p q ⟨Operator.apply .div [p, q] width, width, p.signed⟩ := by
  refine congrArg some (Eq.symm ?_)
  show Value.number _ = _
  rw [Operator.apply_div hq hsame, Value.number_cut, hwidth]
  split
  · next hzero => rw [hzero, Int.tdiv_zero, fit_zero]
  · rfl

omit hle in
/-- A remainder is never out of range. -/
theorem law_rem (hp : p.Fits) (hq : q.Fits) (hsame : p.signed = q.signed) (hwidth : width = p.width) :
    Binary.Law .rem p q ⟨Operator.apply .rem [p, q] width, width, p.signed⟩ := by
  refine congrArg some (Eq.symm ?_)
  show Value.number _ = _
  rw [Operator.apply_rem hq hsame, Value.number_cut, hwidth]
  split
  · exact fit_zero _ _
  · rw [fit_of_inSpan (hp.inSpan.tmod q.number), Int.tmod_def]

end Arithmetic

/-! ## Sums and differences that keep their width -/

/-- The low bits of a wide result, read by the kind of the operands. -/
def narrowed (wide : Value) (width : Nat) (signed : Bool) : Value :=
  let low : Value := ⟨Operator.apply (.tail 1) [wide] width, width, false⟩
  if signed then ⟨Operator.apply .asSInt [low] width, width, true⟩ else low

/-- What is left of a wide result is the integer reduced to the width. -/
theorem number_narrowed (i : Int) (signed s : Bool) (width : Nat) :
    (narrowed ⟨cut (width + 1) i, width + 1, s⟩ width signed).number = fit signed width i := by
  have hcut : cut width (cut (width + 1) i : Nat) = cut width i := cut_cut (Nat.le_succ width) i
  cases signed with
  | true =>
    show Value.number ⟨cut width (cut width (cut (width + 1) i : Nat) : Nat), width, true⟩ = _
    rw [hcut, cut_cut (Nat.le_refl width), Value.number_cut]
  | false =>
    show Value.number ⟨cut width (cut (width + 1) i : Nat), width, false⟩ = _
    rw [hcut, Value.number_cut]

section Narrowed

variable (hle : width + 1 ≤ Value.maxWidth) (hwidth : width = max p.width q.width)

include hle hwidth

theorem law_add : Binary.Law .add p q
    (narrowed ⟨Operator.apply .add [p, q] (width + 1), width + 1, p.signed⟩ width p.signed) := by
  refine congrArg some (Eq.symm ?_)
  show Value.number _ = _
  rw [Operator.apply_add hle, number_narrowed, hwidth]

theorem law_sub : Binary.Law .sub p q
    (narrowed ⟨Operator.apply .sub [p, q] (width + 1), width + 1, p.signed⟩ width p.signed) := by
  refine congrArg some (Eq.symm ?_)
  show Value.number _ = _
  rw [Operator.apply_sub hle, number_narrowed, hwidth]

end Narrowed

/-! ## Comparisons -/

theorem number_bit (b : Bool) : Value.number ⟨cut 1 (b.toNat : Int), 1, false⟩ = indicator b := by
  cases b <;> decide

section Comparisons

variable (hsame : p.signed = q.signed)

include hsame

theorem law_eq : Binary.Law .eq p q ⟨Operator.apply .eq [p, q] 1, 1, false⟩ := by
  refine congrArg some (Eq.symm ?_)
  show Value.number ⟨cut 1 ((Operator.same p q).toNat : Int), 1, false⟩ = _
  rw [number_bit, Operator.same_eq hsame]

theorem law_neq : Binary.Law .neq p q ⟨Operator.apply .neq [p, q] 1, 1, false⟩ := by
  refine congrArg some (Eq.symm ?_)
  show Value.number ⟨cut 1 ((!Operator.same p q).toNat : Int), 1, false⟩ = _
  rw [number_bit, Operator.same_eq hsame, ← decide_not]

theorem law_lt : Binary.Law .lt p q ⟨Operator.apply .lt [p, q] 1, 1, false⟩ := by
  refine congrArg some (Eq.symm ?_)
  show Value.number ⟨cut 1 ((Operator.less p q).toNat : Int), 1, false⟩ = _
  rw [number_bit, Operator.less_eq hsame]

theorem law_leq : Binary.Law .leq p q ⟨Operator.apply .leq [p, q] 1, 1, false⟩ := by
  refine congrArg some (Eq.symm ?_)
  show Value.number ⟨cut 1 ((!Operator.less q p).toNat : Int), 1, false⟩ = _
  rw [number_bit, Operator.less_eq hsame.symm, ← decide_not]
  simp only [Int.not_lt]

theorem law_gt : Binary.Law .gt p q ⟨Operator.apply .gt [p, q] 1, 1, false⟩ := by
  refine congrArg some (Eq.symm ?_)
  show Value.number ⟨cut 1 ((Operator.less q p).toNat : Int), 1, false⟩ = _
  rw [number_bit, Operator.less_eq hsame.symm]

theorem law_geq : Binary.Law .geq p q ⟨Operator.apply .geq [p, q] 1, 1, false⟩ := by
  refine congrArg some (Eq.symm ?_)
  show Value.number ⟨cut 1 ((!Operator.less p q).toNat : Int), 1, false⟩ = _
  rw [number_bit, Operator.less_eq hsame, ← decide_not]
  simp only [Int.not_lt]

end Comparisons

/-! ## Bits -/

/-- The bits of two values side by side have room in the bits of both. -/
theorem joined_lt (hp : p.Fits) (hq : q.Fits) :
    p.raw * 2 ^ q.width + q.raw < 2 ^ (p.width + q.width) := by
  have hsucc : (p.raw + 1) * 2 ^ q.width ≤ 2 ^ p.width * 2 ^ q.width :=
    Nat.mul_le_mul_right _ hp.raw_lt
  have hlow := hq.raw_lt
  rw [Nat.add_mul, Nat.one_mul] at hsucc
  rw [Nat.pow_add]
  omega

section Bitwise

variable (hle : width ≤ Value.maxWidth) (hwidth : width = max p.width q.width)

include hle hwidth

theorem law_and : Binary.Law .and p q ⟨Operator.apply .and [p, q] width, width, p.signed⟩ :=
  ⟨hwidth, by rw [← hwidth]; exact Operator.apply_and hle⟩

theorem law_or : Binary.Law .or p q ⟨Operator.apply .or [p, q] width, width, p.signed⟩ :=
  ⟨hwidth, by rw [← hwidth]; exact Operator.apply_or hle⟩

theorem law_xor : Binary.Law .xor p q ⟨Operator.apply .xor [p, q] width, width, p.signed⟩ :=
  ⟨hwidth, by rw [← hwidth]; exact Operator.apply_xor hle⟩

end Bitwise

theorem law_concat (hp : p.Fits) (hq : q.Fits) (hle : width ≤ Value.maxWidth)
    (hwidth : width = p.width + q.width) :
    Binary.Law .concat p q ⟨Operator.apply .cat [p, q] width, width, false⟩ := by
  refine ⟨hwidth, ?_⟩
  rw [Operator.apply_cat hle hq, Value.number_of_unsigned rfl, cut_natCast, hwidth,
    Nat.mod_eq_of_lt (joined_lt hp hq)]

/-- A shift of raw bits by a value has room for the largest shift. -/
theorem shifted_lt (hp : p.Fits) (hq : q.Fits) :
    p.raw * 2 ^ q.raw < 2 ^ (p.width + (2 ^ q.width - 1)) := by
  have hplaces : q.raw ≤ 2 ^ q.width - 1 := by
    have := hq.raw_lt
    omega
  calc p.raw * 2 ^ q.raw
      < 2 ^ p.width * 2 ^ q.raw := Nat.mul_lt_mul_of_pos_right hp.raw_lt (Nat.two_pow_pos _)
    _ = 2 ^ (p.width + q.raw) := (Nat.pow_add ..).symm
    _ ≤ 2 ^ (p.width + (2 ^ q.width - 1)) :=
      Nat.pow_le_pow_right (by decide) (Nat.add_le_add_left hplaces _)

theorem law_shiftLeftBy (hp : p.Fits) (hq : q.Fits) (hle : width ≤ Value.maxWidth)
    (hwidth : width = p.width + (2 ^ q.width - 1)) :
    Binary.Law .shiftLeftBy p q ⟨Operator.apply .dshl [p, q] width, width, p.signed⟩ := by
  refine ⟨rfl, hwidth, ?_⟩
  show Operator.apply .dshl [p, q] width = _
  rw [Operator.apply_dshl hle, cut_natCast, hwidth, Nat.mod_eq_of_lt (shifted_lt hp hq)]

theorem law_shiftRightBy (hp : p.Fits) (hwidth : width = p.width) :
    Binary.Law .shiftRightBy p q ⟨Operator.apply .dshr [p, q] width, width, p.signed⟩ := by
  refine ⟨hwidth, ?_⟩
  rw [Operator.apply_dshr hp, Value.number_cut, hwidth, fit_of_inSpan (hp.inSpan.ediv q.raw)]

theorem law_not (hp : p.Fits) (hwidth : width = p.width) :
    Unary.Law .not p ⟨Operator.apply .not [p] width, width, p.signed⟩ := by
  refine ⟨hwidth, fun i hi => ?_⟩
  show (Operator.apply .not [p] width).testBit i = _
  rw [hwidth, Operator.apply_not hp, Nat.sub_sub, Nat.add_comm, Nat.testBit_two_pow_sub_succ hp.raw_lt]
  simp [hi]

theorem law_asSInt (hp : p.Fits) (hwidth : width = p.width) :
    Unary.Law .asSInt p ⟨Operator.apply .asSInt [p] width, width, true⟩ := by
  refine ⟨rfl, hwidth, ?_⟩
  show cut width p.raw = _
  rw [hwidth, hp.cut_raw]

theorem law_asUInt (hp : p.Fits) (hwidth : width = p.width) :
    Unary.Law .asUInt p ⟨Operator.apply .asUInt [p] width, width, false⟩ := by
  refine ⟨rfl, hwidth, ?_⟩
  show cut width p.raw = _
  rw [hwidth, hp.cut_raw]

theorem law_asBool : Unary.Law .asBool p ⟨Operator.apply .asBool [p] 1, 1, false⟩ :=
  cut_natCast 1 p.raw

/-! ## Reductions -/

theorem law_andReduce (hp : p.Fits) :
    Unary.Law .andReduce p ⟨Operator.apply .andReduce [p] 1, 1, false⟩ := by
  show Value.number ⟨cut 1 ((p.raw == 2 ^ p.width - 1).toNat : Int), 1, false⟩ = _
  rw [number_bit, Bool.beq_eq_decide_eq]
  simp only [Operator.eq_allOnes_iff p.raw hp.raw_lt]

theorem law_orReduce (hp : p.Fits) :
    Unary.Law .orReduce p ⟨Operator.apply .orReduce [p] 1, 1, false⟩ := by
  show Value.number ⟨cut 1 ((p.raw != 0).toNat : Int), 1, false⟩ = _
  rw [number_bit, bne, Bool.beq_eq_decide_eq, ← decide_not]
  simp only [Operator.ne_zero_iff_testBit p.raw hp.raw_lt]

theorem law_xorReduce (hp : p.Fits) :
    Unary.Law .xorReduce p ⟨Operator.apply .xorReduce [p] 1, 1, false⟩ := by
  show Value.number ⟨cut 1 ((Operator.parity p.raw).toNat : Int), 1, false⟩ = _
  rw [number_bit, Operator.parity_eq hp]

/-! ## Shifts by constants -/

/-- The bits that come in on the right are those of the product. -/
theorem law_shl (n : UInt32) (hp : p.Fits) (hle : width ≤ Value.maxWidth)
    (hwidth : width = p.width + n.toNat) :
    Unary.Law (.shl n) p ⟨Operator.apply (.shl n) [p] width, width, p.signed⟩ := by
  have hmod : ((p.raw * 2 ^ n.toNat : Nat) : Int) ≡ p.number * 2 ^ n.toNat [ZMOD 2 ^ width] := by
    have hshift := hp.raw_modEq.mul_right' (c := 2 ^ n.toNat)
    rw [hwidth, pow_add]
    exact_mod_cast hshift
  refine ⟨hwidth, ?_⟩
  rw [Operator.apply_shl hle, cut, hmod, ← cut, Value.number_cut, hwidth,
    fit_of_inSpan (hp.inSpan.shift n.toNat)]

theorem law_shr (n : UInt32) (hp : p.Fits) (hwidth : width = p.width - n.toNat) :
    Unary.Law (.shr n) p ⟨Operator.apply (.shr n) [p] width, width, p.signed⟩ := by
  refine ⟨hwidth, ?_⟩
  rw [Operator.apply_shr hp, Value.number_cut]

theorem law_pad (n : UInt32) (hp : p.Fits) (hle : width ≤ Value.maxWidth)
    (hwidth : width = max p.width n.toNat) :
    Unary.Law (.pad n) p ⟨Operator.apply (.pad n) [p] width, width, p.signed⟩ := by
  refine ⟨hwidth, ?_⟩
  rw [Operator.apply_pad hle, Value.number_cut, hwidth,
    fit_of_inSpan (hp.inSpan.mono (Nat.le_max_left _ _))]

end Script

end Circuitry
