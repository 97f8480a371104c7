/-
  Operators on machine words.

  `Operator.result` computes with integers.  A machine has words of 128 bits: it adds and multiplies up
  to multiples of `2 ^ 128`, reads one and the same word with a sign or without, and there are things
  that it does not do at all (`Hazard`).  This file writes every operator out for such a machine, with
  each of these checked at the very place where it might happen.

  Words stand for integers up to multiples of `2 ^ 128`, so each operator is said as `BitVec.ofInt` of
  its exact result (`result_eq`), and cut to its width that is the same number (`apply_eq`).  No check fails
  as long as operands fit:

  1. a word is masked, and a sign is continued, by fewer places than it has (`mask_eq`, `extended_eq`);
  2. far shifts are told apart before they are made (`cleared_left`, `cleared_right`);
  3. a divisor whose bits are not all clear is not zero once its sign is continued, also as an unsigned
     number that is read with a sign (`ofInt_reading_ne_zero`).
-/
import Circuitry.Proofs.Operator.Exact

namespace Circuitry

/-- What a machine does not do. -/
inductive Hazard where
  /-- To reach outside a sequence. -/
  | index
  /-- To shift a word by all of its bits or more. -/
  | shift
  /-- To divide by zero. -/
  | divisor
  deriving DecidableEq, Repr

/-- A word of 128 bits. -/
abbrev Word := BitVec Value.maxWidth

namespace Machine

/-! ## Actions that may not be there -/

/-- What has been looked for in a sequence. -/
def found {α : Type} : Option α → Except Hazard α
  | some x => .ok x
  | none => .error .index

/-- A shift by fewer places than a word has. -/
def shifted (shift : Word → Nat → Word) (x : Word) (places : Nat) : Except Hazard Word :=
  if places < Value.maxWidth then .ok (shift x places) else .error .shift

/-- A division by anything but zero. -/
def divided (divide : Word → Word → Word) (x y : Word) : Except Hazard Word :=
  if y = 0 then .error .divisor else .ok (divide x y)

/-! ## Words -/

/-- The low bits of a word. -/
def mask (x : Word) (width : Nat) : Except Hazard Word :=
  if Value.maxWidth ≤ width then .ok x
  else do return x &&& ((← shifted (· <<< ·) 1 width) - 1)

/-- The number in the low bits of a word. -/
def lowBits (x : Word) (width : Nat) : Except Hazard Nat := do return (← mask x width).toNat

/-- The low bits of a word, continued by their sign: they are shifted up to the top and back. -/
def signExtend (x : Word) (width : Nat) : Except Hazard Word :=
  if width = 0 then .ok 0
  else if Value.maxWidth ≤ width then .ok x
  else do
    let up ← shifted (· <<< ·) x (Value.maxWidth - width)
    shifted BitVec.sshiftRight up (Value.maxWidth - width)

/-- The bits of a value. -/
def word (v : Value) : Word := .ofNat _ v.raw

/-- A value continued to a whole word by its kind. -/
def extended (v : Value) : Except Hazard Word :=
  if v.signed then signExtend (word v) v.width else .ok (word v)

/-- The bits of a value in a place of a width. -/
def fitted (v : Value) (width : Nat) : Except Hazard Nat := do lowBits (← extended v) width

/-- A shift that leaves nothing from 128 places on. -/
def cleared (shift : Word → Nat → Word) (x : Word) (places : Nat) : Except Hazard Word :=
  if Value.maxWidth ≤ places then .ok 0 else shifted shift x places

/-- A right shift that keeps the sign of a signed value. -/
def shiftRight (v : Value) (places : Nat) : Except Hazard Word :=
  if v.signed then do
    shifted BitVec.sshiftRight (← extended v) (min places (Value.maxWidth - 1))
  else cleared (· >>> ·) (word v) places

/-- A division, one way for signed values and another way for the rest; zero for a zero divisor. -/
def quotient (signed unsigned : Word → Word → Word) (v u : Value) : Except Hazard Word :=
  if u.raw = 0 then .ok 0
  else if v.signed then do divided signed (← extended v) (← extended u)
  else divided unsigned (word v) (word u)

/-- How two values compare: with signs if both have one. -/
def order (v u : Value) : Except Hazard Ordering :=
  if v.signed && u.signed then do
    return compare (← extended v).toInt (← extended u).toInt
  else .ok (compare v.raw u.raw)

/-- One bit as a word. -/
def truth (b : Bool) : Word := .ofNat _ b.toNat

/-- An action on two values that have been continued by their kinds. -/
def both (f : Word → Word → Word) (v u : Value) : Except Hazard Word := do
  return f (← extended v) (← extended u)

/-- Whether all bits of a value are set. -/
def allSet (v : Value) : Except Hazard Word := do
  return truth (word v == (← mask (BitVec.allOnes _) v.width))

/-- A test of how two values compare. -/
def judged (test : Ordering → Bool) (v u : Value) : Except Hazard Word := do
  return truth (test (← order v u))

/-! ## Operators -/

/-- The result of an operator before it is cut. -/
def result (op : Operator) (a b c : Value) : Except Hazard Word :=
  match op with
  | .add => both (· + ·) a b
  | .sub => both (· - ·) a b
  | .tail _ | .asSInt | .asUInt | .asBool => .ok (word a)
  | .mul => both (· * ·) a b
  | .div => quotient BitVec.sdiv BitVec.udiv a b
  | .rem => quotient BitVec.srem BitVec.umod a b
  | .and => both (· &&& ·) a b
  | .or => both (· ||| ·) a b
  | .xor => both (· ^^^ ·) a b
  | .not => .ok (~~~word a)
  | .shl n => cleared (· <<< ·) (word a) n.toNat
  | .dshl => cleared (· <<< ·) (word a) b.raw
  | .shr n => shiftRight a n.toNat
  | .dshr => shiftRight a b.raw
  | .cat => do return (← cleared (· <<< ·) (word a) b.width) ||| word b
  | .eq => judged Ordering.isEq a b
  | .neq => judged Ordering.isNe a b
  | .lt => judged Ordering.isLT a b
  | .leq => judged Ordering.isLE a b
  | .gt => judged Ordering.isGT a b
  | .geq => judged Ordering.isGE a b
  | .bits _ lo => cleared (· >>> ·) (word a) lo.toNat
  | .mux => if a.isTrue then extended b else extended c
  | .andReduce => allSet a
  | .orReduce => .ok (truth (a.raw != 0))
  | .xorReduce => .ok (truth (decide (Operator.ones a.raw Value.maxWidth % 2 = 1)))
  | .pad _ => extended a

/-- The result of an operator, cut to a width.  Only the first operand is taken to be there. -/
def apply (op : Operator) (args : List Value) (width : Nat) : Except Hazard Nat := do
  let a ← found args[0]?
  let b := args.getD 1 a
  let c := args.getD 2 b
  lowBits (← result op a b c) width

/-! ## Words for integers -/

theorem ofInt_congr {i j : Int} (h : i ≡ j [ZMOD 2 ^ Value.maxWidth]) :
    BitVec.ofInt Value.maxWidth i = BitVec.ofInt Value.maxWidth j := by
  refine BitVec.eq_of_toNat_eq ?_
  rw [BitVec.toNat_ofInt, BitVec.toNat_ofInt, cast_two_pow, h]

theorem toNat_ofInt (i : Int) : (BitVec.ofInt Value.maxWidth i).toNat = cut Value.maxWidth i := by
  rw [BitVec.toNat_ofInt, cast_two_pow, cut]

theorem ofInt_sub (i j : Int) : BitVec.ofInt Value.maxWidth (i - j) =
    BitVec.ofInt Value.maxWidth i - BitVec.ofInt Value.maxWidth j := by
  rw [sub_eq_add_neg, BitVec.ofInt_add, BitVec.ofInt_neg, BitVec.sub_eq_add_neg]

theorem ofInt_bmod (i : Int) : BitVec.ofInt Value.maxWidth (Int.bmod i (2 ^ Value.maxWidth)) =
    BitVec.ofInt Value.maxWidth i := by
  refine ofInt_congr ?_
  rw [Int.ModEq, ← cast_two_pow, Int.bmod_emod]

theorem shifted_eq {shift : Word → Nat → Word} {places : Nat} (h : places < Value.maxWidth)
    (x : Word) : shifted shift x places = .ok (shift x places) := if_pos h

theorem mask_eq (x : Word) {width : Nat} (h : width ≤ Value.maxWidth) :
    mask x width = .ok (.ofNat _ (x.toNat % 2 ^ width)) := by
  unfold mask
  split
  · next hfull =>
    obtain rfl := Nat.le_antisymm h hfull
    rw [Nat.mod_eq_of_lt x.isLt, BitVec.ofNat_toNat, BitVec.setWidth_eq]
  · next hpart =>
    have hlt : width < Value.maxWidth := Nat.lt_of_not_le hpart
    have hpow : 2 ^ width < 2 ^ Value.maxWidth := Nat.pow_lt_pow_right (by decide) hlt
    have hbit : ((1 : Word) <<< width).toNat = 2 ^ width := by
      rw [BitVec.toNat_shiftLeft, Nat.shiftLeft_eq]
      show 1 * 2 ^ width % 2 ^ Value.maxWidth = 2 ^ width
      rw [Nat.one_mul, Nat.mod_eq_of_lt hpow]
    have hlow : ((1 : Word) <<< width - 1).toNat = 2 ^ width - 1 := by
      rw [BitVec.toNat_sub_of_le (BitVec.le_def.2 (by rw [hbit]; exact Nat.two_pow_pos width)), hbit]
      rfl
    rw [shifted_eq hlt]
    refine congrArg Except.ok (BitVec.eq_of_toNat_eq ?_)
    rw [BitVec.toNat_and, hlow, Nat.and_two_pow_sub_one_eq_mod, BitVec.toNat_ofNat,
      Nat.mod_eq_of_lt (Nat.lt_of_le_of_lt (Nat.mod_le _ _) x.isLt)]

theorem lowBits_ofInt (i : Int) {width : Nat} (h : width ≤ Value.maxWidth) :
    lowBits (.ofInt _ i) width = .ok (cut width i) := by
  have hlt : cut width i < 2 ^ Value.maxWidth :=
    Nat.lt_of_lt_of_le (cut_lt width i) (Nat.pow_le_pow_right (by decide) h)
  rw [lowBits, mask_eq _ h, toNat_ofInt, ← cut_natCast, cut_cut h]
  exact congrArg Except.ok (by rw [BitVec.toNat_ofNat, Nat.mod_eq_of_lt hlt])

theorem toInt_ofInt {i : Int} (h : InSpan true Value.maxWidth i) :
    (BitVec.ofInt Value.maxWidth i).toInt = i := by
  rw [BitVec.toInt_ofInt]
  exact fit_of_inSpan h

theorem shiftLeft_ofNat (n places : Nat) :
    BitVec.ofNat Value.maxWidth n <<< places = BitVec.ofNat Value.maxWidth (n <<< places) := by
  refine BitVec.eq_of_toNat_eq ?_
  rw [BitVec.toNat_shiftLeft, BitVec.toNat_ofNat, BitVec.toNat_ofNat, Nat.shiftLeft_eq,
    Nat.shiftLeft_eq, Nat.mod_mul_mod]

theorem shiftRight_ofNat {n : Nat} (h : n < 2 ^ Value.maxWidth) (places : Nat) :
    BitVec.ofNat Value.maxWidth n >>> places = BitVec.ofNat Value.maxWidth (n >>> places) := by
  have hle : n >>> places ≤ n := by
    rw [Nat.shiftRight_eq_div_pow]
    exact Nat.div_le_self _ _
  refine BitVec.eq_of_toNat_eq ?_
  rw [BitVec.toNat_ushiftRight, BitVec.toNat_ofNat, BitVec.toNat_ofNat, Nat.mod_eq_of_lt h,
    Nat.mod_eq_of_lt (Nat.lt_of_le_of_lt hle h)]

/-- Shifted up to the top and back, the low bits are continued by their sign. -/
theorem sshiftRight_shiftLeft {width up : Nat} (hpos : 0 < width)
    (hsum : width + up = Value.maxWidth) (x : Word) :
    (x <<< up).sshiftRight up = (x.setWidth width).signExtend Value.maxWidth := by
  have hmsb : (x <<< up).msb = (x.setWidth width).msb := by
    have htop : ¬ Value.maxWidth - 1 < up := by omega
    have hlast : Value.maxWidth - 1 < Value.maxWidth := by decide
    rw [BitVec.msb_eq_getLsbD_last, BitVec.msb_eq_getLsbD_last, BitVec.getLsbD_shiftLeft,
      BitVec.getLsbD_setWidth, decide_eq_true hlast, decide_eq_false htop,
      decide_eq_true (show width - 1 < width by omega),
      show Value.maxWidth - 1 - up = width - 1 by omega]
    rfl
  refine BitVec.eq_of_getLsbD_eq fun i hi => ?_
  rw [BitVec.getLsbD_sshiftRight, BitVec.getLsbD_signExtend, hmsb,
    decide_eq_false (Nat.not_le_of_lt hi), decide_eq_true hi]
  by_cases hlow : i < width
  · have hinside : up + i < Value.maxWidth := by omega
    rw [if_pos hinside, if_pos hlow, BitVec.getLsbD_shiftLeft, BitVec.getLsbD_setWidth,
      decide_eq_true hinside, decide_eq_true hlow,
      decide_eq_false (Nat.not_lt_of_le (Nat.le_add_right up i)), Nat.add_sub_cancel_left]
    rfl
  · have houtside : ¬ up + i < Value.maxWidth := by omega
    rw [if_neg houtside, if_neg hlow]
    rfl

theorem signExtend_eq {width : Nat} (h : width ≤ Value.maxWidth) (n : Nat) :
    signExtend (.ofNat _ n) width = .ok (.ofInt _ (twosComplement width n)) := by
  unfold signExtend
  split
  · next hzero =>
    subst hzero
    rw [twosComplement, Nat.pow_zero, Int.bmod_one]
    rfl
  next hpos =>
  split
  · next hfull =>
    obtain rfl := Nat.le_antisymm h hfull
    rw [twosComplement, ofInt_bmod, BitVec.ofInt_natCast]
  · next hpart =>
    have hnear : Value.maxWidth - width < Value.maxWidth := by omega
    rw [shifted_eq hnear]
    show shifted _ _ _ = _
    rw [shifted_eq hnear, sshiftRight_shiftLeft (Nat.pos_of_ne_zero hpos) (Nat.add_sub_of_le h),
      BitVec.setWidth_ofNat_of_le h, BitVec.signExtend, BitVec.toInt_ofNat']
    rfl

/-! ## Operands -/

section Operands

variable {v u : Value}

theorem extended_eq (h : v.Fits) : extended v = .ok (.ofInt _ v.reading) := by
  unfold extended Value.reading
  split
  · exact signExtend_eq h.width_le v.raw
  · rw [twosComplement, ofInt_bmod, BitVec.ofInt_natCast]
    rfl

theorem fitted_eq (h : v.Fits) {width : Nat} (hwidth : width ≤ Value.maxWidth) :
    fitted v width = .ok (cut width v.reading) := by
  rw [fitted, extended_eq h]
  exact lowBits_ofInt _ hwidth

theorem ofNat_extended (v : Value) :
    BitVec.ofNat Value.maxWidth v.extended = .ofInt _ v.reading := by
  rw [← BitVec.ofInt_natCast, Value.extended, cast_cut]
  exact ofInt_congr (Int.mod_modEq _ _)

theorem raw_lt (h : v.Fits) : v.raw < 2 ^ Value.maxWidth :=
  Nat.lt_of_lt_of_le h.raw_lt (Nat.pow_le_pow_right (by decide) h.width_le)

theorem toNat_word (h : v.Fits) : (word v).toNat = v.raw := by
  rw [word, BitVec.toNat_ofNat, Nat.mod_eq_of_lt (raw_lt h)]

theorem inSpan_twosComplement (width n : Nat) : InSpan true width (twosComplement width n) :=
  inSpan_fit true width n

theorem inSpan_reading (h : v.Fits) : InSpan true Value.maxWidth v.reading := by
  unfold Value.reading
  split
  · exact (inSpan_twosComplement v.width v.raw).mono h.width_le
  · exact inSpan_twosComplement Value.maxWidth v.raw

theorem toInt_ofInt_reading (h : v.Fits) : (BitVec.ofInt Value.maxWidth v.reading).toInt = v.reading :=
  toInt_ofInt (inSpan_reading h)

/-- What is not zero stays so when it is read with a sign. -/
theorem ofInt_reading_ne_zero (h : v.Fits) (hne : v.raw ≠ 0) :
    BitVec.ofInt Value.maxWidth v.reading ≠ 0 := by
  intro hzero
  have hreading : v.reading = 0 := by
    rw [← toInt_ofInt_reading h, hzero]
    rfl
  have hnumber : v.number ≡ 0 [ZMOD 2 ^ Value.maxWidth] := by
    rw [← hreading]
    exact v.reading_modEq.symm
  refine hne ?_
  rw [← h.cut_number, cut_congr h.width_le hnumber, cut, Int.zero_emod]
  rfl

theorem word_ne_zero (h : v.Fits) (hne : v.raw ≠ 0) : word v ≠ 0 := by
  intro hzero
  rw [← toNat_word h, hzero] at hne
  exact hne rfl

theorem divided_eq {divide : Word → Word → Word} {x y : Word} (h : y ≠ 0) :
    divided divide x y = .ok (divide x y) := if_neg h

end Operands

/-! ## Operators -/

section Operators

variable {v u : Value}

theorem cleared_left (n places : Nat) : cleared (· <<< ·) (.ofNat _ n) places =
    .ok (.ofNat _ (Operator.shiftLeft n places)) := by
  unfold cleared Operator.shiftLeft
  split
  · rfl
  · next hnear => rw [shifted_eq (Nat.lt_of_not_le hnear), shiftLeft_ofNat]

theorem cleared_right {n : Nat} (h : n < 2 ^ Value.maxWidth) (places : Nat) :
    cleared (· >>> ·) (.ofNat _ n) places = .ok (.ofNat _ (Operator.shiftRight n places)) := by
  unfold cleared Operator.shiftRight
  split
  · rfl
  · next hnear => rw [shifted_eq (Nat.lt_of_not_le hnear), shiftRight_ofNat h]

theorem shiftRight_eq (h : v.Fits) (places : Nat) :
    shiftRight v places = .ok (.ofInt _ (Operator.shiftRightSigned v places)) := by
  unfold shiftRight Operator.shiftRightSigned
  split
  · have hnear : min places (Value.maxWidth - 1) < Value.maxWidth :=
      Nat.lt_of_le_of_lt (Nat.min_le_right _ _) (by decide)
    rw [extended_eq h]
    show shifted _ _ _ = _
    rw [shifted_eq hnear, BitVec.sshiftRight, toInt_ofInt_reading h]
  · rw [word, cleared_right (raw_lt h), BitVec.ofInt_natCast]

/-- A division of words, from what it is for integers with a sign and for numbers without. -/
theorem quotient_eq {signed unsigned : Word → Word → Word} {f : Int → Int → Int}
    {g : Nat → Nat → Nat} (hf : ∀ x y, signed x y = .ofInt _ (f x.toInt y.toInt))
    (hg : ∀ x y, unsigned x y = .ofNat _ (g x.toNat y.toNat)) (hv : v.Fits) (hu : u.Fits) :
    quotient signed unsigned v u = .ok (.ofInt _ (if u.raw = 0 then 0
      else if v.signed then f v.reading u.reading else (g v.raw u.raw : Nat))) := by
  unfold quotient
  split
  · rfl
  next hne =>
  split
  · rw [extended_eq hv, extended_eq hu]
    show divided _ _ _ = _
    rw [divided_eq (ofInt_reading_ne_zero hu hne), hf, toInt_ofInt_reading hv,
      toInt_ofInt_reading hu]
  · rw [divided_eq (word_ne_zero hu hne), hg, toNat_word hv, toNat_word hu, BitVec.ofInt_natCast]

theorem sdiv_eq (x y : Word) : x.sdiv y = .ofInt _ (x.toInt.tdiv y.toInt) := by
  refine BitVec.eq_of_toInt_eq ?_
  rw [BitVec.toInt_sdiv, BitVec.toInt_ofInt]

theorem srem_eq (x y : Word) : x.srem y = .ofInt _ (x.toInt.tmod y.toInt) := by
  rw [← BitVec.toInt_srem, BitVec.ofInt_toInt]

theorem compare_judged {α : Type} [LinearOrder α] (x y : α) :
    (compare x y).isEq = decide (x = y) ∧ (compare x y).isLT = decide (x < y) ∧
      (compare x y).isGT = decide (y < x) := by
  rcases lt_trichotomy x y with h | h | h
  · simp [compare_lt_iff_lt.2 h, h, h.ne, h.le]
  · simp [h]
  · simp [compare_gt_iff_gt.2 h, h, h.ne', h.le]

/-- Two values compare as they do for operators. -/
theorem order_eq (hv : v.Fits) (hu : u.Fits) : ∃ o, order v u = .ok o ∧
    o.isEq = Operator.same v u ∧ o.isLT = Operator.less v u ∧ o.isGT = Operator.less u v := by
  unfold order Operator.same Operator.less
  rw [Bool.and_comm u.signed v.signed]
  split
  · rw [extended_eq hv, extended_eq hu]
    refine ⟨_, rfl, ?_⟩
    rw [toInt_ofInt_reading hv, toInt_ofInt_reading hu]
    exact compare_judged v.reading u.reading
  · exact ⟨_, rfl, compare_judged v.raw u.raw⟩

theorem both_eq (f : Word → Word → Word) (hv : v.Fits) (hu : u.Fits) :
    both f v u = .ok (f (.ofInt _ v.reading) (.ofInt _ u.reading)) := by
  rw [both, extended_eq hv, extended_eq hu]
  rfl

theorem truth_eq (b : Bool) : truth b = .ofInt _ (b.toNat : Nat) := (BitVec.ofInt_natCast _ _).symm

theorem not_word (v : Value) : ~~~word v = .ofInt _ (-1 - (v.raw : Int)) := by
  rw [BitVec.not_eq_neg_add, word, ← BitVec.ofInt_natCast, ← BitVec.ofInt_neg,
    show -1 - (v.raw : Int) = -v.raw - 1 by omega, ofInt_sub]
  rfl

/-- All bits of a word, cut to a width, are the largest number of that width. -/
theorem allOnes_mod {width : Nat} (h : width ≤ Value.maxWidth) :
    (BitVec.allOnes Value.maxWidth).toNat % 2 ^ width = 2 ^ width - 1 := by
  refine Nat.eq_of_testBit_eq fun i => ?_
  rw [BitVec.toNat_allOnes, Nat.testBit_mod_two_pow, Nat.testBit_two_pow_sub_one,
    Nat.testBit_two_pow_sub_one]
  by_cases hi : i < width
  · rw [decide_eq_true hi, decide_eq_true (Nat.lt_of_lt_of_le hi h)]
    rfl
  · rw [decide_eq_false hi]
    rfl

theorem allSet_eq (hv : v.Fits) :
    allSet v = .ok (.ofInt _ (v.raw == 2 ^ v.width - 1).toNat) := by
  have hlt : 2 ^ v.width - 1 < 2 ^ Value.maxWidth :=
    Nat.lt_of_lt_of_le (Nat.sub_lt (Nat.two_pow_pos _) (by decide))
      (Nat.pow_le_pow_right (by decide) hv.width_le)
  have hword : (word v == .ofNat _ (2 ^ v.width - 1)) = (v.raw == 2 ^ v.width - 1) := by
    rw [Bool.beq_eq_decide_eq, Bool.beq_eq_decide_eq, decide_eq_decide, ← BitVec.toNat_inj,
      toNat_word hv, BitVec.toNat_ofNat, Nat.mod_eq_of_lt hlt]
  rw [allSet, mask_eq _ hv.width_le, allOnes_mod hv.width_le, ← hword, ← truth_eq]
  rfl

/-- Every operator gives the word of its exact result. -/
theorem result_eq (op : Operator) {a b c : Value} (ha : a.Fits) (hb : b.Fits) (hc : c.Fits) :
    result op a b c = .ok (.ofInt _ (op.result a b c)) := by
  have hword : ∀ n : Nat, .ofNat _ n = BitVec.ofInt Value.maxWidth n := fun n =>
    (BitVec.ofInt_natCast _ n).symm
  have hextended : ∀ v : Value, .ofInt _ v.reading = BitVec.ofNat Value.maxWidth v.extended :=
    fun v => (ofNat_extended v).symm
  obtain ⟨o, ho, heq, hlt, hgt⟩ := order_eq ha hb
  have hjudged : ∀ test : Ordering → Bool,
      judged test a b = .ok (.ofInt _ (test o).toNat) := by
    intro test
    rw [judged, ho, ← truth_eq]
    rfl
  cases op with
  | add => rw [result, both_eq _ ha hb, Operator.result, BitVec.ofInt_add]
  | sub => rw [result, both_eq _ ha hb, Operator.result, ofInt_sub]
  | mul => rw [result, both_eq _ ha hb, Operator.result, BitVec.ofInt_mul]
  | div => exact quotient_eq sdiv_eq (fun _ _ => BitVec.udiv_def) ha hb
  | rem => exact quotient_eq srem_eq (fun _ _ => BitVec.umod_def) ha hb
  | and =>
    rw [result, both_eq _ ha hb, Operator.result, ← hword, BitVec.ofNat_and, hextended, hextended]
  | or =>
    rw [result, both_eq _ ha hb, Operator.result, ← hword, BitVec.ofNat_or, hextended, hextended]
  | xor =>
    rw [result, both_eq _ ha hb, Operator.result, ← hword, BitVec.ofNat_xor, hextended, hextended]
  | not => exact congrArg Except.ok (not_word a)
  | shl n => rw [result, word, cleared_left, Operator.result, hword]
  | dshl => rw [result, word, cleared_left, Operator.result, hword]
  | shr n => exact shiftRight_eq ha _
  | dshr => exact shiftRight_eq ha _
  | cat =>
    rw [result, word, cleared_left, Operator.result, ← hword, BitVec.ofNat_or]
    rfl
  | bits hi lo => rw [result, word, cleared_right (raw_lt ha), Operator.result, hword]
  | eq => rw [result, hjudged, heq, Operator.result]
  | neq =>
    rw [result, hjudged, Operator.result, ← heq]
    cases o <;> rfl
  | lt => rw [result, hjudged, hlt, Operator.result]
  | leq =>
    rw [result, hjudged, Operator.result, ← hgt]
    cases o <;> rfl
  | gt => rw [result, hjudged, hgt, Operator.result]
  | geq =>
    rw [result, hjudged, Operator.result, ← hlt]
    cases o <;> rfl
  | mux =>
    rw [result, Operator.result]
    split
    · exact extended_eq hb
    · exact extended_eq hc
  | andReduce => exact allSet_eq ha
  | orReduce => rw [result, truth_eq, Operator.result]
  | xorReduce => rw [result, truth_eq, Operator.result, Operator.parity_eq_ones]
  | pad n => exact extended_eq ha
  | tail n => exact congrArg Except.ok (hword _)
  | asSInt => exact congrArg Except.ok (hword _)
  | asUInt => exact congrArg Except.ok (hword _)
  | asBool => exact congrArg Except.ok (hword _)

theorem fits_getD {args : List Value} (h : ∀ v ∈ args, v.Fits) {i : Nat} {v : Value} (hv : v.Fits) :
    (args.getD i v).Fits := by
  rw [List.getD_eq_getElem?_getD]
  cases hi : args[i]? with
  | none => exact hv
  | some u => exact h u (List.mem_of_getElem? hi)

/-- **Operators without hazards.**  Where there are operands, and all of them fit, the machine gives
    what the operator gives. -/
theorem apply_eq (op : Operator) {args : List Value} {width : Nat} (hne : args ≠ [])
    (hfits : ∀ v ∈ args, v.Fits) (hwidth : width ≤ Value.maxWidth) :
    apply op args width = .ok (op.apply args width) := by
  obtain ⟨a, rest, rfl⟩ := List.exists_cons_of_ne_nil hne
  have ha : a.Fits := hfits a (List.mem_cons_self ..)
  have hb : ((a :: rest).getD 1 a).Fits := fits_getD hfits ha
  have hc : ((a :: rest).getD 2 ((a :: rest).getD 1 a)).Fits := fits_getD hfits hb
  show (do lowBits (← result op a _ _) width : Except Hazard Nat) = _
  rw [result_eq op ha hb hc]
  exact lowBits_ofInt _ hwidth

end Operators

end Machine

end Circuitry
