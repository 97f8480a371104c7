/-
  Bit strings as numbers of a fixed width.

  Whatever constructors and operations make of each other (`Bits.Built`) is a number of so many bits: its
  words hold the bits of the number and nothing else, and each operation is arithmetic on the sum of the
  bits that are set (`Bits.Laws`).

  1. Every constructor makes a well-formed string, and every operation makes one of well-formed strings
     (`Built.wellFormed`, by induction on how the string has been made).
  2. For a well-formed string the sum of the bits in its words is the number that its readers see
     (`WellFormed.val_eq_value`).  So a law about the words follows from one about numbers, and for the
     operations that go from word to word from one about bits (`Shows.val_eq`).
  3. The strings are those that loops over the places come to (`Bits.Looped`).
-/
import Circuitry.Numeral
import Circuitry.Proofs.Bits.Loops

namespace Circuitry.Bits

variable {a b : Bits} {width : UInt32} {f : Nat → Bool}

/-- What constructors and operations make of each other. -/
inductive Built : Bits → Prop
  | zero (width : UInt32) : Built (zero width)
  | allOnes (width : UInt32) : Built (allOnes width)
  | ofBool (bit : Bool) : Built (ofBool bit)
  | ofNat (width : UInt32) (n : Nat) : Built (ofNat width n)
  | ofInt (width : UInt32) (i : Int) : Built (ofInt width i)
  | digits {radix : Nat} {digits : List Char} {a : Bits} (h : ofDigits? radix digits = some a) : Built a
  | set {a b : Bits} {index : UInt32} {bit : Bool} (ha : Built a) (h : a.set? index bit = some b) :
      Built b
  | resize {a : Bits} (ha : Built a) (width : UInt32) : Built (a.resize width)
  | signExtend {a : Bits} (ha : Built a) (width : UInt32) : Built (a.signExtend width)
  | slice {a b : Bits} {hi lo : UInt32} (ha : Built a) (h : a.slice? hi lo = some b) : Built b
  | concat {high low : Bits} (hh : Built high) (hl : Built low) : Built (concat high low)
  | not {a : Bits} (ha : Built a) : Built a.not
  | and {a b c : Bits} (ha : Built a) (hb : Built b) (h : a.and? b = some c) : Built c
  | or {a b c : Bits} (ha : Built a) (hb : Built b) (h : a.or? b = some c) : Built c
  | xor {a b c : Bits} (ha : Built a) (hb : Built b) (h : a.xor? b = some c) : Built c

/-- What a step gives is what it is known to give. -/
theorem Shows.of_eq_some {x : Option Bits} {c : Bits} (h : ∃ b, x = some b ∧ b.Shows width f)
    (hc : x = some c) : c.Shows width f := by
  obtain ⟨b, hb, hshows⟩ := h
  rwa [← Option.some.inj (hb.symm.trans hc)]

theorem Bitwise.wellFormed {op : UInt64 → UInt64 → UInt64} {g : Bool → Bool → Bool} {c : Bits}
    (hop : Bitwise op g) (ha : a.WellFormed) (hb : b.WellFormed) (h : zipWords op a b = some c) :
    c.WellFormed := by
  have hwidth : a.width = b.width := by
    unfold zipWords at h
    split at h
    · assumption
    · cases h
  exact (Shows.of_eq_some (hop.shows ha hb hwidth) h).wellFormed

/-- No constructor and no operation leaves a bit above the width, or a word too many or too few. -/
theorem Built.wellFormed (h : a.Built) : a.WellFormed := by
  induction h with
  | zero | allOnes | ofBool | ofNat | ofInt | resize | signExtend | concat | not =>
    exact wellFormed_ofNat _ _
  | digits h =>
    unfold ofDigits? at h
    split at h
    · cases h
    · obtain ⟨words, -, rfl⟩ := Option.map_eq_some_iff.1 h
      exact wellFormed_ofNat _ _
  | @set a b index bit ha h iha =>
    by_cases hindex : index < a.width
    · exact (Shows.of_eq_some (iha.shows.set? hindex bit) h).wellFormed
    · rw [Bits.set?, if_neg hindex] at h
      cases h
  | slice ha h iha =>
    unfold slice? at h
    split at h
    · obtain rfl := Option.some.inj h
      exact wellFormed_ofNat _ _
    · cases h
  | and ha hb h iha ihb => exact bitwise_and.wellFormed iha ihb h
  | or ha hb h iha ihb => exact bitwise_or.wellFormed iha ihb h
  | xor ha hb h iha ihb => exact bitwise_xor.wellFormed iha ihb h

/-! ## The laws -/

/-- A string is a number of a fixed width: it holds nothing but the bits of the number, and what is done
    to it is done to the number. -/
structure Laws (a : Bits) : Prop where
  words_length : a.words.length = a.width.toNat ⌈/⌉ 64
  stored_of_le : ∀ i, a.width.toNat ≤ i → a.stored i = false
  bit?_eq : ∀ i, a.bit? i = some (a.stored i)
  eq_iff : ∀ b : Bits, b.Built → (a = b ↔ a.width = b.width ∧ a.val = b.val)
  isZero_iff : a.isZero = true ↔ a.val = 0
  significantBits_eq : a.significantBits = a.val.size
  set? : ∀ (index : UInt32) (bit : Bool), index < a.width → ∃ b, a.set? index bit = some b ∧
    b.width = a.width ∧ ∀ i, b.stored i = if i = index.toNat then bit else a.stored i
  resize : ∀ width, (a.resize width).width = width ∧
    (a.resize width).val = a.val % 2 ^ width.toNat
  signExtend : ∀ width, (a.signExtend width).width = width ∧
    ((a.signExtend width).val : Int) = a.signed % 2 ^ width.toNat
  slice? : ∀ hi lo : UInt32, lo ≤ hi → hi.toNat - lo.toNat + 1 < 2 ^ 32 →
    ∃ b, a.slice? hi lo = some b ∧ b.width.toNat = hi.toNat - lo.toNat + 1 ∧
      b.val = a.val / 2 ^ lo.toNat % 2 ^ (hi.toNat - lo.toNat + 1)
  concat : ∀ b : Bits, b.Built → a.width.toNat + b.width.toNat < 2 ^ 32 →
    (concat a b).width.toNat = a.width.toNat + b.width.toNat ∧
      (concat a b).val = a.val * 2 ^ b.width.toNat + b.val
  not : a.not.width = a.width ∧ a.not.val = 2 ^ a.width.toNat - 1 - a.val
  and? : ∀ b : Bits, b.Built → a.width = b.width →
    ∃ c, a.and? b = some c ∧ c.width = a.width ∧ c.val = a.val &&& b.val
  or? : ∀ b : Bits, b.Built → a.width = b.width →
    ∃ c, a.or? b = some c ∧ c.width = a.width ∧ c.val = a.val ||| b.val
  xor? : ∀ b : Bits, b.Built → a.width = b.width →
    ∃ c, a.xor? b = some c ∧ c.width = a.width ∧ c.val = a.val ^^^ b.val

/-- What operations make of a string, made by loops over the places; and what is read off its words from
    the highest one down. -/
structure Looped (a : Bits) : Prop where
  significantBits : Words.topBit a.words = a.significantBits
  resize : ∀ width,
    setWhere a.get 0 (min width.toNat a.width.toNat) (.zero width) = some (a.resize width)
  signExtend : ∀ width, (if 0 < a.width.toNat ∧ a.get (a.width.toNat - 1) then
      setWhere (fun _ => true) a.width.toNat (width.toNat - a.width.toNat) (a.resize width)
    else some (a.resize width)) = some (a.signExtend width)
  slice : ∀ hi lo : UInt32, lo ≤ hi → hi.toNat - lo.toNat + 1 < 2 ^ 32 →
    setWhere (fun i => a.get (lo.toNat + i)) 0 (hi.toNat - lo.toNat + 1) (.zero (hi - lo + 1)) =
      a.slice? hi lo
  concat : ∀ b : Bits, a.width.toNat + b.width.toNat < 2 ^ 32 →
    (setWhere b.get 0 b.width.toNat (.zero (a.width + b.width))).bind
      (setWhere a.get b.width.toNat a.width.toNat) = some (concat a b)
  not : writeEach (fun i => some !a.get i) 0 a.width.toNat (.zero a.width) = some a.not

theorem looped (a : Bits) : a.Looped where
  significantBits := (Words.bitLength_toNat a.words).symm
  resize := resize_loop a
  signExtend := signExtend_loop a
  slice _ _ hle hfits := (slice_loop a hle hfits).trans (a.slice?_of_fits hle hfits).symm
  concat _ hfits := concat_loop hfits
  not := not_loop a

/-! ## Sums of bits -/

section Sums

variable {a b : Bits}

/-- The sum of the bits of a number that has been cut to a width. -/
theorem val_ofNat (width : UInt32) (n : Nat) : (Bits.ofNat width n).val = n % 2 ^ width.toNat := by
  rw [(wellFormed_ofNat width n).val_eq_value, value_ofNat]

theorem val_ofInt (width : UInt32) (i : Int) :
    ((Bits.ofInt width i).val : Int) = i % 2 ^ width.toNat := by
  rw [Bits.ofInt, val_ofNat, Int.natCast_emod, toNat_emod_two_pow, cast_two_pow, Int.emod_emod]

/-- A string shows the number that has its bits. -/
theorem Shows.val_eq (h : a.Shows width f) {n : Nat} (hn : ∀ i, n.testBit i = f i) : a.val = n := by
  rw [h.wellFormed.val_eq_value]
  exact Nat.eq_of_testBit_eq fun i => (h.get_eq i).trans (hn i).symm

theorem isZero_iff (a : Bits) : a.isZero = true ↔ a.val = 0 := by
  have hwords : ∀ ws : List UInt64, ws.all (· == 0) = true ↔ Words.toNat ws = 0 := fun ws => by
    induction ws with
    | nil => simp [Words.toNat]
    | cons w ws ih => simp [Words.toNat, ih, ← UInt64.toNat_inj]
  rw [a.val_eq]
  exact hwords a.words

theorem slice?_val (h : a.WellFormed) {hi lo : UInt32} (hle : lo ≤ hi)
    (hfits : hi.toNat - lo.toNat + 1 < 2 ^ 32) :
    ∃ b, a.slice? hi lo = some b ∧ b.width.toNat = hi.toNat - lo.toNat + 1 ∧
      b.val = a.val / 2 ^ lo.toNat % 2 ^ (hi.toNat - lo.toNat + 1) := by
  have hwidth := toNat_slice_width hle hfits
  refine ⟨_, a.slice?_of_fits hle hfits, hwidth, ?_⟩
  rw [Bits.slice, val_ofNat, hwidth, Nat.shiftRight_eq_div_pow, h.val_eq_value]

theorem concat_val (ha : a.WellFormed) (hb : b.WellFormed)
    (hfits : a.width.toNat + b.width.toNat < 2 ^ 32) :
    (Bits.concat a b).val = a.val * 2 ^ b.width.toNat + b.val := by
  have hroom : a.value * 2 ^ b.width.toNat + b.value < 2 ^ (a.width.toNat + b.width.toNat) := by
    rw [Nat.pow_add]
    calc a.value * 2 ^ b.width.toNat + b.value
        < (a.value + 1) * 2 ^ b.width.toNat := by
          rw [Nat.succ_mul]
          exact Nat.add_lt_add_left b.value_lt _
      _ ≤ _ := Nat.mul_le_mul_right _ a.value_lt
  rw [Bits.concat, val_ofNat, toNat_add_width hfits, Nat.mod_eq_of_lt hroom, ha.val_eq_value,
    hb.val_eq_value]

theorem Bitwise.val_eq {op : UInt64 → UInt64 → UInt64} {g : Bool → Bool → Bool} (hop : Bitwise op g)
    {m : Nat → Nat → Nat} (hm : ∀ x y i, (m x y).testBit i = g (x.testBit i) (y.testBit i))
    (ha : a.WellFormed) (hb : b.WellFormed) (hwidth : a.width = b.width) :
    ∃ c, zipWords op a b = some c ∧ c.width = a.width ∧ c.val = m a.val b.val := by
  obtain ⟨c, hc, hshows⟩ := hop.shows ha hb hwidth
  refine ⟨c, hc, hshows.width_eq, hshows.val_eq fun i => ?_⟩
  rw [hm, ha.val_eq_value, hb.val_eq_value]
  rfl

end Sums

/-- What constructors make, made by loops over the places, and the numbers that are cut to the width. -/
structure Constructed (width : UInt32) : Prop where
  zero : Bits.zero width = ⟨width, List.replicate (wordCount width) 0⟩
  allOnes : setWhere (fun _ => true) 0 width.toNat (.zero width) = some (.allOnes width) ∧
    (Bits.allOnes width).val = 2 ^ width.toNat - 1
  ofBool : ∀ bit, (Bits.ofBool bit).val = bit.toNat
  ofNat : ∀ n < 2 ^ 128,
    setWhere n.testBit 0 (min width.toNat 128) (.zero width) = some (.ofNat width n) ∧
      (Bits.ofNat width n).val = n % 2 ^ width.toNat
  ofInt : ∀ i : Int, -2 ^ 127 ≤ i → i < 2 ^ 127 →
    (Bits.ofInt width i = if 128 < width.toNat then
        (Bits.ofNat 128 (i % 2 ^ 128).toNat).signExtend width
      else Bits.ofNat width (i % 2 ^ 128).toNat) ∧
    ((Bits.ofInt width i).val : Int) = i % 2 ^ width.toNat

theorem constructed (width : UInt32) : Constructed width where
  zero := congrArg (Bits.mk width) (words_zero width)
  allOnes := by
    refine ⟨allOnes_loop width, ?_⟩
    rw [Bits.allOnes, val_ofNat, Nat.mod_eq_of_lt (Nat.sub_lt (Nat.two_pow_pos _) Nat.one_pos)]
  ofBool bit := by cases bit <;> exact val_ofNat _ _
  ofNat n hn := ⟨ofNat_loop width hn, val_ofNat width n⟩
  ofInt i hlow hhigh := ⟨ofInt_eq width hlow hhigh, val_ofInt width i⟩

theorem Built.laws (h : a.Built) : a.Laws := by
  have hwf := h.wellFormed
  obtain ⟨hlength, hclear⟩ := wellFormed_iff_stored.1 hwf
  exact {
    words_length := hlength
    stored_of_le := hclear
    bit?_eq := fun i => (hwf.bit?_eq i).trans (congrArg some (hwf.stored_eq_get i).symm)
    eq_iff := fun b hb => by
      rw [hwf.eq_iff hb.wellFormed, hwf.val_eq_value, hb.wellFormed.val_eq_value]
    isZero_iff := a.isZero_iff
    significantBits_eq := by
      rw [a.val_eq, ← Words.bitLength_eq_size]
      rfl
    set? := fun index bit hindex => by
      obtain ⟨b, hb, hshows⟩ := hwf.shows.set? hindex bit
      refine ⟨b, hb, hshows.width_eq, fun i => ?_⟩
      rw [hshows.wellFormed.stored_eq_get, hshows.get_eq, hwf.stored_eq_get, Function.update_apply]
    resize := fun width => ⟨rfl, by rw [Bits.resize, val_ofNat, hwf.val_eq_value]⟩
    signExtend := fun width => ⟨rfl, val_ofInt width a.signed⟩
    slice? := fun hi lo => slice?_val hwf
    concat := fun b hb hfits => ⟨toNat_add_width hfits, concat_val hwf hb.wellFormed hfits⟩
    not := by
      refine ⟨rfl, ?_⟩
      rw [Bits.not, val_ofNat, hwf.val_eq_value, Nat.mod_eq_of_lt]
      have := Nat.two_pow_pos a.width.toNat
      omega
    and? := fun b hb => bitwise_and.val_eq (fun x y i => Nat.testBit_and x y i) hwf hb.wellFormed
    or? := fun b hb => bitwise_or.val_eq (fun x y i => Nat.testBit_or x y i) hwf hb.wellFormed
    xor? := fun b hb => bitwise_xor.val_eq (fun x y i => Nat.testBit_xor x y i) hwf hb.wellFormed }

/-- **Bit strings are numbers of a fixed width.**  Whatever has been made by constructors and operations
    holds the bits of one number and nothing else, every operation is arithmetic on that number, and
    loops over the places come to the same. -/
theorem built_faithful : (∀ width, Constructed width) ∧ ∀ a : Bits, a.Built → a.Laws ∧ a.Looped :=
  ⟨constructed, fun a h => ⟨h.laws, a.looped⟩⟩

/-- A string of two words, read beyond its width, inverted, and combined with what it is not. -/
theorem joined_faithful :
    let a := concat (ofInt 3 (-2)) (ofNat 70 5)
    (∃ b, a.slice? 100 60 = some b ∧ b.width.toNat = 41 ∧ b.val = 6 * 2 ^ 10) ∧
      a.not.val = 2 ^ 73 - 1 - (6 * 2 ^ 70 + 5) ∧ ∃ c, a.or? a.not = some c ∧ c.val = 2 ^ 73 - 1 := by
  intro a
  obtain ⟨hconstructed, hfaithful⟩ := built_faithful
  have hhigh : (ofInt 3 (-2)).Built := .ofInt 3 (-2)
  have hlow : (ofNat 70 5).Built := .ofNat 70 5
  have hhighVal : (ofInt 3 (-2)).val = 6 :=
    Int.natCast_inj.1 ((hconstructed 3).ofInt (-2) (by decide) (by decide)).2
  have hlowVal : (ofNat 70 5).val = 5 := ((hconstructed 70).ofNat 5 (by decide)).2
  obtain ⟨-, hval⟩ := (hfaithful _ hhigh).1.concat _ hlow (by decide)
  rw [hhighVal, hlowVal, show (ofNat 70 5).width.toNat = 70 from rfl] at hval
  have ha := (hfaithful a (.concat hhigh hlow)).1
  obtain ⟨b, hb, hwidth, hslice⟩ := ha.slice? 100 60 (by decide) (by decide)
  obtain ⟨c, hc, -, hor⟩ := ha.or? a.not (.not (.concat hhigh hlow)) ha.not.1.symm
  have hnot : a.not.val = 2 ^ 73 - 1 - (6 * 2 ^ 70 + 5) := by
    rw [ha.not.2, hval, show a.width.toNat = 73 from rfl]
  refine ⟨⟨b, hb, hwidth, ?_⟩, hnot, c, hc, ?_⟩
  · rw [hslice, hval]
    decide
  · rw [hor, hnot, hval]
    decide

end Circuitry.Bits
