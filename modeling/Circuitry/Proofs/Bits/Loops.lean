/-
  Bit strings that are made one bit after the other.

  Constructors and changes of width are arithmetic on the number of a string.  The same strings come of
  loops: start from zeros, go through the places, and write a bit into its word wherever there is one to
  write (`Bits.writeEach`).

  1. One write changes one bit of one word, so the string stays well formed and all other bits stay what
     they are (`Shows.set?`).
  2. By induction on the number of places, a loop leaves behind what it was given at the places it has
     been to, and what was there before at all others (`Shows.writeEach`).
  3. The arithmetic shows the same bits.  Well-formed strings of one width with the same bits are equal,
     so each loop ends, inside the words, with the string that the arithmetic gives.

  Operations on two strings go from word to word instead, and do the same to each pair of bits
  (`Bitwise`).  How many bits a number has is read off the highest word that has one
  (`Words.bitLength_toNat`).
-/
import Mathlib.Logic.Function.Basic
import Circuitry.Proofs.Bits.Storage

namespace Circuitry

namespace Words

/-- A bit of a word that has been written through a mask. -/
theorem testBit_masked (w : UInt64) (bit : Bool) {i j : Nat} (hi : i < 64) (hj : j < 64) :
    (if bit then w ||| (1 : UInt64) <<< UInt64.ofNat i
      else w &&& ~~~((1 : UInt64) <<< UInt64.ofNat i)).toNat.testBit j =
      if j = i then bit else w.toNat.testBit j := by
  have hmod : (UInt64.ofNat i).toNat % 64 = i := by
    rw [UInt64.toNat_ofNat', Nat.mod_mod_of_dvd _ (by decide), Nat.mod_eq_of_lt hi]
  have hmask : ((1 : UInt64) <<< UInt64.ofNat i).toNat = 2 ^ i := by
    rw [UInt64.toNat_shiftLeft, hmod]
    have hlt : 2 ^ i < 2 ^ 64 := Nat.pow_lt_pow_right (by decide) hi
    rw [show (1 : UInt64).toNat = 1 from rfl, Nat.one_shiftLeft, Nat.mod_eq_of_lt hlt]
  cases bit with
  | true =>
    rw [if_pos rfl, UInt64.toNat_or, hmask, Nat.testBit_or, Nat.testBit_two_pow]
    by_cases h : j = i
    · simp [h]
    · simp [h, Ne.symm h]
  | false =>
    rw [if_neg (by simp), UInt64.toNat_and, UInt64.toNat_not, hmask, Nat.testBit_and]
    have hpow : 2 ^ i < 2 ^ 64 := Nat.pow_lt_pow_right (by decide) hi
    have hnot : (UInt64.size - 1 - 2 ^ i).testBit j = (decide (j < 64) && !(2 ^ i).testBit j) := by
      rw [← Nat.testBit_two_pow_sub_succ hpow, Nat.sub_sub, Nat.add_comm]
    rw [hnot, Nat.testBit_two_pow]
    by_cases h : j = i
    · simp [h]
    · simp [h, hj, Ne.symm h]

theorem toNat_append (ws vs : List UInt64) :
    toNat (ws ++ vs) = toNat ws + base ^ ws.length * toNat vs := by
  induction ws with
  | nil => simp [toNat]
  | cons w ws ih =>
    rw [List.cons_append, toNat, ih, toNat, List.length_cons, @Nat.pow_succ base, Nat.mul_comm _ base,
      Nat.mul_add, Nat.mul_assoc, Nat.add_assoc]

/-- A word on top counts all places below it. -/
theorem bitLength_append (ws : List UInt64) {w : UInt64} (hw : w ≠ 0) :
    bitLength (toNat (ws ++ [w])) = 64 * ws.length + bitLength w.toNat := by
  have hlow := toNat_lt ws
  rw [← Nat.pow_mul] at hlow
  have hvalue : toNat (ws ++ [w]) = 2 ^ (64 * ws.length) * w.toNat + toNat ws := by
    rw [toNat_append, ← Nat.pow_mul, Nat.add_comm]
    rfl
  have hsize : w.toNat.size ≠ 0 := fun h => hw (UInt64.toNat_inj.1 (Nat.size_eq_zero.1 h))
  simp only [bitLength_eq_size, hvalue]
  refine Nat.le_antisymm (Nat.size_le.2 ?_) ?_
  · rw [Nat.pow_add]
    calc 2 ^ (64 * ws.length) * w.toNat + toNat ws
        < 2 ^ (64 * ws.length) * (w.toNat + 1) := by
          rw [Nat.mul_succ]
          exact Nat.add_lt_add_left hlow _
      _ ≤ _ := Nat.mul_le_mul_left _ (Nat.lt_size_self w.toNat)
  · obtain ⟨top, htop⟩ := Nat.exists_eq_succ_of_ne_zero hsize
    have hset : 2 ^ top ≤ w.toNat := Nat.lt_size.1 (htop ▸ Nat.lt_succ_self top)
    rw [htop]
    refine Nat.lt_size.2 (?_ : 2 ^ (64 * ws.length + top) ≤ _)
    rw [Nat.pow_add]
    exact Nat.le_trans (Nat.mul_le_mul_left _ hset) (Nat.le_add_right _ _)

/-- How many bits there are, from the highest word that has one. -/
def topBit (ws : List UInt64) : Nat :=
  match ws.zipIdx.reverse.find? (·.1 ≠ 0) with
  | some (w, index) => 64 * index + bitLength w.toNat
  | none => 0

theorem bitLength_toNat (ws : List UInt64) : bitLength (toNat ws) = topBit ws := by
  induction ws using List.reverseRecOn with
  | nil => rfl
  | append_singleton ws w ih =>
    rw [topBit, List.zipIdx_append, List.reverse_append]
    by_cases hw : w = 0
    · subst hw
      have hsame : toNat (ws ++ [0]) = toNat ws := by
        rw [toNat_append]
        rfl
      rw [hsame, ih]
      rfl
    · rw [bitLength_append ws hw]
      simp [hw]

end Words

namespace Bits

variable {a b : Bits} {width : UInt32} {f : Nat → Bool}

/-- A well-formed string of this width, with these bits. -/
structure Shows (a : Bits) (width : UInt32) (f : Nat → Bool) : Prop where
  wellFormed : a.WellFormed
  width_eq : a.width = width
  get_eq : ∀ i, a.get i = f i

/-- There is only one. -/
theorem Shows.unique (ha : a.Shows width f) (hb : b.Shows width f) : a = b :=
  ha.wellFormed.ext_get hb.wellFormed (ha.width_eq.trans hb.width_eq.symm) fun i =>
    (ha.get_eq i).trans (hb.get_eq i).symm

theorem Shows.congr {g : Nat → Bool} (h : a.Shows width f) (hfg : ∀ i, f i = g i) :
    a.Shows width g :=
  ⟨h.wellFormed, h.width_eq, fun i => (h.get_eq i).trans (hfg i)⟩

theorem WellFormed.shows (h : a.WellFormed) : a.Shows a.width a.get := ⟨h, rfl, fun _ => rfl⟩

/-! ## Writing -/

/-- A word that is changed at one bit changes one place. -/
theorem stored_modify {g : UInt64 → UInt64} {i : Nat} {bit : Bool} (hi : i / 64 < a.words.length)
    (hg : ∀ w j, j < 64 → (g w).toNat.testBit j = if j = i % 64 then bit else w.toNat.testBit j)
    (j : Nat) : (Bits.mk a.width (a.words.modify (i / 64) g)).stored j =
      Function.update a.stored i bit j := by
  rw [stored, List.getElem?_modify, Function.update_apply]
  by_cases hword : i / 64 = j / 64
  · have hj : j / 64 < a.words.length := hword ▸ hi
    have hplace : j % 64 = i % 64 ↔ j = i := by omega
    simp only [List.getElem?_eq_getElem hj, hword, if_true, Option.map_eq_map, Option.map_some,
      Option.getD_some, hg _ _ (Nat.mod_lt j (by decide)), hplace, stored]
  · have hne : j ≠ i := fun h => hword (by rw [h])
    simp only [hword, if_false, hne, stored]
    cases a.words[j / 64]? <;> rfl

/-- A write changes one bit. -/
theorem Shows.set? (h : a.Shows width f) {index : UInt32} (hindex : index < width) (bit : Bool) :
    ∃ b, a.set? index bit = some b ∧ b.Shows width (Function.update f index.toNat bit) := by
  obtain ⟨hwf, rfl, hget⟩ := h
  have hlt : index.toNat < a.width.toNat := hindex
  have hin : index.toNat / 64 < a.words.length := by
    rw [hwf.words_length, wordCount]
    omega
  obtain ⟨hlength, hclear⟩ := wellFormed_iff_stored.1 hwf
  have hstored := stored_modify hin fun w j hj =>
    Words.testBit_masked w bit (Nat.mod_lt index.toNat (by decide)) hj
  have hwf' := wellFormed_iff_stored.2 ⟨(List.length_modify ..).trans hlength, fun i hi => by
    rw [hstored, Function.update_of_ne (Nat.ne_of_gt (Nat.lt_of_lt_of_le hlt hi)), hclear i hi]⟩
  refine ⟨_, if_pos hindex, hwf', rfl, fun i => ?_⟩
  rw [← hwf'.stored_eq_get, hstored, show a.stored = f from funext fun i =>
    (hwf.stored_eq_get i).trans (hget i)]

/-- Writes bits at `count` places from `start` on, one after the other.  Where none is given the place
    is left as it is. -/
def writeEach (g : Nat → Option Bool) (start : Nat) : Nat → Bits → Option Bits
  | 0, a => some a
  | count + 1, a =>
    (writeEach g start count a).bind fun b =>
      match g count with
      | some bit => b.set? (UInt32.ofNat (start + count)) bit
      | none => some b

/-- Sets the bits at those of the places where `p` holds. -/
def setWhere (p : Nat → Bool) : Nat → Nat → Bits → Option Bits :=
  writeEach fun i => if p i then some true else none

/-- The bits after a loop: what was given at the places that it has been to, and what was there before
    at all others. -/
def written (g : Nat → Option Bool) (start count : Nat) (f : Nat → Bool) (i : Nat) : Bool :=
  if start ≤ i ∧ i < start + count then (g (i - start)).getD (f i) else f i

theorem written_succ (g : Nat → Option Bool) (start count : Nat) (f : Nat → Bool) (i : Nat) :
    written g start (count + 1) f i =
      if i = start + count then (g count).getD (f i) else written g start count f i := by
  by_cases hi : i = start + count
  · subst hi
    rw [written, if_pos ⟨Nat.le_add_right _ _, Nat.lt_succ_self _⟩, if_pos rfl,
      Nat.add_sub_cancel_left]
  · have hsame : (start ≤ i ∧ i < start + (count + 1)) ↔ start ≤ i ∧ i < start + count := by omega
    simp only [written, hsame, hi, if_false]

/-- A loop over places below the width goes through. -/
theorem Shows.writeEach (g : Nat → Option Bool) (start : Nat) (h : a.Shows width f) :
    ∀ count, start + count ≤ width.toNat →
      ∃ b, writeEach g start count a = some b ∧ b.Shows width (written g start count f)
  | 0, _ => ⟨a, rfl, h.congr fun i => (if_neg (by omega)).symm⟩
  | count + 1, hle => by
    obtain ⟨b, hb, hshows⟩ := h.writeEach g start count (Nat.le_of_succ_le hle)
    have hplace : (UInt32.ofNat (start + count)).toNat = start + count := by
      rw [UInt32.toNat_ofNat']
      exact Nat.mod_eq_of_lt (Nat.lt_trans hle width.toNat_lt)
    rw [Bits.writeEach, hb, Option.bind_some]
    cases hg : g count with
    | none =>
      refine ⟨b, rfl, hshows.congr fun i => ?_⟩
      rw [written_succ, hg, Option.getD_none]
      split
      · next hi => exact if_neg (by omega)
      · rfl
    | some bit =>
      have hindex : UInt32.ofNat (start + count) < width := by
        rw [UInt32.lt_iff_toNat_lt, hplace]
        exact hle
      obtain ⟨b', hb', hshows'⟩ := hshows.set? hindex bit
      refine ⟨b', hb', hshows'.congr fun i => ?_⟩
      rw [written_succ, hg, hplace, Function.update_apply, Option.getD_some]

/-- A loop that only sets bits ends with the string that has these bits and those before. -/
theorem Shows.setWhere_eq (h : a.Shows width f) {p : Nat → Bool} {start count : Nat}
    (hle : start + count ≤ width.toNat)
    (hb : b.Shows width fun i => (decide (start ≤ i ∧ i < start + count) && p (i - start)) || f i) :
    setWhere p start count a = some b := by
  obtain ⟨b', hloop, hshows⟩ := h.writeEach _ start count hle
  rw [setWhere, hloop, hshows.unique (hb.congr fun i => ?_)]
  unfold written
  by_cases hi : start ≤ i ∧ i < start + count
  · cases hp : p (i - start) <;> simp [hi, hp]
  · simp [hi]

/-! ## What the arithmetic shows -/

/-- A number cut to a width shows its low bits. -/
theorem shows_ofNat (width : UInt32) (n : Nat) :
    (ofNat width n).Shows width fun i => decide (i < width.toNat) && n.testBit i where
  wellFormed := wellFormed_ofNat width n
  width_eq := rfl
  get_eq i := by rw [get, value_ofNat, Nat.testBit_mod_two_pow]

theorem shows_zero (width : UInt32) : (zero width).Shows width fun _ => false :=
  (shows_ofNat width 0).congr fun i => by rw [Nat.zero_testBit, Bool.and_false]

theorem shows_allOnes (width : UInt32) :
    (allOnes width).Shows width fun i => decide (i < width.toNat) :=
  (shows_ofNat width _).congr fun i => by rw [Nat.testBit_two_pow_sub_one, Bool.and_self]

theorem shows_resize (a : Bits) (width : UInt32) :
    (a.resize width).Shows width fun i => decide (i < width.toNat) && a.get i :=
  shows_ofNat width a.value

theorem shows_slice (a : Bits) (hi lo : UInt32) :
    (a.slice hi lo).Shows (hi - lo + 1) fun i =>
      decide (i < (hi - lo + 1).toNat) && a.get (lo.toNat + i) :=
  (shows_ofNat _ _).congr fun i => by rw [Nat.testBit_shiftRight, get]

theorem shows_not (a : Bits) : a.not.Shows a.width fun i => decide (i < a.width.toNat) && !a.get i :=
  (shows_ofNat a.width _).congr fun i => by
    rw [Nat.sub_sub, Nat.add_comm 1, Nat.testBit_two_pow_sub_succ a.value_lt, ← Bool.and_assoc,
      Bool.and_self, get]

theorem toNat_add_width {high low : Bits} (h : high.width.toNat + low.width.toNat < 2 ^ 32) :
    (high.width + low.width).toNat = high.width.toNat + low.width.toNat := by
  rw [UInt32.toNat_add, Nat.mod_eq_of_lt h]

theorem shows_concat {high low : Bits} (h : high.width.toNat + low.width.toNat < 2 ^ 32) :
    (concat high low).Shows (high.width + low.width) fun i =>
      if i < low.width.toNat then low.get i else high.get (i - low.width.toNat) := by
  refine (shows_ofNat _ _).congr fun i => ?_
  rw [Nat.mul_comm, Nat.testBit_two_pow_mul_add _ low.value_lt, toNat_add_width h]
  split
  · next hi =>
    rw [decide_eq_true (by omega)]
    exact Bool.true_and _
  · by_cases hi : i < high.width.toNat + low.width.toNat
    · rw [decide_eq_true hi]
      exact Bool.true_and _
    · rw [decide_eq_false hi, get, testBit_value_of_le high (by omega), Bool.false_and]

theorem shows_signExtend (a : Bits) (width : UInt32) :
    (a.signExtend width).Shows width fun i => decide (i < width.toNat) &&
      if i < a.width.toNat then a.get i
      else decide (a.width.toNat ≠ 0) && a.get (a.width.toNat - 1) := by
  refine ⟨wellFormed_ofNat _ _, rfl, fun i => ?_⟩
  by_cases hi : i < width.toNat
  · rw [decide_eq_true hi, Bool.true_and]
    exact testBit_signExtend a hi
  · rw [decide_eq_false hi, Bool.false_and]
    exact testBit_value_of_le _ (Nat.le_of_not_lt hi)

/-! ## The loops -/

theorem words_zero (width : UInt32) :
    (zero width).words = List.replicate (wordCount width) 0 := by
  have hzeros : ∀ count, Words.ofNat count 0 = List.replicate count 0 := fun count => by
    induction count with
    | zero => rfl
    | succ count ih => rw [Words.ofNat, Nat.zero_div, ih, List.replicate_succ]; rfl
  rw [zero, ofNat, Nat.zero_mod, hzeros]

theorem allOnes_loop (width : UInt32) :
    setWhere (fun _ => true) 0 width.toNat (zero width) = some (allOnes width) :=
  (shows_zero width).setWhere_eq (by omega) ((shows_allOnes width).congr fun i => by simp)

theorem ofNat_loop (width : UInt32) {n : Nat} (hn : n < 2 ^ 128) :
    setWhere n.testBit 0 (min width.toNat 128) (zero width) = some (ofNat width n) := by
  refine (shows_zero width).setWhere_eq (by omega) ((shows_ofNat width n).congr fun i => ?_)
  by_cases hi : i < 128
  · simp [hi]
  · have hclear : n.testBit i = false :=
      Nat.testBit_lt_two_pow (Nat.lt_of_lt_of_le hn (Nat.pow_le_pow_right (by decide) (by omega)))
    simp [hclear]

theorem get_of_le (a : Bits) {i : Nat} (h : a.width.toNat ≤ i) : a.get i = false :=
  testBit_value_of_le a h

theorem resize_loop (a : Bits) (width : UInt32) :
    setWhere a.get 0 (min width.toNat a.width.toNat) (zero width) = some (a.resize width) := by
  refine (shows_zero width).setWhere_eq (by omega) ((shows_resize a width).congr fun i => ?_)
  by_cases hi : i < a.width.toNat
  · simp [hi]
  · simp [get_of_le a (Nat.le_of_not_lt hi)]

/-- Nothing is to be copied in a narrower string, or where the top bit is clear. -/
theorem signExtend_eq_resize {a : Bits} {width : UInt32} (h : width.toNat ≤ a.width.toNat ∨
    ¬ (0 < a.width.toNat ∧ a.get (a.width.toNat - 1) = true)) :
    a.signExtend width = a.resize width := by
  refine (shows_signExtend a width).unique ((shows_resize a width).congr fun i => ?_)
  by_cases hi : i < a.width.toNat
  · rw [if_pos hi]
  · rw [if_neg hi, get_of_le a (Nat.le_of_not_lt hi), Bool.and_false]
    rcases h with hle | htop
    · rw [decide_eq_false (by omega), Bool.false_and]
    · have hclear : (decide (a.width.toNat ≠ 0) && a.get (a.width.toNat - 1)) = false := by
        simpa [Nat.pos_iff_ne_zero] using htop
      rw [hclear, Bool.and_false]

/-- Copies of the top bit are set behind the bits that there are. -/
theorem signExtend_loop (a : Bits) (width : UInt32) :
    (if 0 < a.width.toNat ∧ a.get (a.width.toNat - 1) then
      setWhere (fun _ => true) a.width.toNat (width.toNat - a.width.toNat) (a.resize width)
    else some (a.resize width)) = some (a.signExtend width) := by
  split
  · next htop =>
    rcases Nat.le_total width.toNat a.width.toNat with hle | hle
    · rw [Nat.sub_eq_zero_of_le hle, signExtend_eq_resize (.inl hle)]
      rfl
    · refine (shows_resize a width).setWhere_eq (by omega) ((shows_signExtend a width).congr fun i => ?_)
      rw [Nat.add_sub_cancel' hle, htop.2, Bool.and_true, Bool.and_true]
      by_cases hi : i < a.width.toNat
      · simp [hi, Nat.not_le_of_lt hi]
      · simp [hi, Nat.le_of_not_lt hi, get_of_le a, Nat.pos_iff_ne_zero.1 htop.1]
  · next htop => rw [signExtend_eq_resize (.inr htop)]

theorem toNat_slice_width {hi lo : UInt32} (hle : lo ≤ hi) (h : hi.toNat - lo.toNat + 1 < 2 ^ 32) :
    (hi - lo + 1).toNat = hi.toNat - lo.toNat + 1 := by
  rw [UInt32.toNat_add, UInt32.toNat_sub_of_le _ _ hle]
  exact Nat.mod_eq_of_lt h

theorem slice_loop (a : Bits) {hi lo : UInt32} (hle : lo ≤ hi)
    (h : hi.toNat - lo.toNat + 1 < 2 ^ 32) :
    setWhere (fun i => a.get (lo.toNat + i)) 0 (hi.toNat - lo.toNat + 1) (zero (hi - lo + 1)) =
      some (a.slice hi lo) := by
  have hwidth := toNat_slice_width hle h
  refine (shows_zero _).setWhere_eq (by omega) ((shows_slice a hi lo).congr fun i => ?_)
  simp [hwidth]

theorem concat_loop {high low : Bits} (h : high.width.toNat + low.width.toNat < 2 ^ 32) :
    (setWhere low.get 0 low.width.toNat (zero (high.width + low.width))).bind
      (setWhere high.get low.width.toNat high.width.toNat) = some (concat high low) := by
  have hwidth := toNat_add_width h
  have hlow : setWhere low.get 0 low.width.toNat (zero (high.width + low.width)) =
      some (low.resize (high.width + low.width)) := by
    refine (shows_zero _).setWhere_eq (by omega) ((shows_resize low _).congr fun i => ?_)
    by_cases hi : i < low.width.toNat
    · simp [hi, hwidth, Nat.lt_of_lt_of_le hi (Nat.le_add_left _ _)]
    · simp [get_of_le low (Nat.le_of_not_lt hi)]
  rw [hlow, Option.bind_some]
  refine (shows_resize low _).setWhere_eq (by omega) ((shows_concat h).congr fun i => ?_)
  by_cases hi : i < low.width.toNat
  · simp [hi, hwidth, Nat.not_le_of_lt hi, Nat.lt_of_lt_of_le hi (Nat.le_add_left _ _)]
  · rw [if_neg hi, get_of_le low (Nat.le_of_not_lt hi), Bool.and_false, Bool.or_false]
    by_cases htop : i < low.width.toNat + high.width.toNat
    · simp [htop, Nat.le_of_not_lt hi]
    · simp [htop, get_of_le high (by omega : high.width.toNat ≤ i - low.width.toNat)]

theorem not_loop (a : Bits) :
    writeEach (fun i => some !a.get i) 0 a.width.toNat (zero a.width) = some a.not := by
  obtain ⟨b, hloop, hshows⟩ :=
    (shows_zero a.width).writeEach (fun i => some !a.get i) 0 a.width.toNat (by omega)
  rw [hloop, hshows.unique ((shows_not a).congr fun i => ?_)]
  by_cases hi : i < a.width.toNat <;> simp [written, hi]

/-- An integer of at most 128 bits is written at 128 bits or fewer, and continued by its sign beyond. -/
theorem ofInt_eq (width : UInt32) {i : Int} (hlow : -2 ^ 127 ≤ i) (hhigh : i < 2 ^ 127) :
    ofInt width i = if 128 < width.toNat then (ofNat 128 (i % 2 ^ 128).toNat).signExtend width
      else ofNat width (i % 2 ^ 128).toNat := by
  split
  · have hsigned : (ofNat 128 (i % 2 ^ 128).toNat).signed = i := by
      show (ofInt 128 i).signed = i
      rw [signed_ofInt]
      show Int.bmod i (2 ^ 128) = i
      exact Int.bmod_eq_of_le_mul_two (by omega) (by omega)
    rw [signExtend, hsigned]
  · next hle =>
    have hdvd : (2 : Int) ^ width.toNat ∣ 2 ^ 128 := by
      exact_mod_cast Nat.pow_dvd_pow 2 (Nat.le_of_not_lt hle)
    have hsame : (i % 2 ^ width.toNat).toNat % 2 ^ width.toNat =
        (i % 2 ^ 128).toNat % 2 ^ width.toNat := by
      refine Int.natCast_inj.1 ?_
      rw [Int.natCast_emod, Int.natCast_emod, toNat_emod_two_pow, toNat_emod_two_pow 128, cast_two_pow,
        Int.emod_emod]
      exact (Int.emod_emod_of_dvd i hdvd).symm
    rw [ofInt, ofNat, hsame]
    rfl

/-! ## Word by word -/

/-- An operation on words that takes each bit from the two bits in its place, and none from nowhere. -/
structure Bitwise (op : UInt64 → UInt64 → UInt64) (g : Bool → Bool → Bool) : Prop where
  testBit : ∀ w v i, (op w v).toNat.testBit i = g (w.toNat.testBit i) (v.toNat.testBit i)
  clear : g false false = false

theorem bitwise_and : Bitwise (· &&& ·) and := ⟨fun w v i => by simp, rfl⟩

theorem bitwise_or : Bitwise (· ||| ·) or := ⟨fun w v i => by simp, rfl⟩

theorem bitwise_xor : Bitwise (· ^^^ ·) xor := ⟨fun w v i => by simp, rfl⟩

/-- Strings of one width are combined, bit by bit. -/
theorem Bitwise.shows {op : UInt64 → UInt64 → UInt64} {g : Bool → Bool → Bool} (hop : Bitwise op g)
    (ha : a.WellFormed) (hb : b.WellFormed) (hwidth : a.width = b.width) :
    ∃ c, zipWords op a b = some c ∧ c.Shows a.width fun i => g (a.get i) (b.get i) := by
  have hlength : a.words.length = b.words.length := by
    rw [ha.words_length, hb.words_length, hwidth]
  have hstored : ∀ i, (Bits.mk a.width (List.zipWith op a.words b.words)).stored i =
      g (a.get i) (b.get i) := by
    intro i
    rw [← ha.stored_eq_get, ← hb.stored_eq_get, stored, stored, stored, List.getElem?_zipWith]
    by_cases hi : i / 64 < a.words.length
    · rw [List.getElem?_eq_getElem hi, List.getElem?_eq_getElem (hlength ▸ hi)]
      exact hop.testBit _ _ _
    · rw [List.getElem?_eq_none (Nat.le_of_not_lt hi),
        List.getElem?_eq_none (hlength ▸ Nat.le_of_not_lt hi)]
      exact hop.clear.symm
  have hwf : (Bits.mk a.width (List.zipWith op a.words b.words)).WellFormed := by
    refine wellFormed_iff_stored.2 ⟨?_, fun i hi => ?_⟩
    · rw [List.length_zipWith, ← hlength, Nat.min_self]
      exact (wellFormed_iff_stored.1 ha).1
    · rw [hstored, get_of_le a hi, get_of_le b (hwidth ▸ hi), hop.clear]
  exact ⟨_, if_pos hwidth, hwf, rfl, fun i => (hwf.stored_eq_get i).symm.trans (hstored i)⟩

end Bits

end Circuitry
