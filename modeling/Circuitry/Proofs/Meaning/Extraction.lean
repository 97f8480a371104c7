/-
  Bits of a signal keep what their indices promise.

  Bits of a literal are taken at once where the settings say so, and by an operator otherwise.  For a
  signal of known width both give the raw bits that the indices name, as an unsigned number.

  1. A call that goes through without a report has indices within the signal (`extract_eq_ok`,
     `bit_eq_ok`).
  2. A literal of known width has all the bits that can be asked for in its payload, so continuing it by
     its sign adds nothing to them (`Constant.folded_eq_range`).
  3. `Passed.selectBits` puts the two ways together, and `Calls.extract`, `Calls.bit` say it of calls.
-/
import Circuitry.Proofs.Folding.Literal
import Circuitry.Proofs.Meaning.Operators

namespace Circuitry

open Draft (Session)
open Draft.Session (Step Proper)

/-! ## Ranges of raw bits -/

/-- Bits `lo` up to `hi` of a number, as a number. -/
def bitRange (n hi lo : Nat) : Nat := n / 2 ^ lo % 2 ^ (hi - lo + 1)

theorem shiftRight_mod_eq (n hi lo : Nat) : (n >>> lo) % 2 ^ (hi - lo + 1) = bitRange n hi lo := by
  rw [Nat.shiftRight_eq_div_pow, bitRange]

/-- The width of a range whose upper index is one of 32 bits. -/
theorem toNat_rangeWidth {hi lo w : UInt32} (hle : lo ≤ hi) (hhi : hi < w) :
    (hi - lo + 1).toNat = hi.toNat - lo.toNat + 1 := by
  have hw := w.toNat_lt
  have hlt := UInt32.lt_iff_toNat_lt.1 hhi
  rw [UInt32.toNat_add, UInt32.toNat_sub_of_le _ _ hle, UInt32.toNat_one]
  omega

/-- A literal of known width has all the bits that can be asked for, so taking them at once is taking
    them from its payload. -/
theorem Constant.folded_eq_range {k : Constant} (hsuits : k.Suits) {w hi lo : UInt32}
    (hwidth : k.width = .known w) (hle : lo ≤ hi) (hhi : hi < w) :
    (k.folded hi lo).value = bitRange k.value.value hi.toNat lo.toNat := by
  have hlt := UInt32.lt_iff_toNat_lt.1 hhi
  have hw := w.toNat_lt
  rw [folded, Bits.slice, Bits.value_ofNat, toNat_rangeWidth hle hhi, ← shiftRight_mod_eq,
    range_eq_iff]
  intro i _ hi'
  have hrange := UInt32.le_iff_toNat_le.1 hle
  rw [testBit_extended k (by omega) (by omega)]
  have hnone : (k.kind.isSigned && decide k.Negative && decide (k.value.width.toNat ≤ i)) = false := by
    rcases hsuits.payload.width_eq w hwidth with heq | hzero
    · have hbelow : ¬ k.value.width.toNat ≤ i := by
        rw [heq]
        omega
      simp [hbelow]
    · have hpositive : ¬ k.Negative := by simp [Negative, hzero, Bits.zero]
      simp [hpositive]
  rw [hnone, Bool.or_false]

/-! ## Selections taken apart -/

namespace Draft

/-- An index within a known width, in 32 bits. -/
theorem index_of_indexFits {u : UInt32} {index : Int} (h : indexFits (.known u) index = true) :
    (UInt32.ofNat index.toNat).toNat = index.toNat ∧ UInt32.ofNat index.toNat < u := by
  have hindex := toNat_of_indexFits h
  simp only [indexFits, Bool.and_eq_true, decide_eq_true_eq] at h
  refine ⟨by omega, UInt32.lt_iff_toNat_lt.2 (by omega)⟩

variable {a z : Signal} {w w' : Session}

/-- A selection without a report has good indices. -/
theorem selection_eq_ok {bad : Prop} [Decidable bad] {fault : Fault} {index : Int} {kind : Kind}
    {standIn : Width} {select : UInt32 → Checked Signal}
    (h : selection a bad fault index kind standIn select w = .ok (some z) w')
    (hclean : w'.draft.sink.errorCount = 0) :
    ¬ bad ∧ indexFits a.width index = true ∧
      (select (.ofNat index.toNat)).run w = .ok (some z) w' := by
  have hzero : ∀ w, Silent (some <$> zero kind standIn) w := fun _ => ⟨_, _, rfl, rfl⟩
  obtain ⟨⟨⟩, w₁, hcheck, hrest⟩ := bind_eq_ok.1 h
  obtain rfl := (looks_checkOperands [a] w).of_ok rfl hcheck
  split at hrest
  · exact absurd hclean (not_clean_of_report hzero hrest)
  · next hgood =>
    by_cases hfits : indexFits a.width index = true
    · rw [bind_of_ok (indexWithin?_of_fits hfits w₁)] at hrest
      exact ⟨hgood, hfits, hrest⟩
    · unfold indexWithin? at hrest
      rw [if_neg hfits, bind_assoc] at hrest
      exact absurd hclean (not_clean_of_report hzero hrest)

theorem extract_eq_ok {hi lo : Int} (h : (extract a hi lo).run w = .ok (some z) w')
    (hclean : w'.draft.sink.errorCount = 0) :
    0 ≤ lo ∧ lo ≤ hi ∧ indexFits a.width hi = true ∧
      (selectBits a (.ofNat hi.toNat) (.ofNat lo.toNat) .uint
        (.known (.ofNat hi.toNat - .ofNat lo.toNat + 1))).run w = .ok (some z) w' := by
  rw [run_extract] at h
  obtain ⟨hgood, hfits, hselect⟩ := selection_eq_ok h hclean
  rw [run_selectRange] at hselect
  split at hselect
  · exact ⟨by omega, by omega, hfits, hselect⟩
  · cases hselect

theorem bit_eq_ok {index : Int} (h : (bit a index).run w = .ok (some z) w')
    (hclean : w'.draft.sink.errorCount = 0) :
    0 ≤ index ∧ indexFits a.width index = true ∧
      (selectBits a (.ofNat index.toNat) (.ofNat index.toNat) .bool (.known 1)).run w =
        .ok (some z) w' := by
  rw [run_bit] at h
  obtain ⟨hgood, hfits, hselect⟩ := selection_eq_ok h hclean
  exact ⟨by omega, hfits, hselect⟩

end Draft

/-- An operation on a variable that is a number. -/
theorem Script.onNumber_eq_ok {w w' : World} {r : Answer × Option Draft.Bundle} {a : String}
    {act : Signal → Draft.Checked Signal}
    (h : (numeric a >>= fun x => answerChecked (act x)) w = .ok r w') :
    ∃ x z s, w.values.lookup a = some (.leaf x) ∧ (act x).run w.session = .ok (some z) s ∧
      r.2 = some (.leaf z) ∧ w' = { w with session := s } := by
  obtain ⟨x, w₁, hoperand, hrest⟩ := bind_eq_ok.1 h
  obtain ⟨hx, rfl⟩ := (numeric_looksUp a).of_ok rfl hoperand
  obtain ⟨made, w₂, hact, hanswer⟩ := bind_eq_ok.1 hrest
  obtain ⟨s, hs, rfl⟩ := liftBuild_eq_ok hact
  cases made with
  | none => cases hanswer
  | some z =>
    obtain ⟨hr, rfl⟩ := answerValue_eq_ok hanswer
    exact ⟨x, z, s, hx, hs, hr, rfl⟩

/-! ## Selections in a trial -/

namespace Trial

variable {T : Trial}

/-- The signal `z` has the raw bits `lo` up to `hi` of `x`, as an unsigned number. -/
def Takes (T : Trial) (x z : Signal) (hi lo : Nat) : Prop :=
  ∃ p v, T.value? x = some p ∧ T.value? z = some v ∧ v.signed = false ∧ v.width = hi - lo + 1 ∧
    v.raw = bitRange p.raw hi lo

namespace Passed

variable {L : List Signal} {w w' : Session} {x z : Signal}

/-- **Selections of bits keep their promise**, at once from a literal or by an operator. -/
theorem selectBits (h : T.Passed w') (hw : w.Proper L) (hx : x ∈ L) {u hi lo : UInt32}
    (hwidth : x.width = .known u) (hle : lo ≤ hi) (hhi : hi < u) {k : Kind} {width : Width}
    (hunsigned : k.isSigned = false)
    (hground : Signals.groundWidth k width = .known (hi - lo + 1))
    (hrun : (Draft.selectBits x hi lo k width).run w = .ok (some z) w') : T.Takes x z hi.toNat lo.toNat := by
  have hspan := toNat_rangeWidth hle hhi
  -- by an operator
  have hemitted (happly : Draft.applyAt (.bits hi lo) [x] k width w = .ok z w') :
      T.Takes x z hi.toNat lo.toNat := by
    obtain ⟨p, W, hp, hW, -, hz⟩ := h.apply₁ hw hx rfl happly
    obtain rfl := Width.known.inj (hground.symm.trans hW)
    have hraw : p.raw < 2 ^ Value.maxWidth :=
      Nat.lt_of_lt_of_le hp.fits.raw_lt (Nat.pow_le_pow_right (by decide) hp.fits.width_le)
    refine ⟨p, _, hp.value, hz.value, hunsigned, hspan, ?_⟩
    rw [← shiftRight_mod_eq, ← hspan]
    exact Constant.evaluated_eq hraw hi lo
  cases hfold : w.draft.settings.foldLiterals with
  | false =>
    rw [Draft.selectBits_off hfold] at hrun
    exact hemitted (Draft.Checked.of_run_map hrun)
  | true =>
    rw [Draft.selectBits_on hfold] at hrun
    cases hliteral : x.literal with
    | none =>
      rw [hliteral] at hrun
      exact hemitted (Draft.Checked.of_run_map hrun)
    | some v =>
      rw [hliteral] at hrun
      dsimp only at hrun
      split at hrun
      · obtain ⟨rfl, -⟩ := EStateM.Result.ok.inj (Draft.Checked.of_run_map hrun)
        have hapt := hw.suited.signals x hx
        have hsuits : Constant.Suits ⟨x.kind, x.width, v⟩ :=
          ⟨hapt.grounded, hapt.payload v hliteral⟩
        refine ⟨_, _, value?_of_literal hliteral, value?_of_literal rfl, hunsigned, ?_, ?_⟩
        · show ((Signals.groundWidth k width).get?.getD _).toNat = _
          rw [hground]
          exact hspan
        · exact Constant.folded_eq_range hsuits hwidth hle hhi
      · cases hrun

end Passed

namespace Calls

variable {r : Script.Answer × Option Draft.Bundle} {before after : Script.World} {a : String}

/-- What `extract` comes to, from a signal of known width. -/
theorem extract {hi lo : Int} (h : T.Calls (.extract a hi lo) r before after) :
    ∃ x z, before.values.lookup a = some (.leaf x) ∧ r.2 = some (.leaf z) ∧ 0 ≤ lo ∧ lo ≤ hi ∧
      ∀ u, x.width = .known u → T.Takes x z hi.toNat lo.toNat := by
  obtain ⟨x, z, s, hx, hz, hr, rfl⟩ := Script.onNumber_eq_ok h.call
  obtain ⟨hlo, hle, hfits, hselect⟩ := Draft.extract_eq_ok hz h.passed.clean
  obtain ⟨hrange, hfits', -⟩ := Draft.range_of_indexFits hlo hle hfits
  refine ⟨x, z, hx, hr, hlo, hle, fun u hu => ?_⟩
  rw [hu] at hfits
  obtain ⟨hhigh, hhi⟩ := Draft.index_of_indexFits hfits
  have hlow := Draft.toNat_of_le hle hfits
  have htakes := Passed.selectBits h.passed h.proper (Script.mem_around hx) hu hrange hhi rfl rfl hselect
  rwa [hhigh, hlow] at htakes

/-- What `bit` comes to. -/
theorem bit {index : Int} (h : T.Calls (.bit a index) r before after) :
    ∃ x z, before.values.lookup a = some (.leaf x) ∧ r.2 = some (.leaf z) ∧ 0 ≤ index ∧
      ∀ u, x.width = .known u → T.Takes x z index.toNat index.toNat := by
  obtain ⟨x, z, s, hx, hz, hr, rfl⟩ := Script.onNumber_eq_ok h.call
  obtain ⟨hindex, hfits, hselect⟩ := Draft.bit_eq_ok hz h.passed.clean
  refine ⟨x, z, hx, hr, hindex, fun u hu => ?_⟩
  rw [hu] at hfits
  obtain ⟨hhigh, hhi⟩ := Draft.index_of_indexFits hfits
  have htakes := Passed.selectBits h.passed h.proper (Script.mem_around hx) hu (UInt32.le_refl _) hhi
    rfl (Draft.groundWidth_bit _) hselect
  rwa [hhigh] at htakes

end Calls

end Trial

end Circuitry
