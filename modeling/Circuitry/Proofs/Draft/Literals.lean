/-
  Integer literals.

  A literal is made in any case, cut to its width; what a width has no room for is reported besides.
  Here it is said when that is, and what the payload is.

  1. An integer fits a width if it is in the span of the width (`InSpan`), so exactly if reducing it to
     the width and reading it back changes nothing (`fit_eq_iff`).  The number of bits that is worked
     out for a literal is the least width that it fits (`unsignedBits_le_iff`, `signedBits_le_iff`), at
     every power of two and for the least and the largest integers alike.
  2. Making a literal is reporting what is wrong with it and making a signal (`Makes`): either all
     of it is done, or the limit of errors is reached with the reports.
-/
import Mathlib.Order.Bounds.Basic
import Circuitry.Proofs.Draft.AllOrNothing
import Circuitry.Proofs.Operator.Numbers

namespace Circuitry

/-! ## Least widths -/

theorem unsignedBits_le_iff {n width : Nat} (hwidth : 1 ≤ width) :
    unsignedBits n ≤ width ↔ InSpan false width n := by
  have hspan : InSpan false width n ↔ n < 2 ^ width := by
    show 0 ≤ (n : Int) ∧ (n : Int) < 2 ^ width ↔ n < 2 ^ width
    rw [← cast_two_pow]
    omega
  rw [hspan, ← Words.bitLength_le_iff, unsignedBits, Nat.max_le]
  exact and_iff_right hwidth

/-- The sign takes one bit, and a negative integer as many others as the one that is next to its
    negative. -/
theorem signedBits_le_iff {i : Int} {width : Nat} (hwidth : 1 ≤ width) :
    signedBits i ≤ width ↔ InSpan true width i := by
  obtain ⟨room, rfl⟩ := Nat.exists_eq_add_of_le' hwidth
  have hspan : InSpan true (room + 1) i ↔ -2 ^ room ≤ i ∧ i < 2 ^ room := by
    show -2 ^ (room + 1) ≤ 2 * i ∧ 2 * i < 2 ^ (room + 1) ↔ _
    rw [Int.pow_succ]
    omega
  rw [hspan, signedBits, Nat.succ_le_succ_iff, Words.bitLength_le_iff, ← cast_two_pow]
  split <;> omega

theorem one_le_signedBits (i : Int) : 1 ≤ signedBits i := Nat.succ_le_succ (Nat.zero_le _)

/-- What a signed literal does not fit.  Zero fits every width, also one of no bits. -/
theorem not_inSpan_iff {i : Int} {width : Nat} :
    ¬ InSpan true width i ↔ i ≠ 0 ∧ width < signedBits i := by
  rcases Nat.eq_zero_or_pos width with rfl | hpos
  · have hspan : InSpan true 0 i ↔ i = 0 := by
      show -1 ≤ 2 * i ∧ 2 * i < 1 ↔ i = 0
      omega
    rw [hspan]
    exact (and_iff_left (one_le_signedBits i)).symm
  · rw [← signedBits_le_iff hpos, Nat.not_le]
    refine ⟨fun h => ⟨?_, h⟩, And.right⟩
    rintro rfl
    exact absurd h (Nat.not_lt.2 hpos)

/-- The number of bits of a literal is the least width, of at least one bit, that does not change it. -/
theorem isLeast_unsignedBits (n : Nat) :
    IsLeast {width | 1 ≤ width ∧ fit false width n = n} (unsignedBits n) := by
  have hone : 1 ≤ unsignedBits n := Nat.le_max_left 1 _
  refine ⟨⟨hone, fit_eq_iff.2 ((unsignedBits_le_iff hone).1 (Nat.le_refl _))⟩, ?_⟩
  rintro width ⟨hwidth, hfit⟩
  exact (unsignedBits_le_iff hwidth).2 (fit_eq_iff.1 hfit)

theorem isLeast_signedBits (i : Int) :
    IsLeast {width | 1 ≤ width ∧ fit true width i = i} (signedBits i) := by
  refine ⟨⟨one_le_signedBits i, fit_eq_iff.2 ?_⟩, ?_⟩
  · exact (signedBits_le_iff (one_le_signedBits i)).1 (Nat.le_refl _)
  · rintro width ⟨hwidth, hfit⟩
    exact (signedBits_le_iff hwidth).2 (fit_eq_iff.1 hfit)

namespace Draft

/-! ## Making a literal -/

/-- The action makes a literal with this payload and reports these problems, and does nothing else.  It
    goes through unless the limit of errors is reached with the reports. -/
structure MakesLiteral (w : Session) (act : Build Signal) (kind : Kind) (width : Width)
    (problems : List Fault) (v : Bits) : Prop where
  goes : problems = [] ∨ w.draft.settings.errorLimit = 0 ∨
      w.draft.sink.errorCount + problems.length < w.draft.settings.errorLimit →
    ∃ z w', act w = .ok z w'
  made : ∀ {z w'}, act w = .ok z w' →
    z = ⟨w.signals.next, kind, width, some v⟩ ∧ w'.draft = w.draft.withReports problems
  stopped : ∀ {f w'}, act w = .error f w' → w.Stopped problems f w'

/-- Reports below the limit go through. -/
theorem run_reportAll (fs : List Fault) : ∀ {w : Session}, fs = [] ∨ w.draft.settings.errorLimit = 0 ∨
    w.draft.sink.errorCount + fs.length < w.draft.settings.errorLimit →
      ∃ w', reportAll fs w = .ok () w' := by
  induction fs with
  | nil => exact fun {w} _ => ⟨w, rfl⟩
  | cons f rest ih =>
    intro w h
    have hlimit := h.resolve_left (List.cons_ne_nil f rest)
    rw [List.length_cons] at hlimit
    have hreport : report f w = .ok () (w.reported f) := by
      rw [run_report]
      refine if_neg ?_
      show ¬ (0 < w.draft.settings.errorLimit ∧
        w.draft.settings.errorLimit ≤ w.draft.sink.errorCount + 1)
      omega
    have hrest : w.draft.settings.errorLimit = 0 ∨
        w.draft.sink.errorCount + 1 + rest.length < w.draft.settings.errorLimit := by omega
    obtain ⟨w', hw'⟩ := @ih (w.reported f) (.inr hrest)
    exact ⟨w', (bind_of_ok hreport).trans hw'⟩

/-- Reporting and then making a signal makes a literal. -/
theorem makesLiteral_reporting (w : Session) (kind : Kind) (width : Width) (problems : List Fault)
    (v : Bits) : MakesLiteral w (do reportAll problems; create kind width (some v)) kind
      (Signals.groundWidth kind width) problems v where
  goes h := by
    obtain ⟨w', hw'⟩ := run_reportAll problems h
    exact ⟨_, _, bind_of_ok hw'⟩
  made h := by
    obtain ⟨⟨⟩, w₁, hreports, hcreate⟩ := bind_eq_ok.1 h
    obtain rfl := (reportAll_stops problems w).of_ok rfl hreports
    obtain ⟨rfl, rfl⟩ := EStateM.Result.ok.inj hcreate
    exact ⟨rfl, rfl⟩
  stopped h := by
    cases hreports : reportAll problems w with
    | ok a w₁ => cases (bind_of_ok hreports).symm.trans h
    | error e w₁ =>
      obtain ⟨rfl, rfl⟩ := EStateM.Result.error.inj ((bind_of_error hreports).symm.trans h)
      exact (reportAll_stops problems w).of_error rfl hreports

theorem makesLiteral_uint (w : Session) (n : Nat) (width : Width) :
    MakesLiteral w (literalUInt n width) .uint width (uintProblems n width) (uintPayload n width) := by
  rw [literalUInt_eq]
  exact makesLiteral_reporting w .uint width _ _

theorem makesLiteral_sint (w : Session) (i : Int) (width : Width) :
    MakesLiteral w (literalSInt i width) .sint width (sintProblems i width) (sintPayload i width) := by
  rw [literalSInt_eq]
  exact makesLiteral_reporting w .sint width _ _

/-- A literal that fits its width is made without a report, and one that does not with one report, that
    it is invalid. -/
structure FitsOrReports (w : Session) (act : Build Signal) (kind : Kind) (width : UInt32) (fits : Prop)
    (f : Fault) (v : Bits) : Prop where
  code : f.code = ⟨307⟩
  silent : fits → MakesLiteral w act kind (.known width) [] v
  reported : ¬ fits → MakesLiteral w act kind (.known width) [f] v

theorem fitsOrReports_uint (w : Session) (n : Nat) (width : UInt32) :
    FitsOrReports w (literalUInt n (.known width)) .uint width (n < 2 ^ width.toNat)
      (.invalidLiteral (toString n) (.tooWide n.size width)) (.ofNat width n) := by
  have hmakes := makesLiteral_uint w n (.known width)
  refine ⟨rfl, fun hfits => ?_, fun hfits => ?_⟩
  · rw [← Words.bitLength_le_iff, ← Nat.not_lt] at hfits
    rwa [show uintProblems n (.known width) = [] from if_neg hfits] at hmakes
  · rw [← Words.bitLength_le_iff, Nat.not_le] at hfits
    rw [← Words.bitLength_eq_size]
    rwa [show uintProblems n (.known width) = [_] from if_pos hfits] at hmakes

theorem fitsOrReports_sint (w : Session) (i : Int) (width : UInt32) :
    FitsOrReports w (literalSInt i (.known width)) .sint width (InSpan true width.toNat i)
      (.invalidLiteral (toString i) (.tooWideSigned (signedBits i) width)) (.ofInt width i) := by
  have hmakes := makesLiteral_sint w i (.known width)
  refine ⟨rfl, fun hfits => ?_, fun hfits => ?_⟩
  · have hroom : ¬ (i ≠ 0 ∧ width.toNat < signedBits i) := fun h => not_inSpan_iff.2 h hfits
    rwa [show sintProblems i (.known width) = [] from if_neg hroom] at hmakes
  · rwa [show sintProblems i (.known width) = [_] from if_pos (not_inSpan_iff.1 hfits)] at hmakes

/-- The payload is as wide as it is to be, and is the integer up to multiples of what the width can
    tell apart. -/
structure Cut (v : Bits) (width : UInt32) (i : Int) : Prop where
  wellFormed : v.WellFormed
  width_eq : v.width = width
  value_eq : (v.value : Int) = i % 2 ^ width.toNat

theorem cut_ofNat (width : UInt32) (n : Nat) : Cut (.ofNat width n) width n where
  wellFormed := Bits.wellFormed_ofNat width n
  width_eq := rfl
  value_eq := by rw [Bits.value_ofNat, Int.natCast_emod, cast_two_pow]

theorem cut_ofInt (width : UInt32) (i : Int) : Cut (.ofInt width i) width i where
  wellFormed := Bits.wellFormed_ofNat width _
  width_eq := rfl
  value_eq := by
    rw [Bits.ofInt, Bits.value_ofNat, Int.natCast_emod, toNat_emod_two_pow, cast_two_pow,
      Int.emod_emod]

/-- The payload is read as the integer, and no shorter one is. -/
structure Least (v : Bits) (signed : Bool) (i : Int) : Prop where
  wellFormed : v.WellFormed
  reads : (if signed then v.signed else v.value) = i
  least : IsLeast {width : Nat | 1 ≤ width ∧ fit signed width i = i} v.width.toNat

theorem least_uint {n : Nat} (hn : n < 2 ^ 128) : Least (uintPayload n .unknown) false n := by
  have hbits : unsignedBits n ≤ 128 := by
    rw [unsignedBits, Nat.max_le]
    exact ⟨by decide, (Words.bitLength_le_iff n 128).2 hn⟩
  have hwidth : (UInt32.ofNat (unsignedBits n)).toNat = unsignedBits n :=
    Nat.mod_eq_of_lt (Nat.lt_of_le_of_lt hbits (by decide))
  have hleast := isLeast_unsignedBits n
  rw [← hwidth] at hleast
  exact ⟨Bits.wellFormed_ofNat _ n, (cut_ofNat _ n).value_eq.trans hleast.1.2, hleast⟩

theorem least_sint {i : Int} (hlow : -2 ^ 127 ≤ i) (hhigh : i < 2 ^ 127) :
    Least (sintPayload i .unknown) true i := by
  have hspan : InSpan true 128 i := by
    show -2 ^ 128 ≤ 2 * i ∧ 2 * i < 2 ^ 128
    omega
  have hbits : signedBits i ≤ 128 := (signedBits_le_iff (by decide)).2 hspan
  have hwidth : (UInt32.ofNat (signedBits i)).toNat = signedBits i :=
    Nat.mod_eq_of_lt (Nat.lt_of_le_of_lt hbits (by decide))
  have hleast := isLeast_signedBits i
  rw [← hwidth] at hleast
  exact ⟨Bits.wellFormed_ofNat _ _, (Bits.signed_ofInt _ i).trans hleast.1.2, hleast⟩

/-- **Integer literals.**  A literal of a known width is reported exactly if the integer is not one that
    the width has, and its payload is the integer cut to the width, however wide that is.  A literal of
    open width is never reported, and its payload is as narrow as can be. -/
theorem literals_fit (w : Session) :
    (∀ (n : Nat) (width : UInt32), ∃ v, Cut v width n ∧
      FitsOrReports w (literalUInt n (.known width)) .uint width (n < 2 ^ width.toNat)
        (.invalidLiteral (toString n) (.tooWide n.size width)) v) ∧
    (∀ (i : Int) (width : UInt32), ∃ v, Cut v width i ∧
      FitsOrReports w (literalSInt i (.known width)) .sint width
        (-2 ^ width.toNat ≤ 2 * i ∧ 2 * i < 2 ^ width.toNat)
        (.invalidLiteral (toString i) (.tooWideSigned (signedBits i) width)) v) ∧
    (∀ n : Nat, n < 2 ^ 128 → ∃ v, Least v false n ∧
      MakesLiteral w (literalUInt n .unknown) .uint .unknown [] v) ∧
    (∀ i : Int, -2 ^ 127 ≤ i → i < 2 ^ 127 → ∃ v, Least v true i ∧
      MakesLiteral w (literalSInt i .unknown) .sint .unknown [] v) :=
  ⟨fun n width => ⟨_, cut_ofNat width n, fitsOrReports_uint w n width⟩,
    fun i width => ⟨_, cut_ofInt width i, fitsOrReports_sint w i width⟩,
    fun n hn => ⟨_, least_uint hn, makesLiteral_uint w n .unknown⟩,
    fun i hlow hhigh => ⟨_, least_sint hlow hhigh, makesLiteral_sint w i .unknown⟩⟩

/-- The largest integer at one bit less than it needs, the least one continued far beyond its own bits,
    and the least one in its own. -/
theorem extremes_fit :
    let w : Session := ⟨.empty, .empty 0 "t" .default⟩
    (∃ z w', literalUInt (2 ^ 128 - 1) (.known 127) w = .ok z w' ∧ w'.draft.sink.errorCount = 1) ∧
    (∃ v z w', literalSInt (-2 ^ 127) (.known 200) w = .ok z w' ∧ z.literal = some v ∧
      v.value = 2 ^ 200 - 2 ^ 127 ∧ w'.draft.sink.errorCount = 0) ∧
    ∃ v z w', literalSInt (-2 ^ 127) .unknown w = .ok z w' ∧ z.literal = some v ∧
      v.signed = -2 ^ 127 ∧ v.width.toNat ≤ 128 := by
  intro w
  obtain ⟨huint, hsint, -, hopen⟩ := literals_fit w
  obtain ⟨v₁, -, hlarge⟩ := huint (2 ^ 128 - 1) 127
  obtain ⟨v₂, hcut, hwide⟩ := hsint (-2 ^ 127) 200
  obtain ⟨v₃, hleast, hmakes₃⟩ := hopen (-2 ^ 127) (by decide) (by decide)
  have hmakes₁ := hlarge.reported (by decide)
  have hmakes₂ := hwide.silent (by decide)
  obtain ⟨z₁, w₁, hz₁⟩ := hmakes₁.goes (.inr (.inl rfl))
  obtain ⟨z₂, w₂, hz₂⟩ := hmakes₂.goes (.inl rfl)
  obtain ⟨z₃, w₃, hz₃⟩ := hmakes₃.goes (.inl rfl)
  refine ⟨⟨z₁, w₁, hz₁, ?_⟩, ⟨v₂, z₂, w₂, hz₂, ?_, ?_, ?_⟩, v₃, z₃, w₃, hz₃, ?_, hleast.reads, ?_⟩
  · rw [(hmakes₁.made hz₁).2]
    rfl
  · rw [(hmakes₂.made hz₂).1]
  · exact Int.natCast_inj.1 (hcut.value_eq.trans (by decide))
  · rw [(hmakes₂.made hz₂).2]
    rfl
  · rw [(hmakes₃.made hz₃).1]
  · exact hleast.least.2 ⟨by decide, by decide⟩

end Draft

end Circuitry
