/-
  Bits of a signal, and sums of 32 bits.

  `extract` and `bit` take indices of any size, and widths have 32 bits.

  1. They stop at one index only, the last one of 32 bits, and only if the width of the operand is open
     (`Overflows`): a range from zero up to it has one bit more than any width, and a literal that is to
     reach it would have to be as wide.  Nothing has been done then.
  2. A call that goes through returns a signal of the promised kind and width, also where a fault has
     been reported (`Ranged.signal`).
  3. From a signal that can be an operand a fault is reported exactly if the range does not lie within
     the signal (`Ranged.reports`, `Ranged.silent`).

  A bit is a range of its own, and the two operations differ in the fault that is reported only.  So
  both end in one of four ways (`RangeEnds`), and what is promised is read off these.
-/
import Circuitry.Proofs.Draft.Gate
import Circuitry.Script

namespace Circuitry.Draft

variable {w w' : Session} {a : Signal} {hi lo : Int} {kind : Kind}

/-! ## Ranges -/

/-- How many bits of a signal can be named.  At an open width these are all that have an index of
    32 bits. -/
def indexLimit : Width → Int
  | .unknown => 2 ^ 32
  | .known u => u.toNat

/-- The range does not lie within a signal of the given width. -/
def BadRange (width : Width) (hi lo : Int) : Prop := lo < 0 ∨ hi < lo ∨ indexLimit width ≤ hi

instance (width : Width) (hi lo : Int) : Decidable (BadRange width hi lo) :=
  inferInstanceAs (Decidable (_ ∨ _))

theorem indexFits_iff {width : Width} {index : Int} :
    indexFits width index = true ↔ 0 ≤ index ∧ index < indexLimit width := by
  cases width <;> simp [indexFits, indexLimit]

/-- A range within a signal, by its ends in 32 bits. -/
theorem ends_of_not_badRange {width : Width} (h : ¬ BadRange width hi lo) :
    0 ≤ lo ∧ lo ≤ hi ∧ indexFits width hi = true ∧ (UInt32.ofNat hi.toNat).toNat = hi.toNat ∧
      (UInt32.ofNat lo.toNat).toNat = lo.toNat ∧ UInt32.ofNat lo.toNat ≤ UInt32.ofNat hi.toNat := by
  unfold BadRange at h
  have hlo : 0 ≤ lo := by omega
  have hle : lo ≤ hi := by omega
  have hfits : indexFits width hi = true := indexFits_iff.2 (by omega)
  have hhigh := toNat_of_indexFits hfits
  have hlow := toNat_of_le hle hfits
  exact ⟨hlo, hle, hfits, by omega, hlow, UInt32.le_iff_toNat_le.2 (by omega)⟩

/-- The last index is within a signal only at an open width. -/
theorem width_of_last {width : Width} (h : ¬ BadRange width hi lo) (hlast : ¬ hi < 2 ^ 32 - 1) :
    width = .unknown ∧ hi = 2 ^ 32 - 1 := by
  unfold BadRange at h
  cases width with
  | unknown =>
    simp only [indexLimit] at h
    exact ⟨rfl, by omega⟩
  | known u =>
    have hu := u.toNat_lt
    simp only [indexLimit] at h
    omega

/-- The width of a stand-in, in whole numbers. -/
theorem rangeWidth_eq (hi lo : Int) : ∃ u, rangeWidth hi lo = .known u ∧
    (u.toNat : Int) = min (max (hi - lo + 1) 1) (2 ^ 32 - 1) := by
  refine ⟨_, rfl, ?_⟩
  rw [Width.toNat_saturate]
  simp only [Width.limit]
  omega

/-- The width of a range of fewer than `2 ^ 32` bits, in whole numbers. -/
theorem toNat_span {high low : UInt32} (hle : low ≤ high)
    (hspan : high.toNat - low.toNat + 1 < 2 ^ 32) :
    (high - low + 1).toNat = high.toNat - low.toNat + 1 := by
  rw [UInt32.toNat_add, UInt32.toNat_sub_of_le _ _ hle, UInt32.toNat_one, Nat.mod_eq_of_lt hspan]

/-! ## How an operation ends -/

/-- A sum does not fit: the range ends with the last index, and its own width or that of the literal
    that is to reach so far has one bit too many. -/
structure Overflows (w : Session) (a : Signal) (hi lo : Int) : Prop where
  ready : w.Ready a
  width : a.width = .unknown
  last : hi = 2 ^ 32 - 1
  begins : 0 ≤ lo
  ends : lo ≤ hi
  much : lo = 0 ∨ w.draft.settings.foldLiterals = true ∧ a.literal ≠ none

/-- A range that overflows lies within the signal. -/
theorem Overflows.not_badRange (h : Overflows w a hi lo) : ¬ BadRange a.width hi lo := by
  obtain ⟨-, hwidth, hlast, hbegins, hends, -⟩ := h
  rw [BadRange, hwidth]
  simp only [indexLimit]
  omega

/-- How an operation ends that takes the bits `lo` up to `hi` of a signal. -/
inductive RangeEnds (w : Session) (a : Signal) (hi lo : Int) (kind : Kind) :
    EStateM.Result Fault Session (Option Signal) → Prop
  | refused (unready : ¬ w.Ready a) (f : Fault) : RangeEnds w a hi lo kind (.error f w)
  | reported (ready : w.Ready a) (bad : BadRange a.width hi lo) (f : Fault) :
      RangeEnds w a hi lo kind ((do report f; some <$> zero kind (rangeWidth hi lo) : Build _) w)
  | stopped (overflows : Overflows w a hi lo) : RangeEnds w a hi lo kind (.ok none w)
  | taken (ready : w.Ready a) (good : ¬ BadRange a.width hi lo) (fits : ¬ Overflows w a hi lo)
      {z : Signal} {w' : Session} (same : z.kind = kind) {u : UInt32} (width : z.width = .known u)
      (span : (u.toNat : Int) = hi - lo + 1) (sink : w'.draft.sink = w.draft.sink) :
      RangeEnds w a hi lo kind (.ok (some z) w')

theorem checkOperands_ready (h : w.Ready a) : checkOperands [a] w = .ok () w := by
  obtain ⟨x, hx⟩ := h
  have hoperands : operands [a] w = .ok [x] w := (bind_of_ok (run_operand hx)).trans rfl
  exact (bind_of_ok hoperands).trans rfl

theorem checkOperands_unready (h : ¬ w.Ready a) : ∃ f, checkOperands [a] w = .error f w := by
  cases hcheck : checkOperands [a] w with
  | ok r w' =>
    obtain ⟨xs, w₁, hoperands, -⟩ := bind_eq_ok.1 hcheck
    obtain ⟨hready, -⟩ := (operands_gates (List.Subset.refl [a])).of_ok rfl hoperands
    exact absurd (hready a (List.mem_cons_self ..)) h
  | error f w' =>
    obtain ⟨-, rfl⟩ := (looks_checkOperands [a] w).of_error rfl hcheck
    exact ⟨f, rfl⟩

/-- An index outside of a signal is reported, and nothing is found. -/
theorem indexWithin?_of_not_fits {index : Int} (h : ¬ indexFits a.width index = true) : ∃ f : Fault,
    indexWithin? a index = (do report f; return none) := by
  unfold indexWithin?
  rw [if_neg h]
  exact ⟨_, rfl⟩

/-- Good indices of a signal that is ready: what is left to look at are the sums. -/
theorem rangeEnds_selectBits (ready : w.Ready a) (good : ¬ BadRange a.width hi lo)
    {high low : UInt32} (hhigh : high = .ofNat hi.toNat) (hlow : low = .ofNat lo.toNat)
    (hspan : high.toNat - low.toNat + 1 < 2 ^ 32) {width : Width}
    (hground : Signals.groundWidth kind width = .known (high - low + 1)) :
    RangeEnds w a hi lo kind ((selectBits a high low kind width).run w) := by
  obtain ⟨x, hx⟩ := ready
  obtain ⟨hlo, hle, -, hnatHigh, hnatLow, hrange⟩ := ends_of_not_badRange good
  rw [← hhigh] at hnatHigh hrange
  rw [← hlow] at hnatLow hrange
  have hwidth : ((high - low + 1).toNat : Int) = hi - lo + 1 := by
    rw [toNat_span hrange hspan]
    omega
  have hoperator : applyAt (.bits high low) [a] kind width w =
      .ok (w.resultSignal kind width) (w.defined (.bits high low) [x] kind width) :=
    applyAt_of_operand (run_operand hx) _ kind width
  -- a range from zero up to the last index would be too wide, so only a literal can be in the way
  have hmuch : Overflows w a hi lo → w.draft.settings.foldLiterals = true ∧ a.literal ≠ none := by
    intro h
    have hlast := h.last
    exact h.much.resolve_left (by omega)
  cases hfold : w.draft.settings.foldLiterals with
  | false =>
    rw [selectBits_off hfold, Checked.run_map_of_ok hoperator]
    refine .taken ⟨x, hx⟩ good (fun h => ?_) rfl hground hwidth rfl
    rw [hfold] at hmuch
    exact absurd (hmuch h).1 nofun
  | true =>
    rw [selectBits_on hfold]
    cases hliteral : a.literal with
    | none =>
      dsimp only
      rw [Checked.run_map_of_ok hoperator]
      exact .taken ⟨x, hx⟩ good (fun h => (hmuch h).2 hliteral) rfl hground hwidth rfl
    | some v =>
      dsimp only
      by_cases hreach : high.toNat + 1 < 2 ^ 32
      · rw [if_pos ⟨hrange, hreach⟩]
        refine .taken ⟨x, hx⟩ good (fun h => ?_) rfl hground hwidth rfl
        have hlast := h.last
        omega
      · rw [if_neg fun h => hreach h.2]
        obtain ⟨hopen, hlast⟩ := width_of_last good (by omega)
        exact .stopped ⟨⟨x, hx⟩, hopen, hlast, hlo, hle, .inr ⟨hfold, by simp [hliteral]⟩⟩

/-- An operation that keeps to the common shape ends in one of the four ways if its selection does. -/
theorem rangeEnds_selection {bad : Prop} [Decidable bad]
    (hbad : BadRange a.width hi lo ↔ bad ∨ ¬ indexFits a.width hi = true) (fault : Fault)
    {standIn : Width} (hstandIn : standIn = rangeWidth hi lo) {select : UInt32 → Checked Signal}
    (hselect : w.Ready a → ¬ BadRange a.width hi lo →
      RangeEnds w a hi lo kind ((select (.ofNat hi.toNat)).run w)) :
    RangeEnds w a hi lo kind (selection a bad fault hi kind standIn select w) := by
  subst hstandIn
  by_cases hready : w.Ready a
  · have hcheck := checkOperands_ready hready
    by_cases hfits : ¬ bad ∧ indexFits a.width hi = true
    · rw [selection_of_fits hfits.1 hcheck hfits.2]
      exact hselect hready fun h => (hbad.1 h).elim hfits.1 fun hnot => hnot hfits.2
    · have hrange : BadRange a.width hi lo := by
        rw [hbad]
        tauto
      unfold selection
      rw [bind_of_ok hcheck]
      split
      · exact .reported hready hrange fault
      · next hgood =>
        obtain ⟨f, hf⟩ := indexWithin?_of_not_fits (a := a) fun h => hfits ⟨hgood, h⟩
        rw [hf, bind_assoc]
        exact .reported hready hrange f
  · obtain ⟨f, hf⟩ := checkOperands_unready hready
    unfold selection
    rw [bind_of_error hf]
    exact .refused hready f

theorem rangeEnds_extract (w : Session) (a : Signal) (hi lo : Int) :
    RangeEnds w a hi lo .uint ((extract a hi lo).run w) := by
  rw [run_extract]
  refine rangeEnds_selection ?_ _ rfl fun ready good => ?_
  · rw [indexFits_iff]
    unfold BadRange
    omega
  · obtain ⟨hlo, hle, -, hnatHigh, hnatLow, hrange⟩ := ends_of_not_badRange good
    rw [run_selectRange]
    split
    · next h => exact rangeEnds_selectBits ready good rfl rfl h.2 rfl
    · next h =>
      have hlast : ¬ hi < 2 ^ 32 - 1 := by
        intro hsmall
        exact h ⟨hrange, by omega⟩
      obtain ⟨hopen, hhi⟩ := width_of_last good hlast
      have hall : lo = 0 := by
        by_contra hpositive
        exact h ⟨hrange, by omega⟩
      exact .stopped ⟨ready, hopen, hhi, hlo, hle, .inl hall⟩

theorem rangeEnds_bit (w : Session) (a : Signal) (index : Int) :
    RangeEnds w a index index .bool ((bit a index).run w) := by
  rw [run_bit]
  refine rangeEnds_selection ?_ _ ?_ fun ready good => ?_
  · rw [indexFits_iff]
    unfold BadRange
    omega
  · rw [rangeWidth, Int.sub_self]
    rfl
  · exact rangeEnds_selectBits ready good rfl rfl (by omega) (groundWidth_bit _)

/-! ## What ranges come to -/

/-- What an operation comes to that takes the bits `lo` up to `hi` of a signal. -/
structure Ranged (w : Session) (a : Signal) (hi lo : Int) (kind : Kind) (act : Checked Signal) :
    Prop where
  /-- It stops exactly where a sum does not fit, before it has done anything. -/
  stops : ∀ w', act.run w = .ok none w' ↔ Overflows w a hi lo ∧ w' = w
  /-- What it returns, with or without a report, is as wide as the range. -/
  signal : ∀ z w', act.run w = .ok (some z) w' → z.kind = kind ∧ ∃ u, z.width = .known u ∧
    (u.toNat : Int) = min (max (hi - lo + 1) 1) (2 ^ 32 - 1)
  /-- A good range is taken without a report. -/
  silent : w.Ready a → ¬ BadRange a.width hi lo → ¬ Overflows w a hi lo →
    ∃ z w', act.run w = .ok (some z) w' ∧ w'.draft.sink = w.draft.sink
  /-- A bad one is reported. -/
  reports : w.Ready a → BadRange a.width hi lo → ∃ (f : Fault) (w' : Session),
    w'.draft.sink = (w.reported f).draft.sink ∧
      ((∃ e, act.run w = .error e w') ∨ ∃ z, act.run w = .ok (some z) w')

/-- A bit is one bit wide, and so are booleans. -/
theorem groundWidth_rangeWidth (h : kind = .bool → hi = lo) :
    Signals.groundWidth kind (rangeWidth hi lo) = rangeWidth hi lo := by
  cases kind with
  | bool =>
    obtain rfl := h rfl
    rw [rangeWidth, Int.sub_self]
    rfl
  | uint | sint => rfl

/-- A report that is one too many ends the call, and else a stand-in is returned. -/
theorem run_reported (w : Session) (f : Fault) (kind : Kind) (width : Width) :
    ∃ w', w'.draft.sink = (w.reported f).draft.sink ∧
      ((∃ e, (do report f; some <$> zero kind width : Build _) w = .error e w') ∨
        ∃ z, (do report f; some <$> zero kind width : Build _) w = .ok (some z) w' ∧
          z.kind = kind ∧ z.width = Signals.groundWidth kind width) := by
  have hreport := run_report f w
  split at hreport
  · rw [bind_of_error hreport]
    exact ⟨_, rfl, .inl ⟨_, rfl⟩⟩
  · rw [bind_of_ok hreport]
    refine ⟨(w.reported f).created, rfl, .inr ⟨_, rfl, rfl, rfl⟩⟩

namespace RangeEnds

variable {r : EStateM.Result Fault Session (Option Signal)} (h : RangeEnds w a hi lo kind r)

include h

theorem stops : r = .ok none w' ↔ Overflows w a hi lo ∧ w' = w := by
  cases h with
  | refused unready f => exact ⟨nofun, fun hover => absurd hover.1.ready unready⟩
  | reported ready bad f =>
    obtain ⟨w₁, -, ⟨e, he⟩ | ⟨z, hz, -⟩⟩ := run_reported w f kind (rangeWidth hi lo)
    · rw [he]
      exact ⟨nofun, fun hover => absurd bad hover.1.not_badRange⟩
    · rw [hz]
      exact ⟨nofun, fun hover => absurd bad hover.1.not_badRange⟩
  | stopped overflows =>
    refine ⟨fun hr => ⟨overflows, ?_⟩, fun hover => by rw [hover.2]⟩
    exact (EStateM.Result.ok.inj hr).2.symm
  | taken ready good fits => exact ⟨nofun, fun hover => absurd hover.1 fits⟩

theorem signal (hbool : kind = .bool → hi = lo) {z : Signal} (hz : r = .ok (some z) w') :
    z.kind = kind ∧ ∃ u, z.width = .known u ∧
      (u.toNat : Int) = min (max (hi - lo + 1) 1) (2 ^ 32 - 1) := by
  cases h with
  | refused unready f => cases hz
  | reported ready bad f =>
    obtain ⟨w₁, -, ⟨e, he⟩ | ⟨z', hz', hkind, hwidth⟩⟩ := run_reported w f kind (rangeWidth hi lo)
    · cases he.symm.trans hz
    · obtain ⟨hsome, -⟩ := EStateM.Result.ok.inj (hz'.symm.trans hz)
      obtain rfl := Option.some.inj hsome
      obtain ⟨u, hu, hnat⟩ := rangeWidth_eq hi lo
      exact ⟨hkind, u, by rw [hwidth, groundWidth_rangeWidth hbool, hu], hnat⟩
  | stopped overflows => cases hz
  | @taken ready good fits z' w₁ same u width span sink =>
    obtain ⟨hsome, -⟩ := EStateM.Result.ok.inj hz
    obtain rfl := Option.some.inj hsome
    obtain ⟨hlo, hle, -⟩ := ends_of_not_badRange good
    have hu := u.toNat_lt
    exact ⟨same, u, width, by omega⟩

theorem silent (hready : w.Ready a) (hgood : ¬ BadRange a.width hi lo)
    (hfits : ¬ Overflows w a hi lo) : ∃ z w', r = .ok (some z) w' ∧ w'.draft.sink = w.draft.sink := by
  cases h with
  | refused unready f => exact absurd hready unready
  | reported ready bad f => exact absurd bad hgood
  | stopped overflows => exact absurd overflows hfits
  | taken ready good fits same width span sink => exact ⟨_, _, rfl, sink⟩

/-- A bad range is reported, also where that report is one too many and ends the call. -/
theorem reports (hready : w.Ready a) (hbad : BadRange a.width hi lo) : ∃ (f : Fault) (w' : Session),
    w'.draft.sink = (w.reported f).draft.sink ∧
      ((∃ e, r = .error e w') ∨ ∃ z, r = .ok (some z) w') := by
  cases h with
  | refused unready f => exact absurd hready unready
  | reported ready bad f =>
    obtain ⟨w', hsink, ⟨e, he⟩ | ⟨z, hz, -⟩⟩ := run_reported w f kind (rangeWidth hi lo)
    · exact ⟨f, w', hsink, .inl ⟨e, he⟩⟩
    · exact ⟨f, w', hsink, .inr ⟨z, hz⟩⟩
  | stopped overflows => exact absurd hbad overflows.not_badRange
  | taken ready good => exact absurd hbad good

end RangeEnds

/-- An operation that ends in one of these ways keeps the promises. -/
theorem ranged_of_ends {act : Checked Signal} (h : RangeEnds w a hi lo kind (act.run w))
    (hbool : kind = .bool → hi = lo) : Ranged w a hi lo kind act where
  stops _ := h.stops
  signal _ _ := h.signal hbool
  silent := h.silent
  reports := h.reports

/-- **Ranges of bits.**  For every operand, all settings and all indices: `extract` and `bit` stop
    exactly where a sum of 32 bits does not fit, which is when the range ends with the last index of an
    open width and is all there is, or is taken from a literal at once.  A call that goes through returns
    a signal as wide as the range, and a fault is reported exactly for a range that does not lie within
    the signal. -/
theorem ranges_fit (w : Session) (a : Signal) (hi lo index : Int) :
    Ranged w a hi lo .uint (extract a hi lo) ∧ Ranged w a index index .bool (bit a index) ∧
      ∀ z w', (bit a index).run w = .ok (some z) w' → z.width = .known 1 := by
  have hbit := ranged_of_ends (rangeEnds_bit w a index) fun _ => rfl
  refine ⟨ranged_of_ends (rangeEnds_extract w a hi lo) nofun, hbit, fun z w' hz => ?_⟩
  obtain ⟨-, u, hwidth, hnat⟩ := hbit.signal z w' hz
  rw [hwidth, show u = 1 from UInt32.toNat_inj.1 (by rw [UInt32.toNat_one]; omega)]

/-- An input of open width. -/
def openInput : Build Signal := do
  let x ← template .uint .unknown
  declare (.port .input) "x" x
  return x

/-- All bits of an input of open width. -/
def widestRange : Script :=
  .call ⟨"", false, some "x"⟩ (.declare (.port .input) "x" (.leaf (.template .uint .unknown))) <|
    .call ⟨"", false, some "r"⟩ (.extract "x" (2 ^ 32 - 1) 0) .done

/-- **Sums that do not fit.**  The range of all bits of an input of open width is asked for, which lies
    within it, and the widest range there can be is promised; the last bit of a literal is asked for.
    Both calls stop, and a description that makes such a call comes to nothing. -/
theorem lastIndex_stops :
    (∃ x w, openInput ⟨.empty, .empty 0 "t" .default⟩ = .ok x w ∧ w.Ready x ∧
      ¬ BadRange x.width (2 ^ 32 - 1) 0 ∧ rangeWidth (2 ^ 32 - 1) 0 = .known 4294967295 ∧
      (extract x (2 ^ 32 - 1) 0).run w = .ok none w) ∧
    (∃ y w, literalSInt (-1) .unknown ⟨.empty, .empty 0 "t" .default⟩ = .ok y w ∧ w.Ready y ∧
      ¬ BadRange y.width (2 ^ 32 - 1) (2 ^ 32 - 1) ∧ (bit y (2 ^ 32 - 1)).run w = .ok none w) ∧
    widestRange.overflows .empty "widest" .default = true := by
  refine ⟨?_, ?_, by decide +kernel⟩
  · refine ⟨_, _, rfl, ⟨_, .node rfl rfl⟩, by decide, rfl, ?_⟩
    refine (rangeEnds_extract _ _ _ _).stops.2 ⟨⟨⟨_, .node rfl rfl⟩, rfl, rfl, ?_, ?_, .inl rfl⟩, rfl⟩
    · decide
    · decide
  · refine ⟨_, _, rfl, ⟨_, .literal rfl⟩, by decide, ?_⟩
    refine (rangeEnds_bit _ _ _).stops.2
      ⟨⟨⟨_, .literal rfl⟩, rfl, rfl, ?_, ?_, .inr ⟨rfl, nofun⟩⟩, rfl⟩
    · decide
    · decide

end Circuitry.Draft
