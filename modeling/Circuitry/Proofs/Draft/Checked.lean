/-
  Operations that may stop.

  `extract` and `bit` are actions of `Checked`, so what runs is a step of a description whose result is
  an option, with nothing in it where a sum did not fit.  Whatever is said of steps can be said of these.

  Both operations have one shape (`selection`): they look at the operand, report what is wrong with the
  indices, and then select.  Selecting stops before it has done anything, or else makes a literal or an
  operator's result (`Selects`).  Where it stops is said by two equations, `run_span` for the width of a
  range, and `selectBits_on` for a literal that is to be continued.  Below the last index of 32 bits
  nothing stops, so what takes bits only there never does (`Checked.Proceeds`).
-/
import Circuitry.Draft.Chain
import Circuitry.Draft.Operations
import Circuitry.Proofs.Triple

namespace Circuitry

namespace Constant

/-- The payload continued so that it reaches bit `hi`. -/
def extended (k : Constant) (hi : UInt32) : Bits :=
  let span := max (k.width.get?.getD (hi + 1)) (hi + 1)
  if k.kind.isSigned then k.value.signExtend span else k.value.resize span

/-- Bits `lo` up to `hi` of a literal, taken at once. -/
def folded (k : Constant) (hi lo : UInt32) : Bits := (k.extended hi).slice hi lo

end Constant

/-- A literal of open width.  Every index of 32 bits lies within it, also the last one, to which no
    payload can be continued. -/
def Signal.OpenLiteral (a : Signal) : Prop := a.literal ≠ none ∧ a.width = .unknown

namespace Draft

variable {α β : Type} {w w' : Session}

/-! ## Running them -/

namespace Checked

/-- A step that goes through, as one that has not stopped. -/
theorem run_map_of_ok {act : Build α} {a : α} (h : act w = .ok a w') :
    (some <$> act) w = .ok (some a) w' :=
  bind_of_ok h

theorem of_run_map {act : Build α} {a : α} (h : (some <$> act) w = .ok (some a) w') :
    act w = .ok a w' := by
  cases hact : act w with
  | ok b w₁ =>
    obtain ⟨hsome, rfl⟩ := EStateM.Result.ok.inj ((run_map_of_ok hact).symm.trans h)
    rw [Option.some.inj hsome]
  | error e w₁ =>
    have herror : (some <$> act) w = .error e w₁ := bind_of_error hact
    cases herror.symm.trans h

/-- A step that cannot stop. -/
theorem run_lift (act : Build α) : (liftM act : Checked α).run = some <$> act := rfl

theorem run_lift_bind (act : Build α) (f : α → Checked β) :
    (liftM act >>= f).run = act >>= fun a => (f a).run := by
  funext w
  cases hact : act w with
  | ok a w' =>
    have hlift : (liftM act : Checked α).run w = .ok (some a) w' := by
      rw [run_lift]
      exact run_map_of_ok hact
    rw [bind_of_ok hact]
    exact bind_of_ok hlift
  | error e w' =>
    have hlift : (liftM act : Checked α).run w = .error e w' := by
      rw [run_lift]
      exact bind_of_error hact
    rw [bind_of_error hact]
    exact bind_of_error hlift

section Bind

variable {act : Checked α} {f : α → Checked β}

theorem run_bind_of_some {a : α} (h : act.run w = .ok (some a) w') :
    (act >>= f).run w = (f a).run w' :=
  bind_of_ok h

theorem run_bind_of_none (h : act.run w = .ok none w') : (act >>= f).run w = .ok none w' :=
  bind_of_ok h

end Bind

theorem run_sum (a b : UInt32) (w : Session) :
    (sum a b).run w = .ok (if a.toNat + b.toNat < 2 ^ 32 then some (a + b) else none) w := by
  unfold sum
  split <;> rfl

theorem run_difference (a b : UInt32) (w : Session) :
    (difference a b).run w = .ok (if b ≤ a then some (a - b) else none) w := by
  unfold difference
  split <;> rfl

/-- The width of a range is there if the range is not reversed and has fewer than `2 ^ 32` bits. -/
theorem run_span (hi lo : UInt32) (f : UInt32 → Checked α) (w : Session) :
    (do f (← sum (← difference hi lo) 1)).run w =
      if lo ≤ hi ∧ hi.toNat - lo.toNat + 1 < 2 ^ 32 then (f (hi - lo + 1)).run w
      else .ok none w := by
  have hdifference := run_difference hi lo w
  by_cases hle : lo ≤ hi
  · rw [if_pos hle] at hdifference
    have hsum := run_sum (hi - lo) 1 w
    rw [UInt32.toNat_sub_of_le _ _ hle, UInt32.toNat_one] at hsum
    rw [run_bind_of_some hdifference]
    by_cases hfits : hi.toNat - lo.toNat + 1 < 2 ^ 32
    · rw [if_pos hfits] at hsum
      rw [run_bind_of_some hsum, if_pos ⟨hle, hfits⟩]
    · rw [if_neg hfits] at hsum
      rw [run_bind_of_none hsum, if_neg fun h => hfits h.2]
  · rw [if_neg hle] at hdifference
    rw [run_bind_of_none hdifference, if_neg fun h => hle h.1]

end Checked

/-! ## Indices -/

/-- An index within a width is one of 32 bits. -/
theorem toNat_of_indexFits {width : Width} {index : Int} (h : indexFits width index = true) :
    ((UInt32.ofNat index.toNat).toNat : Int) = index := by
  have hbounds : 0 ≤ index ∧ index < 2 ^ 32 := by
    cases width with
    | unknown => simpa [indexFits] using h
    | known w =>
      have hw := w.toNat_lt
      simp only [indexFits, Bool.and_eq_true, decide_eq_true_eq] at h
      omega
  rw [UInt32.toNat_ofNat', Nat.mod_eq_of_lt (by omega)]
  omega

/-- So is every index below it. -/
theorem toNat_of_le {width : Width} {hi lo : Int} (hle : lo ≤ hi)
    (hfits : indexFits width hi = true) : (UInt32.ofNat lo.toNat).toNat = lo.toNat := by
  have hhigh := toNat_of_indexFits hfits
  have hlt := (UInt32.ofNat hi.toNat).toNat_lt
  rw [UInt32.toNat_ofNat']
  exact Nat.mod_eq_of_lt (by omega)

theorem indexWithin?_of_fits {a : Signal} {index : Int} (h : indexFits a.width index = true)
    (w : Session) :
    indexWithin? a index w = .ok (some (UInt32.ofNat index.toNat)) w := by
  unfold indexWithin?
  rw [if_pos h]
  rfl

/-! ## Selecting -/

/-- An operator on one operand. -/
theorem applyAt_of_operand {a : Signal} {x : Operand} (h : operand a w = .ok x w')
    (op : Operator) (kind : Kind) (width : Width) :
    applyAt op [a] kind width w = define op [x] kind width w' := by
  have hoperands : operands [a] w = .ok [x] w' := by
    unfold operands
    rw [bind_of_ok h]
    rfl
  unfold applyAt
  rw [bind_of_ok hoperands]

section Select

variable {a : Signal} {hi lo : UInt32} {kind : Kind} {width : Width}

/-- Without folding, an operator takes the bits. -/
theorem selectBits_off (h : w.draft.settings.foldLiterals = false) (hi lo : UInt32) (kind : Kind)
    (width : Width) : (selectBits a hi lo kind width).run w =
      (some <$> applyAt (.bits hi lo) [a] kind width) w := by
  have hfoldable : (foldable? a hi).run w = .ok (some none) w := by
    unfold foldable?
    have hget : (get : Checked Session).run w = .ok (some w) w := rfl
    rw [Checked.run_bind_of_some hget, if_neg (by simp [h])]
    rfl
  unfold selectBits
  rw [Checked.run_bind_of_some hfoldable]
  rfl

/-- With folding, a literal can be continued up to an index if one of 32 bits comes after it. -/
theorem run_foldable? (h : w.draft.settings.foldLiterals = true) (hi : UInt32) :
    (foldable? a hi).run w =
      match a.literal with
      | some v =>
        if hi.toNat + 1 < 2 ^ 32 then
          .ok (some (some (Constant.extended ⟨a.kind, a.width, v⟩ hi))) w
        else .ok none w
      | none => .ok (some none) w := by
  have hget : (get : Checked Session).run w = .ok (some w) w := rfl
  unfold foldable?
  rw [Checked.run_bind_of_some hget, if_pos h]
  cases a.literal with
  | none => rfl
  | some v =>
    have hsum := Checked.run_sum hi 1 w
    rw [UInt32.toNat_one] at hsum
    dsimp only
    by_cases hnext : hi.toNat + 1 < 2 ^ 32
    · rw [if_pos hnext] at hsum ⊢
      rw [Checked.run_bind_of_some hsum]
      rfl
    · rw [if_neg hnext] at hsum ⊢
      rw [Checked.run_bind_of_none hsum]

/-- With folding, the bits of a literal are taken at once, if one of 32 bits comes after the last. -/
theorem selectBits_on (h : w.draft.settings.foldLiterals = true) (hi lo : UInt32) (kind : Kind)
    (width : Width) : (selectBits a hi lo kind width).run w =
      match a.literal with
      | some v =>
        if lo ≤ hi ∧ hi.toNat + 1 < 2 ^ 32 then
          (some <$> create kind width (some (Constant.folded ⟨a.kind, a.width, v⟩ hi lo))) w
        else .ok none w
      | none => (some <$> applyAt (.bits hi lo) [a] kind width) w := by
  have hfoldable := run_foldable? (a := a) h hi
  unfold selectBits
  cases hliteral : a.literal with
  | none =>
    rw [hliteral] at hfoldable
    rw [Checked.run_bind_of_some hfoldable]
    rfl
  | some v =>
    rw [hliteral] at hfoldable
    dsimp only at hfoldable ⊢
    by_cases hnext : hi.toNat + 1 < 2 ^ 32
    · rw [if_pos hnext] at hfoldable
      rw [Checked.run_bind_of_some hfoldable]
      dsimp only
      -- a range of a payload that has been continued so far fits as well, unless it is reversed
      by_cases hle : lo ≤ hi
      · rw [if_pos ⟨hle, hnext⟩, Bits.slice?_of_fits _ hle (by omega)]
        rfl
      · rw [if_neg fun h => hle h.1, Bits.slice?, if_neg fun h => hle h.1]
        rfl
    · rw [if_neg hnext] at hfoldable
      rw [Checked.run_bind_of_none hfoldable, if_neg fun h => hnext h.2]

/-- The action selects bits `lo` up to `hi` of a signal: it stops before it has done anything, or makes
    a literal or the result of an operator, as wide as the range. -/
inductive Selects (a : Signal) (hi lo : UInt32) (kind : Kind) (w : Session) :
    EStateM.Result Fault Session (Option Signal) → Prop
  | stopped : Selects a hi lo kind w (.ok none w)
  | folded {width : Width} (k : Constant)
      (span : Signals.groundWidth kind width = .known (hi - lo + 1)) :
      Selects a hi lo kind w ((some <$> create kind width (some (k.folded hi lo))) w)
  | emitted {width : Width} (span : Signals.groundWidth kind width = .known (hi - lo + 1)) :
      Selects a hi lo kind w ((some <$> applyAt (.bits hi lo) [a] kind width) w)

theorem selects_selectBits (a : Signal)
    (span : Signals.groundWidth kind width = .known (hi - lo + 1)) (w : Session) :
    Selects a hi lo kind w ((selectBits a hi lo kind width).run w) := by
  cases hfold : w.draft.settings.foldLiterals with
  | false =>
    rw [selectBits_off hfold]
    exact .emitted span
  | true =>
    rw [selectBits_on hfold]
    cases a.literal with
    | none => exact .emitted span
    | some v =>
      dsimp only
      split
      · exact .folded _ span
      · exact .stopped

theorem run_selectRange (a : Signal) (hi lo : UInt32) (w : Session) : (selectRange a hi lo).run w =
    if lo ≤ hi ∧ hi.toNat - lo.toNat + 1 < 2 ^ 32 then
      (selectBits a hi lo .uint (.known (hi - lo + 1))).run w
    else .ok none w :=
  Checked.run_span hi lo (fun width => selectBits a hi lo .uint (.known width)) w

theorem selects_range (a : Signal) (hi lo : UInt32) (w : Session) :
    Selects a hi lo .uint w ((selectRange a hi lo).run w) := by
  rw [run_selectRange]
  split
  · exact selects_selectBits a rfl w
  · exact .stopped

theorem groundWidth_bit (i : UInt32) : Signals.groundWidth .bool (.known 1) = .known (i - i + 1) := by
  rw [UInt32.sub_self, UInt32.zero_add]
  rfl

theorem selects_bit (a : Signal) (i : UInt32) (w : Session) :
    Selects a i i .bool w ((selectBits a i i .bool (.known 1)).run w) :=
  selects_selectBits a (groundWidth_bit i) w

end Select

/-! ## The shape of both operations -/

/-- A selection of bits: unless the indices are bad by themselves, with the fault that is then reported,
    the highest of them is looked up. -/
def selection (a : Signal) (bad : Prop) [Decidable bad] (fault : Fault) (index : Int) (kind : Kind)
    (standIn : Width) (select : UInt32 → Checked Signal) : Build (Option Signal) := do
  checkOperands [a]
  if bad then
    report fault
    some <$> zero kind standIn
  else
    match ← indexWithin? a index with
    | none => some <$> zero kind standIn
    | some i => (select i).run

/-- An index within a signal that is selected without a report. -/
theorem selection_of_fits {a : Signal} {bad : Prop} [Decidable bad] (hgood : ¬ bad)
    {fault : Fault} {index : Int} {kind : Kind} {standIn : Width} {select : UInt32 → Checked Signal}
    (hcheck : checkOperands [a] w = .ok () w) (hfits : indexFits a.width index = true) :
    selection a bad fault index kind standIn select w = (select (.ofNat index.toNat)).run w := by
  unfold selection
  rw [bind_of_ok hcheck, if_neg hgood, bind_of_ok (indexWithin?_of_fits hfits w)]

theorem run_extract (a : Signal) (hi lo : Int) : (extract a hi lo).run =
    selection a (lo < 0 ∨ hi < lo) (.invalidBitRange hi lo) hi .uint (rangeWidth hi lo)
      fun high => selectRange a high (.ofNat lo.toNat) := by
  unfold extract selection
  rw [Checked.run_lift_bind]
  refine congrArg _ (funext fun _ => ?_)
  split
  · rw [Checked.run_lift_bind]
    rfl
  · rw [Checked.run_lift_bind]
    refine congrArg _ (funext fun high => ?_)
    cases high <;> rfl

theorem run_bit (a : Signal) (index : Int) : (bit a index).run =
    selection a (index < 0) (.negativeIndex index) index .bool (.known 1)
      fun i => selectBits a i i .bool (.known 1) := by
  unfold bit selection
  rw [Checked.run_lift_bind]
  refine congrArg _ (funext fun _ => ?_)
  split
  · rw [Checked.run_lift_bind]
    rfl
  · rw [Checked.run_lift_bind]
    refine congrArg _ (funext fun i => ?_)
    cases i <;> rfl

/-! ## Operations that go on -/

/-- The action never stops for good. -/
def Checked.Proceeds (act : Checked α) : Prop := ∀ w w', act.run w ≠ .ok none w'

namespace Checked.Proceeds

theorem lift (act : Build α) : Proceeds (liftM act) := by
  intro w w' h
  cases hact : act w with
  | ok a w₁ => cases (run_map_of_ok hact).symm.trans h
  | error e w₁ =>
    have herror : (liftM act : Checked α).run w = .error e w₁ := bind_of_error hact
    cases herror.symm.trans h

theorem ret (a : α) : Proceeds (pure a) := fun _ _ h => nomatch h

theorem bind {act : Checked α} {f : α → Checked β} (hact : act.Proceeds)
    (hf : ∀ a, (f a).Proceeds) : (act >>= f).Proceeds := by
  intro w w' h
  cases hrun : act.run w with
  | ok made w₁ =>
    cases made with
    | none => exact hact w w₁ hrun
    | some a => exact hf a w₁ w' ((run_bind_of_some hrun).symm.trans h)
  | error e w₁ =>
    have herror : (act >>= f).run w = .error e w₁ := bind_of_error hrun
    cases herror.symm.trans h

variable {cond : Checked Signal} {body : Checked Unit}

theorem clause (depth : UInt32) (hcond : cond.Proceeds) (hbody : body.Proceeds) :
    (Chain.clause depth cond body).Proceeds :=
  .bind hcond fun _ => .bind (.lift _) fun _ => .bind (.lift _) fun _ =>
    .bind hbody fun _ => .lift _

theorem start (hcond : cond.Proceeds) (hbody : body.Proceeds) :
    (Chain.start cond body).Proceeds :=
  .bind (clause 0 hcond hbody) fun _ => .ret _

theorem elseWhen (c : Chain) (hcond : cond.Proceeds) (hbody : body.Proceeds) :
    (c.elseWhen cond body).Proceeds :=
  .bind (.lift _) fun _ => .bind (clause c.depth hcond hbody) fun _ => .ret _

theorem otherwise (c : Chain) (hbody : body.Proceeds) : (c.otherwise body).Proceeds :=
  .bind (.lift _) fun _ => .bind hbody fun _ => .lift _

end Checked.Proceeds

open Checked (Proceeds)

theorem map_some_ne_none (act : Build α) : (some <$> act) w ≠ .ok none w' := Proceeds.lift act w w'

/-- A selection does not stop before it selects. -/
theorem selection_ne_none {a : Signal} {bad : Prop} [Decidable bad] {fault : Fault} {index : Int}
    {kind : Kind} {standIn : Width} {select : UInt32 → Checked Signal}
    (h : ¬ bad → indexFits a.width index = true → Proceeds (select (.ofNat index.toNat))) :
    selection a bad fault index kind standIn select w ≠ .ok none w' := by
  intro hrun
  obtain ⟨⟨⟩, w₁, -, hrest⟩ := bind_eq_ok.1 hrun
  split at hrest
  · obtain ⟨⟨⟩, w₂, -, hzero⟩ := bind_eq_ok.1 hrest
    exact map_some_ne_none _ hzero
  · next hgood =>
    by_cases hfits : indexFits a.width index = true
    · rw [bind_of_ok (indexWithin?_of_fits hfits w₁)] at hrest
      exact h hgood hfits _ _ hrest
    · unfold indexWithin? at hrest
      rw [if_neg hfits, bind_assoc] at hrest
      obtain ⟨⟨⟩, w₂, -, hzero⟩ := bind_eq_ok.1 hrest
      exact map_some_ne_none (zero kind standIn) hzero

theorem proceeds_selectBits (a : Signal) {hi lo : UInt32} (hle : lo ≤ hi)
    (hreach : hi.toNat + 1 < 2 ^ 32) (kind : Kind) (width : Width) :
    Proceeds (selectBits a hi lo kind width) := by
  intro w w'
  cases hfold : w.draft.settings.foldLiterals with
  | false =>
    rw [selectBits_off hfold]
    exact map_some_ne_none _
  | true =>
    rw [selectBits_on hfold]
    cases a.literal with
    | none => exact map_some_ne_none _
    | some v =>
      dsimp only
      rw [if_pos ⟨hle, hreach⟩]
      exact map_some_ne_none _

/-- Below the last index nothing stops. -/
theorem proceeds_extract (a : Signal) {hi : Int} (lo : Int) (h : hi < 2 ^ 32 - 1) :
    Proceeds (extract a hi lo) := by
  intro w w'
  rw [run_extract]
  refine selection_ne_none fun hgood hfits => ?_
  have hhigh := toNat_of_indexFits hfits
  have hlow := toNat_of_le (show lo ≤ hi by omega) hfits
  have hrange : UInt32.ofNat lo.toNat ≤ UInt32.ofNat hi.toNat := UInt32.le_iff_toNat_le.2 (by omega)
  intro w w'
  rw [run_selectRange, if_pos ⟨hrange, by omega⟩]
  exact proceeds_selectBits a hrange (by omega) .uint _ w w'

theorem proceeds_bit (a : Signal) {index : Int} (h : index < 2 ^ 32 - 1) :
    Proceeds (bit a index) := by
  intro w w'
  rw [run_bit]
  refine selection_ne_none fun _ hfits => ?_
  have hindex := toNat_of_indexFits hfits
  exact proceeds_selectBits a (UInt32.le_refl _) (by omega) .bool _

end Draft

end Circuitry
