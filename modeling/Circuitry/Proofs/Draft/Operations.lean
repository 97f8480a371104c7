/-
  The use of the description language goes step by step.

  Whatever every `Step` keeps, every operation keeps, whether it ends well or with a fault; and no
  operation ever throws the fault that stands for a mistake of the elaborator itself
  (`Fault.ofUse`).  What is kept may speak of the signals that are around (`Stable`): an operation
  takes its operands from them, and adds the signals it makes (`Makes`).  A fact that does not speak
  of signals is `Closed`.

  There is one lemma for each operation, in the order of the definitions.  The operations that only
  look (`operand`, `assignable`, `checkTemplate`) have a lemma that says what they have found; the
  ones that write are the steps themselves.
-/
import Circuitry.Proofs.Draft.Checked
import Circuitry.Proofs.Draft.Step
import Circuitry.Proofs.Triple

namespace Circuitry.Draft

open Session (Step)

/-- A fault that the use of the description language can lead to. -/
def Fault.ofUse (f : Fault) : Prop := f.code ≠ ⟨399⟩

/-- Faults that are made up for are never mistakes of the elaborator. -/
theorem Fault.ofUse_of_accumulates {f : Fault} (h : f.accumulates = true) : f.ofUse := by
  cases f with
  | internal m => cases h
  | _ => exact nofun

/-- What every step keeps, as the signals that are around change: a step adds those it makes, and
    signals may be forgotten. -/
structure Stable (I : List Signal → Session → Prop) : Prop where
  step : ∀ ⦃L made : List Signal⦄ ⦃w w' : Session⦄, Step L w made w' → I L w → I (made ++ L) w'
  forget : ∀ ⦃L L' : List Signal⦄ ⦃w : Session⦄, L' ⊆ L → I L w → I L' w

/-- Every step keeps it, whatever signals are around. -/
def Closed (I : Session → Prop) : Prop :=
  ∀ ⦃L made : List Signal⦄ ⦃w w' : Session⦄, Step L w made w' → I w → I w'

theorem Closed.stable {I : Session → Prop} (h : Closed I) : Stable fun _ => I :=
  ⟨h, fun _ _ _ _ => id⟩

/-- The step may find that it cannot go on, but it keeps `I`. -/
abbrev BuildKeeps {α : Type} (I : Session → Prop) (act : Build α) : Prop :=
  Keeps I Fault.ofUse act

/-- With the signals `L` around, the step keeps `I` and makes the signals `made`. -/
abbrev Makes {α : Type} (I : List Signal → Session → Prop) (L : List Signal)
    (made : α → List Signal) (act : Build α) : Prop :=
  Triple (I L) act (fun a => I (made a ++ L)) (fun e w => e.ofUse ∧ I L w)

/-- The one signal that a step makes. -/
abbrev MakesSignal (I : List Signal → Session → Prop) (L : List Signal) (act : Build Signal) : Prop :=
  Makes I L (fun s => [s]) act

section Making

variable {α β : Type} {I : List Signal → Session → Prop} {L : List Signal} {made : α → List Signal}
  {made' : β → List Signal} {act : Build α} {f : α → Build β}

/-- What comes second may use what the first has made. -/
theorem Makes.next (hact : Makes I L made act) (hI : Stable I)
    (hf : ∀ a, Makes I (made a ++ L) made' (f a)) : Makes I L made' (act >>= f) := by
  refine .bind hact fun a => (hf a).conseq (fun _ => id) (fun b w hw => ?_) (fun e w hw => ?_)
  · refine hI.forget (List.append_subset.2 ⟨List.subset_append_left _ _, ?_⟩) hw
    exact fun s hs => List.mem_append_right _ (List.mem_append_right _ hs)
  · exact ⟨hw.1, hI.forget (List.subset_append_right _ _) hw.2⟩

/-- The signal that is made is the option that is returned. -/
theorem MakesSignal.optional {act : Build Signal} (h : MakesSignal I L act) :
    Makes I L Option.toList (some <$> act) := by
  refine .map ?_
  exact h

/-- Signals that are around need not be made. -/
theorem makes_around {a : α} (hI : Stable I) (ha : made a ⊆ L) :
    Makes I L made (pure a : Build α) :=
  .ret fun _ hw => hI.forget (List.append_subset.2 ⟨ha, List.Subset.refl L⟩) hw

end Making

/-! ## Looking -/

section Looking

variable {I : Session → Prop}

theorem operand_reads (s : Signal) :
    Triple I (operand s) (fun a w => w.Reads s a ∧ I w) (fun e w => e.ofUse ∧ I w) := by
  unfold operand
  refine .look_bind fun w₀ => ?_
  dsimp only
  split
  · next v hs =>
    refine .ret ?_
    rintro w ⟨rfl, hw⟩
    exact ⟨.literal (Signals.literal_of_standing hs), hw⟩
  · exact .raise fun w hw => ⟨nofun, hw.2⟩
  · next b hs =>
    refine .ite (fun hc => .ret ?_) (fun _ => .raise fun w hw => ⟨nofun, hw.2⟩)
    rintro w ⟨rfl, hw⟩
    exact ⟨.node hs hc, hw⟩

theorem operands_read (ss : List Signal) :
    Triple I (operands ss) (fun as w => List.Forall₂ w.Reads ss as ∧ I w)
      (fun e w => e.ofUse ∧ I w) := by
  induction ss generalizing I with
  | nil => exact .ret fun w hw => ⟨.nil, hw⟩
  | cons s rest ih =>
    unfold operands
    refine .bind (operand_reads s) fun a => ?_
    refine .bind ((ih (I := fun w => w.Reads s a ∧ I w)).relax fun e w h => ⟨h.1, h.2.2⟩) fun as => ?_
    exact .ret fun w h => ⟨.cons h.2.1 h.1, h.2.2⟩

theorem keeps_checkOperands (ss : List Signal) : BuildKeeps I (checkOperands ss) := by
  unfold checkOperands
  exact .bind (operands_read ss) fun _ => .ret fun _ h => h.2

theorem assignable_drives (s : Signal) :
    Triple I (assignable s) (fun id w => (∃ b, w.Drives s b ∧ b.id = id) ∧ I w)
      (fun e w => e.ofUse ∧ I w) := by
  unfold assignable
  refine .look_bind fun w₀ => ?_
  dsimp only
  split
  · exact .raise fun w hw => ⟨nofun, hw.2⟩
  · exact .raise fun w hw => ⟨nofun, hw.2⟩
  · next b hs =>
    refine .ite (fun _ => .raise fun w hw => ⟨nofun, hw.2⟩) fun hc => ?_
    refine .ite (fun hr => .ret ?_) (fun _ => .raise fun w hw => ⟨nofun, hw.2⟩)
    rintro w ⟨rfl, hw⟩
    exact ⟨⟨b, ⟨hs, Decidable.not_not.1 hc, hr⟩, rfl⟩, hw⟩

theorem checkTemplate_finds (s : Signal) (requested : Role) :
    Triple I (checkTemplate s requested) (fun _ w => w.signals.standing s = .template ∧ I w)
      (fun e w => e.ofUse ∧ I w) := by
  unfold checkTemplate
  refine .look_bind fun w₀ => ?_
  split
  · next hs =>
    refine .ret ?_
    rintro w ⟨rfl, hw⟩
    exact ⟨hs, hw⟩
  · exact .raise fun w hw => ⟨nofun, hw.2⟩

end Looking

/-! ## Signals and reports -/

section Steps

variable {I : List Signal → Session → Prop} {L : List Signal} (hI : Stable I)

include hI

theorem makes_create (kind : Kind) (width : Width) (literal : Option Bits)
    (suits : ∀ v ∈ literal, v.Suits (Signals.groundWidth kind width)) :
    MakesSignal I L (create kind width literal) :=
  fun _ hw => hI.step (.create kind width literal suits) hw

theorem makes_template (kind : Kind) (width : Width) : MakesSignal I L (template kind width) :=
  makes_create hI kind width none nofun

theorem makes_literal (kind : Kind) (width : Width) {v : Bits}
    (suits : v.Suits (Signals.groundWidth kind width)) :
    MakesSignal I L (create kind width (some v)) :=
  makes_create hI kind width (some v) fun _ hv => Option.some.inj hv ▸ suits

theorem keeps_report {f : Fault} (h : f.accumulates = true) : BuildKeeps (I L) (report f) := by
  unfold report
  refine Triple.seq (fun w hw => hI.step (.report f h) hw) fun _ => ?_
  refine .look_seq fun w₀ => ?_
  exact .ite (fun _ => .raise fun w hw => ⟨nofun, hw⟩) (fun _ => .ret fun _ => id)

theorem makes_zero (kind : Kind) (width : Width) : MakesSignal I L (zero kind width) :=
  makes_literal hI kind width (Bits.suits_zero _)

theorem makes_literalUInt (n : Nat) (width : Width) : MakesSignal I L (literalUInt n width) := by
  unfold literalUInt
  dsimp only
  split
  · next w =>
    have hmakes := makes_literal hI (L := L) .uint (.known w) (Bits.suits_ofNat w n)
    exact .ite (fun _ => .bind (keeps_report hI rfl) fun _ => hmakes) fun _ => hmakes
  · exact makes_literal hI .uint .unknown (Bits.wellFormed_ofNat _ n).suits_unknown

theorem makes_literalSInt (i : Int) (width : Width) : MakesSignal I L (literalSInt i width) := by
  unfold literalSInt
  dsimp only
  split
  · next w =>
    have hsuits : (Bits.ofInt w i).Suits (.known w) := Bits.suits_ofNat w _
    have hmakes := makes_literal hI (L := L) .sint (.known w) hsuits
    exact .ite (fun _ => .bind (keeps_report hI rfl) fun _ => hmakes) fun _ => hmakes
  · exact makes_literal hI .sint .unknown (Bits.wellFormed_ofNat _ _).suits_unknown

theorem makes_literalBool (b : Bool) : MakesSignal I L (literalBool b) :=
  makes_literal hI .bool (.known 1) (Bits.suits_ofNat 1 _)

omit hI in
theorem accumulates_spellingFault (text : String) (issue : Numeral.Issue) :
    (spellingFault text issue).accumulates = true := by
  cases issue <;> rfl

theorem keeps_reportAll (fs : List Fault) (h : ∀ f ∈ fs, f.accumulates = true) :
    BuildKeeps (I L) (reportAll fs) := by
  induction fs with
  | nil => exact .ret fun _ => id
  | cons f rest ih =>
    unfold reportAll
    refine .bind (keeps_report hI (h f (List.mem_cons_self ..))) fun _ => ?_
    exact ih fun g hg => h g (List.mem_cons_of_mem f hg)

omit hI in
/-- What is read is well formed, whatever is wrong with its spelling. -/
theorem wellFormed_read (text : List Char) : (Numeral.read text).value.WellFormed := by
  have hdigits : ∀ radix digits, (Numeral.readDigits radix digits).1.WellFormed := by
    intro radix digits
    unfold Numeral.readDigits
    split
    · next value hvalue =>
      unfold Bits.ofDigits? at hvalue
      split at hvalue
      · cases hvalue
      · obtain ⟨words, -, rfl⟩ := Option.map_eq_some_iff.1 hvalue
        exact Bits.wellFormed_ofNat _ _
    · exact Bits.wellFormed_ofNat 1 0
  cases text with
  | nil => exact Bits.wellFormed_ofNat 1 0
  | cons letter rest => exact hdigits _ _

theorem makes_literalText (text : String) : MakesSignal I L (literalText text) := by
  unfold literalText
  dsimp only
  refine .bind (keeps_reportAll hI _ ?_) fun _ => makes_literal hI _ _ ?_
  · intro f hf
    obtain ⟨issue, -, rfl⟩ := List.mem_map.1 hf
    exact accumulates_spellingFault text issue
  · -- digits that imply a width are cut to it
    have hread := wellFormed_read text.toList
    show Bits.Suits _ (Numeral.read text.toList).width
    cases hwidth : (Numeral.read text.toList).width with
    | known w => exact Bits.suits_ofNat w _
    | unknown => exact hread.suits_unknown

/-! ## Declarations and connections -/

theorem keeps_declare (r : Declared) (name : String) {s : Signal} (known : s ∈ L) :
    BuildKeeps (I L) (declare r name s) := by
  unfold declare
  refine .bind (checkTemplate_finds s r.role) fun _ w hw => ?_
  exact hI.step (.declare r name s hw.1 known) hw.2

theorem keeps_connect {target source : Signal} (known : [target, source] ⊆ L) :
    BuildKeeps (I L) (connect target source) := by
  unfold connect
  by_cases hk : target.kind ≠ source.kind
  · rw [if_pos hk]
    exact .raise fun w hw => ⟨nofun, hw⟩
  · rw [if_neg hk]
    refine .bind (assignable_drives target) fun node => ?_
    refine .bind ((operand_reads source).relax fun e w h => ⟨h.1, h.2.2⟩) fun a w hw => ?_
    obtain ⟨hs, ⟨b, hb, rfl⟩, hw⟩ := hw
    exact hI.step (.connect target source b a (Decidable.not_not.1 hk) hb hs known) hw

/-! ## Operators -/

theorem makes_applyAt {op : Operator} {ss : List Signal} (h : ss.length = op.arity) (known : ss ⊆ L)
    (kind : Kind) (width : Width) : MakesSignal I L (applyAt op ss kind width) := by
  unfold applyAt
  refine .bind (operands_read ss) fun args w hw => ?_
  exact hI.step (.define op ss args kind width hw.1 h known) hw.2

theorem makes_apply {op : Operator} {ss : List Signal} (h : ss.length = op.arity) (known : ss ⊆ L)
    (kind : Kind) : MakesSignal I L (apply op ss kind) :=
  makes_applyAt hI h known kind _

theorem makes_binary {op : Operator} (h : op.arity = 2) {a b : Signal} (known : [a, b] ⊆ L) :
    MakesSignal I L (binary op a b) := by
  have hab : [a, b].length = op.arity := h.symm
  exact makes_apply hI hab known a.kind

theorem makes_unary {op : Operator} (h : op.arity = 1) {a : Signal} (known : [a] ⊆ L) :
    MakesSignal I L (unary op a) := by
  have ha : [a].length = op.arity := h.symm
  exact makes_apply hI ha known a.kind

theorem makes_wrapping {op : Operator} (h : op.arity = 2) {a b : Signal} (known : [a, b] ⊆ L) :
    MakesSignal I L (wrapping op a b) := by
  have hab : [a, b].length = op.arity := h.symm
  unfold wrapping
  -- the wide result, its low bits, and these as a signed value: each uses the one before
  refine (makes_apply hI hab known a.kind).next hI fun wide => ?_
  refine (makes_apply hI rfl (List.subset_append_left _ _) .uint).next hI fun low => ?_
  refine .ite (fun _ => ?_) (fun _ => makes_around hI (List.subset_append_left _ _))
  exact makes_apply hI rfl (List.subset_append_left _ _) .sint

theorem makes_compare {op : Operator} (h : op.arity = 2) {a b : Signal} (known : [a, b] ⊆ L) :
    MakesSignal I L (compare op a b) := by
  have hab : [a, b].length = op.arity := h.symm
  unfold compare
  by_cases hk : a.kind ≠ b.kind
  · rw [if_pos hk]
    exact .raise fun w hw => ⟨nofun, hw⟩
  · rw [if_neg hk]
    exact makes_apply hI hab known .bool

theorem makes_shiftLeftBy {a amount : Signal} (known : [a, amount] ⊆ L) :
    MakesSignal I L (shiftLeftBy a amount) := by
  unfold shiftLeftBy
  refine .look_bind fun w₀ => .strengthen ?_ fun w hw => hw.2
  dsimp only
  split
  · refine .bind (keeps_checkOperands _) fun _ => ?_
    exact .bind (keeps_report hI rfl) fun _ => makes_zero hI _ _
  · exact makes_apply hI rfl known a.kind

theorem makes_asBool {a : Signal} (known : [a] ⊆ L) : MakesSignal I L (asBool a) := by
  unfold asBool
  split
  · exact .raise fun w hw => ⟨nofun, hw⟩
  · exact makes_apply hI rfl known .bool

/-! ## Selection of bits -/

theorem keeps_indexWithin? (a : Signal) (index : Int) :
    BuildKeeps (I L) (indexWithin? a index) := by
  unfold indexWithin?
  refine .ite (fun _ => .ret fun _ => id) (fun _ => ?_)
  exact .bind (keeps_report hI rfl) fun _ => .ret fun _ => id

/-- What selects bits makes at most the one signal. -/
theorem makes_selects {a : Signal} (known : [a] ⊆ L) {hi lo : UInt32} {kind : Kind}
    {act : Build (Option Signal)} (h : ∀ w, Selects a hi lo kind w (act w)) :
    Makes I L Option.toList act := by
  intro w hw
  have hselects := h w
  generalize act w = r at hselects ⊢
  cases hselects with
  | stopped => exact hw
  | folded k span =>
    exact MakesSignal.optional (makes_literal hI kind _ (span ▸ Bits.suits_ofNat _ _)) w hw
  | @emitted width span =>
    have harity : [a].length = (Operator.bits hi lo).arity := rfl
    exact MakesSignal.optional (makes_applyAt hI harity known kind width) w hw

theorem makes_selection {a : Signal} (known : [a] ⊆ L) {bad : Prop} [Decidable bad] {fault : Fault}
    (hfault : fault.accumulates = true) {index : Int} {kind : Kind} {standIn : Width} {lo : UInt32 → UInt32}
    {select : UInt32 → Checked Signal} (h : ∀ i w, Selects a i (lo i) kind w ((select i).run w)) :
    Makes I L Option.toList (selection a bad fault index kind standIn select) := by
  have hzero : Makes I L Option.toList (some <$> zero kind standIn) :=
    MakesSignal.optional (makes_zero hI kind standIn)
  unfold selection
  refine .bind (keeps_checkOperands _) fun _ => ?_
  refine .ite (fun _ => .bind (keeps_report hI hfault) fun _ => hzero) fun _ => ?_
  refine .bind (keeps_indexWithin? hI a index) fun high => ?_
  cases high with
  | none => exact hzero
  | some i => exact makes_selects hI known (h i)

theorem makes_extract {a : Signal} (known : [a] ⊆ L) (hi lo : Int) :
    Makes I L Option.toList (extract a hi lo).run := by
  rw [run_extract]
  exact makes_selection hI known rfl fun i => selects_range a i _

theorem makes_bit {a : Signal} (known : [a] ⊆ L) (index : Int) :
    Makes I L Option.toList (bit a index).run := by
  rw [run_bit]
  exact makes_selection hI known rfl (selects_bit a)

/-! ## Selection between signals -/

theorem makes_mux {cond t f : Signal} (known : [cond, t, f] ⊆ L) :
    MakesSignal I L (mux cond t f) := by
  unfold mux
  refine .bind (operands_read [cond, t, f]) fun args => ?_
  split
  · exact .raise fun w hw => ⟨nofun, hw.2⟩
  · next kind _ =>
    exact fun w hw => hI.step (.define .mux [cond, t, f] args kind _ hw.1 rfl known) hw.2

end Steps

end Circuitry.Draft
