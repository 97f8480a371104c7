/-
  What can be an operand.

  A signal can be an operand of a draft if it is a literal, or bound in this very draft (`Ready`);
  otherwise it is `Unready`, for one of two reasons.  Every operation keeps to that: if it goes
  through, all signals that it takes as operands were ready, and if it fails because a signal cannot be
  an operand, then one of its signals is not, for just the reason given (`Gate`).

  The second half is a matter of `operand` and `assignable` alone.  Whatever else an operation checks
  refuses it for reasons of another sort (`Fault.Plain`), and what it does after all checks does not
  fail any more.
-/
import Circuitry.Proofs.Draft.AllOrNothing

namespace Circuitry.Draft

open Session (Reads)

variable {α β : Type} {w : Session} {taken all : List Signal}

/-- The signal cannot be an operand of the draft. -/
inductive Session.Unready (w : Session) (s : Signal) : Unfit → Prop
  | template (h : w.signals.standing s = .template) : Unready w s .template
  | foreign {b : Binding} (h : w.signals.standing s = .bound b) (hc : b.context ≠ w.draft.context) :
      Unready w s .foreign

/-- A signal that is ready is not unready. -/
theorem Session.Unready.not_ready {s : Signal} {why : Unfit} (h : w.Unready s why) : ¬ w.Ready s := by
  rintro ⟨a, ha⟩
  cases h with
  | template h =>
    cases ha with
    | literal hl => simp [Signals.standing, hl] at h
    | node hb _ => simp [hb] at h
  | foreign h hc =>
    cases ha with
    | literal hl => simp [Signals.standing, hl] at h
    | node hb hhere =>
      obtain rfl := Standing.bound.inj (hb.symm.trans h)
      exact hc hhere

/-- If the fault says that a signal cannot be an operand, then it is right about one of these. -/
def Session.Blames (w : Session) (ss : List Signal) (f : Fault) : Prop :=
  ∀ ty why, f = .notSynthesizable ty why → ∃ s ∈ ss, w.Unready s why ∧ s.ty = ty

theorem Fault.Plain.blames {f : Fault} (h : f.Plain) : w.Blames all f :=
  fun ty why hf => absurd hf (h.2 ty why)

/-- The operation goes through only if the signals `taken` are ready, and the signals that it may turn
    away are among `all`. -/
def Gate (taken all : List Signal) (w : Session) (act : Build α) : Prop :=
  Triple (· = w) act (fun _ _ => ∀ s ∈ taken, w.Ready s) (fun f _ => w.Blames all f)

/-! ## Where signals are turned away -/

theorem Session.Unready.blames {s : Signal} {why : Unfit} (h : w.Unready s why) (hs : s ∈ all) :
    w.Blames all (.notSynthesizable s.ty why) := by
  intro ty why' hf
  obtain ⟨rfl, rfl⟩ := Fault.notSynthesizable.inj hf
  exact ⟨s, hs, h, rfl⟩

theorem operand_gates {s : Signal} (hs : s ∈ all) :
    Triple (· = w) (operand s) (fun _ w' => w.Ready s ∧ w' = w) (fun f _ => w.Blames all f) := by
  have hblames : Triple (· = w) (operand s) (fun _ _ => True) (fun f _ => w.Blames all f) := by
    unfold operand
    refine .look_bind fun w₀ => ?_
    dsimp only
    split
    · exact .ret fun _ _ => trivial
    · next htemplate =>
      refine .raise ?_
      rintro _ ⟨rfl, rfl⟩
      exact (Session.Unready.template htemplate).blames hs
    · next b hb =>
      refine .ite (fun _ => .ret fun _ _ => trivial) fun hc => .raise ?_
      rintro _ ⟨rfl, rfl⟩
      exact (Session.Unready.foreign hb hc).blames hs
  have hready := ((looks_operand s).finds (operand_reads s)).and hblames
  exact hready.conseq (fun _ => id) (fun a w' h => ⟨⟨a, h.1.1⟩, h.1.2⟩) fun _ _ h => h.2

theorem operands_gates {ss : List Signal} (hss : ss ⊆ all) : Triple (· = w) (operands ss)
    (fun _ w' => (∀ s ∈ ss, w.Ready s) ∧ w' = w) (fun f _ => w.Blames all f) := by
  induction ss with
  | nil => exact .ret fun _ hw => ⟨List.forall_mem_nil _, hw⟩
  | cons s rest ih =>
    obtain ⟨hs, hrest⟩ := List.cons_subset.1 hss
    unfold operands
    refine .bind (operand_gates hs) fun a => .of_fact fun hready => ?_
    refine .bind (ih hrest) fun as => .ret fun w' hw => ⟨?_, hw.2⟩
    exact List.forall_mem_cons.2 ⟨hready, hw.1⟩

theorem assignable_gates {s : Signal} (hs : s ∈ all) :
    Triple (· = w) (assignable s) (fun _ w' => w' = w) (fun f _ => w.Blames all f) := by
  unfold assignable
  refine .look_bind fun w₀ => ?_
  dsimp only
  split
  · exact .raise fun _ _ => (Fault.Plain.notAssignable _).blames
  · next htemplate =>
    refine .raise ?_
    rintro _ ⟨rfl, rfl⟩
    exact (Session.Unready.template htemplate).blames hs
  · next b hb =>
    refine .ite (fun hc => .raise ?_) fun _ => ?_
    · rintro _ ⟨rfl, rfl⟩
      exact (Session.Unready.foreign hb hc).blames hs
    · refine .ite (fun _ => .ret fun _ hw => hw.2) fun _ => ?_
      exact .raise fun _ _ => (Fault.Plain.notAssignable _).blames

/-! ## Ways to put gates together -/

namespace Gate

variable {act : Build α} {f : α → Build β}

theorem raise {fault : Fault} (h : fault.Plain) : Gate taken all w (throw fault : Build α) :=
  Triple.raise fun _ _ => h.blames

/-- What does not fail turns nothing away. -/
theorem silent (h : Silent act w) : Gate [] all w act := by
  rintro _ rfl
  obtain ⟨a, w', hact, -⟩ := h
  rw [hact]
  exact List.forall_mem_nil _

/-- What follows goes through, whatever has been made. -/
theorem before (hact : Gate taken all w act) (hf : ∀ a w', Silent (f a) w') :
    Gate taken all w (act >>= f) := by
  refine Triple.bind hact fun a w' htaken => ?_
  obtain ⟨b, w'', hb, -⟩ := hf a w'
  rw [hb]
  exact htaken

theorem map (h : Gate taken all w act) (g : α → β) : Gate taken all w (g <$> act) := Triple.map h

theorem fewer {taken' : List Signal} (h : Gate taken all w act) (hsub : taken' ⊆ taken) :
    Gate taken' all w act :=
  Triple.weaken h fun _ _ hready s hs => hready s (hsub hs)

theorem check (hact : Looks Fault.Plain act) (hf : ∀ a, Gate taken all w (f a)) :
    Gate taken all w (act >>= f) :=
  Triple.bind ((hact w).relax fun _ _ h => h.1.blames) hf

theorem operand {s : Signal} {f : Operand → Build β} (hs : s ∈ all)
    (hf : ∀ a, Gate taken all w (f a)) : Gate (s :: taken) all w (operand s >>= f) := by
  refine Triple.bind (operand_gates hs) fun a => .of_fact fun hready => ?_
  exact Triple.weaken (hf a) fun _ _ hrest => List.forall_mem_cons.2 ⟨hready, hrest⟩

theorem operands {ss : List Signal} {f : List Operand → Build β} (hss : ss ⊆ all)
    (hf : ∀ as, Gate taken all w (f as)) : Gate (ss ++ taken) all w (operands ss >>= f) := by
  refine Triple.bind (operands_gates hss) fun as => .of_fact fun hready => ?_
  exact Triple.weaken (hf as) fun _ _ hrest => List.forall_mem_append.2 ⟨hready, hrest⟩

theorem checkOperands {ss : List Signal} {f : Unit → Build β} (hss : ss ⊆ all)
    (hf : Gate taken all w (f ())) : Gate (ss ++ taken) all w (checkOperands ss >>= f) := by
  unfold Draft.checkOperands
  rw [bind_assoc]
  exact .operands hss fun _ => hf

theorem assignable {s : Signal} {f : NodeId → Build β} (hs : s ∈ all)
    (hf : ∀ id, Gate taken all w (f id)) : Gate taken all w (assignable s >>= f) :=
  Triple.bind (assignable_gates hs) hf

/-- Reports are no reason to turn a signal away. -/
theorem reportingAll (fs : List Fault) (h : ∀ w, Silent act w) :
    Gate [] all w (do reportAll fs; act) := by
  refine Triple.bind ((reportAll_stops fs w).relax fun f w' hf => ?_) fun _ => ?_
  · obtain ⟨-, -⟩ := hf
    exact fun _ _ => nofun
  · rintro w' rfl
    obtain ⟨a, w'', hact, -⟩ := h { w with draft := w.draft.withReports fs }
    rw [hact]
    exact List.forall_mem_nil _

theorem reporting (fault : Fault) (h : ∀ w, Silent act w) :
    Gate [] all w (do report fault; act) := by
  rw [report_bind]
  exact .reportingAll [fault] h

end Gate

/-! ## Literals and declarations -/

theorem gate_literalUInt (n : Nat) (width : Width) : Gate [] all w (literalUInt n width) := by
  rw [literalUInt_eq]
  exact .reportingAll _ fun _ => silent_create ..

theorem gate_literalSInt (i : Int) (width : Width) : Gate [] all w (literalSInt i width) := by
  rw [literalSInt_eq]
  exact .reportingAll _ fun _ => silent_create ..

theorem gate_literalText (text : String) : Gate [] all w (literalText text) :=
  .reportingAll _ fun _ => silent_create ..

theorem gate_declare (r : Declared) (name : String) (s : Signal) :
    Gate [] all w (declare r name s) :=
  .check (looks_checkTemplate s r.role) fun _ => .silent ⟨(), w.declared r name s, rfl, rfl⟩

theorem gate_declareFields (r : Declared) (name : String) (fields : Shape.Fields Signal) :
    Gate [] all w (declareFields r name fields) := by
  refine Triple.bind ((checkTemplates_finds r.role _ []).relax fun _ _ h => h.1.blames) fun _ => ?_
  exact .of_fact fun h => Gate.silent (silent_declareLeaves r name _ h.1)

/-! ## Operators -/

theorem gate_applyAt (op : Operator) {ss : List Signal} (hss : ss ⊆ all) (kind : Kind)
    (width : Width) : Gate ss all w (applyAt op ss kind width) := by
  have hgate : Gate (ss ++ []) all w (applyAt op ss kind width) :=
    .operands hss fun args => .silent (silent_define ..)
  rwa [List.append_nil] at hgate

theorem gate_apply (op : Operator) {ss : List Signal} (hss : ss ⊆ all) (kind : Kind) :
    Gate ss all w (apply op ss kind) :=
  gate_applyAt op hss kind _

theorem gate_wrapping (op : Operator) {a b : Signal} (hss : [a, b] ⊆ all) :
    Gate [a, b] all w (wrapping op a b) := by
  have hgate := gate_applyAt (w := w) op hss a.kind (op.resultWidth ([a, b].map (·.width)))
  have hwide := Triple.and (applyAt_readies op [a, b] a.kind _) hgate
  refine Triple.bind (hwide.relax fun _ _ => And.right) fun wide => ?_
  rintro w₁ ⟨⟨hready, -⟩, htaken⟩
  obtain ⟨r, w₂, hr, -⟩ := silent_narrow hready a.kind.isSigned
  rw [hr]
  exact htaken

theorem gate_compare (op : Operator) {a b : Signal} (hss : [a, b] ⊆ all) :
    Gate [a, b] all w (compare op a b) := by
  unfold compare
  by_cases hk : a.kind ≠ b.kind
  · rw [if_pos hk]
    exact .raise (.typeMismatch ..)
  · rw [if_neg hk]
    exact gate_apply op hss .bool

theorem gate_asBool {a : Signal} (hss : [a] ⊆ all) : Gate [a] all w (asBool a) := by
  unfold asBool
  split
  · exact .raise (.widthMismatch ..)
  · exact gate_apply .asBool hss .bool

theorem gate_shiftLeftBy {a amount : Signal} (hss : [a, amount] ⊆ all) :
    Gate [a, amount] all w (shiftLeftBy a amount) := by
  unfold shiftLeftBy
  refine Triple.look_bind fun w₀ => ?_
  dsimp only
  rintro _ ⟨rfl, rfl⟩
  cases amount.width.get?.filter (w₀.draft.settings.dynamicShiftLimit < ·) with
  | none => exact gate_apply .dshl hss a.kind w₀ rfl
  | some width =>
    have hshift : Gate ([a, amount] ++ []) all w₀ (do
        checkOperands [a, amount]
        report (.shiftAmountTooWide width w₀.draft.settings.dynamicShiftLimit)
        zero a.kind a.width) :=
      .checkOperands hss (.reporting _ fun _ => silent_create ..)
    exact hshift w₀ rfl

theorem gate_mux {cond t f : Signal} (hss : [cond, t, f] ⊆ all) :
    Gate [cond, t, f] all w (mux cond t f) := by
  have hgate : Gate ([cond, t, f] ++ []) all w (mux cond t f) := by
    refine .operands hss fun args => ?_
    split
    · exact .raise (.typeMismatch ..)
    · exact .silent (silent_define ..)
  exact hgate

/-! ## Selection of bits -/

theorem gate_selects {a : Signal} (hss : [a] ⊆ all) {hi lo : UInt32} {kind : Kind}
    {act : Build (Option Signal)} (h : Selects a hi lo kind w (act w)) : Gate [] all w act := by
  rintro w rfl
  generalize act w = r at h ⊢
  cases h with
  | stopped => exact List.forall_mem_nil _
  | folded k span => exact List.forall_mem_nil _
  | @emitted width span =>
    have hgate : Gate [] all w (applyAt (.bits hi lo) [a] kind width) :=
      (gate_applyAt _ hss kind width).fewer (List.nil_subset _)
    exact hgate.map some w rfl

theorem gate_selection {a : Signal} (hss : [a] ⊆ all) {bad : Prop} [Decidable bad] (fault : Fault)
    (index : Int) {kind : Kind} (standIn : Width) {lo : UInt32 → UInt32}
    {select : UInt32 → Checked Signal}
    (h : ∀ i w, Selects a i (lo i) kind w ((select i).run w)) :
    Gate [a] all w (selection a bad fault index kind standIn select) := by
  have hzero : ∀ w, Silent (some <$> zero kind standIn) w := fun _ => ⟨_, _, rfl, rfl⟩
  have hgate : Gate ([a] ++ []) all w (selection a bad fault index kind standIn select) := by
    refine .checkOperands hss ?_
    split
    · exact .reporting _ hzero
    · unfold indexWithin?
      split
      · exact gate_selects hss (h _ w)
      · rw [bind_assoc]
        exact .reporting _ hzero
  exact hgate

theorem gate_extract {a : Signal} (hss : [a] ⊆ all) (hi lo : Int) :
    Gate [a] all w (extract a hi lo).run := by
  rw [run_extract]
  exact gate_selection hss _ hi _ fun i => selects_range a i _

theorem gate_bit {a : Signal} (hss : [a] ⊆ all) (index : Int) : Gate [a] all w (bit a index).run := by
  rw [run_bit]
  exact gate_selection hss _ index _ (selects_bit a)

/-! ## Connections -/

theorem gate_connect {target source : Signal} (hss : [target, source] ⊆ all) :
    Gate [source] all w (connect target source) := by
  obtain ⟨htarget, hsource⟩ : target ∈ all ∧ source ∈ all := by simpa using hss
  unfold connect
  by_cases hk : target.kind ≠ source.kind
  · rw [if_pos hk]
    exact .raise (.typeMismatch ..)
  · rw [if_neg hk]
    refine .assignable htarget fun node => .operand hsource fun a => ?_
    exact .silent ⟨(), w.emitted (.connect node a), rfl, rfl⟩

theorem gate_checkConnections (pairs : List (Signal × Signal))
    (h : ∀ pair ∈ pairs, [pair.1, pair.2] ⊆ all) :
    Gate [] all w (checkConnections pairs) := by
  induction pairs with
  | nil => exact .silent ⟨(), w, rfl, rfl⟩
  | cons pair rest ih =>
    obtain ⟨hpair, hrest⟩ := List.forall_mem_cons.1 h
    obtain ⟨htarget, hsource⟩ : pair.1 ∈ all ∧ pair.2 ∈ all := by simpa using hpair
    unfold checkConnections
    by_cases hk : pair.1.kind ≠ pair.2.kind
    · rw [if_pos hk]
      exact .raise (.typeMismatch ..)
    · rw [if_neg hk]
      refine .assignable htarget fun node => ?_
      exact (Gate.operand hsource fun a => ih hrest).fewer (List.nil_subset _)

theorem gate_connectFields {target source : Shape.Fields Signal}
    (hss : Shape.fieldLeaves source ++ Shape.fieldLeaves target ⊆ all) :
    Gate (Shape.fieldLeaves source) all w (connectFields target source) := by
  obtain ⟨hsource, htarget⟩ := List.append_subset.1 hss
  have hpairs : ∀ pair ∈ (Shape.fieldLeaves target).zip (Shape.fieldLeaves source),
      [pair.1, pair.2] ⊆ all := by
    intro pair hpair
    obtain ⟨ht, hs⟩ := List.of_mem_zip hpair
    simp [htarget ht, hsource hs]
  have hshape := (looks_checkShape "connect" target source).finds
    (checkShape_finds (I := fun _ w' => w' = w) (L := []) "connect" target source)
  refine Triple.bind (hshape.relax fun _ _ h => h.1.blames) fun _ => .of_fact fun hlen => ?_
  have hcheck := Triple.and (checkConnections_finds _) (gate_checkConnections (w := w) _ hpairs)
  refine Triple.bind (hcheck.relax fun _ _ => And.right) fun _ => ?_
  rintro _ ⟨⟨hconnectable, rfl⟩, -⟩
  obtain ⟨a, w', hrun, -⟩ := silent_connectAll _ hconnectable
  rw [hrun]
  -- every source stands beside a target
  intro s hs
  rw [← List.map_snd_zip (Nat.le_of_eq hlen.symm)] at hs
  obtain ⟨pair, hpair, rfl⟩ := List.mem_map.1 hs
  exact (hconnectable pair hpair).ready

/-! ## Selections between aggregates -/

theorem gate_muxFields {cond : Signal} {t f : Shape.Fields Signal}
    (hss : cond :: (Shape.fieldLeaves t ++ Shape.fieldLeaves f) ⊆ all) :
    Gate (cond :: (Shape.fieldLeaves t ++ Shape.fieldLeaves f)) all w (muxFields cond t f) := by
  obtain ⟨hcond, hbranches⟩ := List.cons_subset.1 hss
  obtain ⟨htrue, hfalse⟩ := List.append_subset.1 hbranches
  rw [← List.append_nil (Shape.fieldLeaves f)]
  refine .check (looks_checkShape "mux" t f) fun _ => .check (looks_mergeAll _) fun kinds => ?_
  refine .operand hcond fun c => .operands htrue fun whenTrue => .operands hfalse fun whenFalse => ?_
  cases Shape.mapAccumFields retype kinds t with
  | mk types left =>
    exact .silent ⟨_, _, run_select c whenTrue whenFalse types w, Session.sink_selected ..⟩

theorem gate_muxBundle {cond : Signal} {t f : Bundle} (hss : cond :: (t.leaves ++ f.leaves) ⊆ all) :
    Gate (cond :: (t.leaves ++ f.leaves)) all w (muxBundle cond t f) := by
  unfold muxBundle
  split
  · exact .before (gate_mux hss) fun _ w => ⟨_, w, rfl, rfl⟩
  · exact .before (gate_muxFields hss) fun _ w => ⟨_, w, rfl, rfl⟩
  · exact .raise (.typeMismatch ..)

end Circuitry.Draft
