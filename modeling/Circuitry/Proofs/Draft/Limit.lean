/-
  The limit of errors.

  Reports are counted, and the report that makes the count reach the limit fails.  As long as nothing has
  failed for the limit, then, the count is below it, or there is no limit (`Draft.HasRoom`).  From there
  an operation with problems can end in three ways only (`Metered`):

  1. it is refused before it has reported anything;
  2. it goes through, has reported all its problems, and there is still room;
  3. it has problems enough to reach the limit.  Then it reports as many as make the count equal to the
     limit, not one less and not one more, and fails with the last of them (`Session.Exhausted`).

  Reports are made one after the other, so the third is decided by an induction on the problems
  (`reportAll_counts`), and holds of every operation that reports its problems and is silent otherwise
  (`Reporting.metered`).
-/
import Circuitry.Proofs.Draft.AllOrNothing

namespace Circuitry.Draft

variable {α : Type} {w : Session}

/-! ## Reports in a draft -/

theorem withReports_append (d : Draft) (fs gs : List Fault) :
    d.withReports (fs ++ gs) = (d.withReports fs).withReports gs := by
  simp only [withReports, List.foldl_append]

/-- Reports are held in the order in which they are made. -/
theorem held_withReports (fs : List Fault) : ∀ d : Draft,
    (d.withReports fs).sink.held = d.sink.held ++ fs.map Fault.toDiagnostic := by
  induction fs with
  | nil => exact fun d => (List.append_nil _).symm
  | cons f rest ih =>
    intro d
    have hrest := ih { d with sink := d.sink.emit f.toDiagnostic }
    rw [Sink.held_emit, List.append_assoc] at hrest
    exact hrest

theorem errorCount_withReports (fs : List Fault) : ∀ d : Draft,
    (d.withReports fs).sink.errorCount = d.sink.errorCount + fs.length := by
  induction fs with
  | nil => exact fun _ => rfl
  | cons f rest ih =>
    intro d
    have hrest := ih { d with sink := d.sink.emit f.toDiagnostic }
    rw [Sink.errorCount_emit, Nat.add_assoc, Nat.add_comm 1] at hrest
    exact hrest

/-- Since the first draft these faults have been reported, and nothing else. -/
structure Reported (d : Draft) (fs : List Fault) (d' : Draft) : Prop where
  sink : d'.sink = (d.withReports fs).sink
  settings : d'.settings = d.settings

namespace Reported

variable {d d₁ d₂ : Draft} {fs gs : List Fault}

theorem trans (h : d.Reported fs d₁) (h' : d₁.Reported gs d₂) : d.Reported (fs ++ gs) d₂ where
  sink := by
    rw [h'.sink, withReports_append]
    simp only [withReports, h.sink]
  settings := h'.settings.trans h.settings

theorem held (h : d.Reported fs d₁) :
    d₁.sink.held = d.sink.held ++ fs.map Fault.toDiagnostic := by
  rw [h.sink, held_withReports]

theorem errorCount (h : d.Reported fs d₁) :
    d₁.sink.errorCount = d.sink.errorCount + fs.length := by
  rw [h.sink, errorCount_withReports]

end Reported

/-- One more error may be reported without reaching the limit, or there is no limit. -/
def HasRoom (d : Draft) : Prop :=
  0 < d.settings.errorLimit → d.sink.errorCount < d.settings.errorLimit

theorem hasRoom_empty (context : Nat) (name : String) (settings : Settings.Elaboration) :
    (empty context name settings).HasRoom := id

/-- Room is a matter of the settings and the sink. -/
theorem HasRoom.of_eq {d d' : Draft} (h : d.HasRoom) (settings : d'.settings = d.settings)
    (sink : d'.sink = d.sink) : d'.HasRoom := by
  unfold HasRoom
  rw [settings, sink]
  exact h

/-! ## The limit stays what it is -/

namespace Session

theorem settings_fielded (parent : NodeId) (ss : List Signal) : ∀ (index : Nat) (w : Session),
    (fielded parent index ss w).draft.settings = w.draft.settings := by
  induction ss with
  | nil => intros; rfl
  | cons s rest ih =>
    intro index w
    rw [fielded, ih]
    rfl

theorem settings_selected (w : Session) (c : Operand) (t f : List Operand)
    (types : Shape.Fields (Kind × Width)) :
    (w.selected c t f types).draft.settings = w.draft.settings := by
  rw [selected, settings_fielded]
  rfl

/-- No step changes the settings. -/
theorem closed_settings (settings : Settings.Elaboration) :
    Closed fun w => w.draft.settings = settings := by
  intro L made w w' hstep hw
  cases hstep with
  | select cond ts fs c t f types _ _ _ _ _ _ _ => exact (settings_selected w c t f types).trans hw
  | _ => exact hw

end Session

/-! ## Counted reports -/

/-- The problems that are reported up to the limit. -/
def admitted (d : Draft) (problems : List Fault) : List Fault :=
  problems.take (d.settings.errorLimit - d.sink.errorCount)

/-- As many of the problems have been reported as the limit allowed, and the limit is reached. -/
inductive Session.Exhausted (problems : List Fault) (w : Session) : Fault → Session → Prop
  | mk (limited : 0 < w.draft.settings.errorLimit)
      (enough : w.draft.settings.errorLimit ≤ w.draft.sink.errorCount + problems.length) :
    Exhausted problems w (.errorLimitReached w.draft.settings.errorLimit)
      { w with draft := w.draft.withReports (w.draft.admitted problems) }

/-- What is reported up to the limit makes the count equal to it. -/
theorem errorCount_admitted {d : Draft} {problems : List Fault} (hroom : d.HasRoom)
    (limited : 0 < d.settings.errorLimit)
    (enough : d.settings.errorLimit ≤ d.sink.errorCount + problems.length) :
    d.sink.errorCount + (d.admitted problems).length = d.settings.errorLimit := by
  have hbelow := hroom limited
  rw [admitted, List.length_take]
  omega

/-- The action goes through with all its problems reported and room left, or is refused, or exhausts
    the limit. -/
def Metered (problems : List Fault) (w : Session) (act : Build α) : Prop :=
  Triple (· = w) act (fun _ _ => (w.draft.withReports problems).HasRoom)
    (fun f w' => (f.Refuses ∧ w' = w) ∨ w.Exhausted problems f w')

/-- The first report is the only one that there is room for. -/
theorem Session.exhausted_first {f : Fault} {rest : List Fault}
    (limited : 0 < w.draft.settings.errorLimit)
    (reached : w.draft.sink.errorCount + 1 = w.draft.settings.errorLimit) :
    w.Exhausted (f :: rest) (.errorLimitReached w.draft.settings.errorLimit) (w.reported f) := by
  have henough : w.draft.settings.errorLimit ≤
      w.draft.sink.errorCount + (f :: rest).length := by
    rw [List.length_cons]
    omega
  have hone : w.draft.settings.errorLimit - w.draft.sink.errorCount = 1 := by omega
  have hexhausted := Session.Exhausted.mk limited henough
  rw [admitted, hone] at hexhausted
  exact hexhausted

/-- There is room for the first report, and one of the others reaches the limit. -/
theorem Session.Exhausted.cons {f e : Fault} {rest : List Fault} {w' : Session}
    (hroom : (w.reported f).draft.HasRoom) (h : (w.reported f).Exhausted rest e w') :
    w.Exhausted (f :: rest) e w' := by
  obtain ⟨limited, enough⟩ := h
  have hbelow : w.draft.sink.errorCount + 1 < w.draft.settings.errorLimit := hroom limited
  have henough : w.draft.settings.errorLimit ≤
      w.draft.sink.errorCount + (f :: rest).length := by
    rw [List.length_cons, Nat.add_comm rest.length, ← Nat.add_assoc]
    exact enough
  have hnext : w.draft.settings.errorLimit - w.draft.sink.errorCount =
      w.draft.settings.errorLimit - (w.draft.sink.errorCount + 1) + 1 := by omega
  have hlimited : 0 < w.draft.settings.errorLimit := limited
  have hexhausted := Session.Exhausted.mk hlimited henough
  rw [admitted, hnext, List.take_succ_cons] at hexhausted
  exact hexhausted

/-- Problems are reported one after the other, until the count is equal to the limit. -/
theorem reportAll_counts (fs : List Fault) : ∀ w : Session, w.draft.HasRoom →
    Triple (· = w) (reportAll fs) (fun _ _ => (w.draft.withReports fs).HasRoom)
      (w.Exhausted fs) := by
  induction fs with
  | nil => exact fun w hroom => .ret fun _ _ => hroom
  | cons f rest ih =>
    rintro _ hroom w rfl
    unfold reportAll
    have hreport := run_report f w
    split at hreport
    · next hlimit =>
      rw [bind_of_error hreport]
      have hcount : w.draft.settings.errorLimit ≤ w.draft.sink.errorCount + 1 := hlimit.2
      exact Session.exhausted_first hlimit.1 (Nat.le_antisymm (hroom hlimit.1) hcount)
    · next hlimit =>
      rw [bind_of_ok hreport]
      have hroom' : (w.reported f).draft.HasRoom := fun limited =>
        Nat.lt_of_not_le fun reached => hlimit ⟨limited, reached⟩
      have hrest := ih (w.reported f) hroom' (w.reported f) rfl
      cases hr : reportAll rest (w.reported f) with
      | ok a w' =>
        rw [hr] at hrest
        exact hrest
      | error e w' =>
        rw [hr] at hrest
        exact hrest.cons hroom'

/-! ## Problems are made up for -/

theorem accumulates_uintProblems (n : Nat) (width : Width) :
    ∀ f ∈ uintProblems n width, f.accumulates = true := by
  unfold uintProblems
  split
  · split <;> simp [Fault.accumulates]
  · simp

theorem accumulates_sintProblems (i : Int) (width : Width) :
    ∀ f ∈ sintProblems i width, f.accumulates = true := by
  unfold sintProblems
  split
  · split <;> simp [Fault.accumulates]
  · simp

theorem accumulates_textProblems (text : String) :
    ∀ f ∈ textProblems text, f.accumulates = true := by
  intro f hf
  obtain ⟨issue, -, rfl⟩ := List.mem_map.1 hf
  exact accumulates_spellingFault text issue

theorem accumulates_shiftProblems (limit : UInt32) (amount : Signal) :
    ∀ f ∈ shiftProblems limit amount, f.accumulates = true := by
  unfold shiftProblems
  split <;> simp [Fault.accumulates]

theorem accumulates_indexProblems (a : Signal) (index : Int) :
    ∀ f ∈ indexProblems a index, f.accumulates = true := by
  unfold indexProblems
  split <;> simp [Fault.accumulates]

theorem accumulates_rangeProblems (a : Signal) (hi lo : Int) :
    ∀ f ∈ rangeProblems a hi lo, f.accumulates = true := by
  unfold rangeProblems
  split
  · simp [Fault.accumulates]
  · exact accumulates_indexProblems a hi

theorem accumulates_bitProblems (a : Signal) (index : Int) :
    ∀ f ∈ bitProblems a index, f.accumulates = true := by
  unfold bitProblems
  split
  · simp [Fault.accumulates]
  · exact accumulates_indexProblems a index

/-! ## Counted operations -/

/-- An operation that reports its problems is counted, as only the reports can reach the limit. -/
theorem Reporting.metered {problems : List Fault} {act : Build α} (h : Reporting problems w act)
    (hroom : w.draft.HasRoom) : Metered problems w act := by
  rintro w rfl
  obtain ⟨e, he, hrun⟩ | ⟨rest, hrun, hrest⟩ := h
  · rw [hrun]
    exact .inl ⟨he, rfl⟩
  · rw [hrun]
    have hreports := (reportAll_stops problems w).and (reportAll_counts problems w hroom)
    refine Triple.bind (hreports.relax fun _ _ h => .inr h.2) ?_ w rfl
    rintro _ _ ⟨rfl, hfits⟩
    obtain ⟨a, w', hr, -⟩ := hrest
    rw [hr]
    exact hfits

end Circuitry.Draft
