/-
  Aggregates go step by step as well.

  Declaring or connecting the leaves of an aggregate takes one step for each leaf.  Making templates
  for the leaves of a shape takes one step for each of them (`run_templates`), and a selection between
  aggregates is a single step, whatever its shape (`run_select`): from its first entry in the node
  table on nothing is checked any more.
-/
import Circuitry.Proofs.Draft.Operations

namespace Circuitry

/-! ## Templates for the leaves of a shape -/

namespace Draft

/-- After so many new signals. -/
def Session.createdMany (w : Session) (n : Nat) : Session :=
  { w with signals := { w.signals with next := w.signals.next + n } }

@[simp] theorem freshSignals_append (xs ys : List (Kind × Width)) : ∀ next : Nat,
    freshSignals next (xs ++ ys) = freshSignals next xs ++ freshSignals (next + xs.length) ys := by
  induction xs with
  | nil => intro; rfl
  | cons t rest ih =>
    intro next
    simp [freshSignals, ih, Nat.add_assoc, Nat.add_comm 1]

end Draft

namespace Shape

open Draft (Session freshSignal freshSignals)

mutual

/-- New templates have consecutive serial numbers, leaf by leaf. -/
theorem mapAccum_freshSignal : ∀ (s : Shape (Kind × Width)) (w : Session),
    (s.mapAccum freshSignal w).1.leaves = freshSignals w.signals.next s.leaves ∧
      (s.mapAccum freshSignal w).2 = w.createdMany s.leaves.length
  | .leaf _, _ => ⟨rfl, rfl⟩
  | .group fs, w => mapAccumFields_freshSignal fs w

theorem mapAccumFields_freshSignal : ∀ (fs : Shape.Fields (Kind × Width)) (w : Session),
    fieldLeaves (mapAccumFields freshSignal w fs).1 = freshSignals w.signals.next (fieldLeaves fs) ∧
      (mapAccumFields freshSignal w fs).2 = w.createdMany (fieldLeaves fs).length
  | [], _ => ⟨rfl, rfl⟩
  | (n, s) :: fs, w => by
    obtain ⟨hs, hw⟩ := mapAccum_freshSignal s w
    obtain ⟨hfs, hw'⟩ := mapAccumFields_freshSignal fs (s.mapAccum freshSignal w).2
    constructor
    · simp only [mapAccumFields, fieldLeaves, hs, hfs, Draft.freshSignals_append]
      rw [hw]
      rfl
    · simp only [mapAccumFields, fieldLeaves, hw', List.length_append]
      rw [hw]
      simp [Session.createdMany, Nat.add_assoc]

end

mutual

/-- The new templates only depend on the next serial number. -/
theorem mapAccum_freshSignal_congr : ∀ (s : Shape (Kind × Width)) {w w' : Session},
    w'.signals.next = w.signals.next →
      (s.mapAccum freshSignal w').1 = (s.mapAccum freshSignal w).1
  | .leaf _, _, _, h => by
    simp [mapAccum, freshSignal, Signals.create, h]
  | .group fs, _, _, h => congrArg group (mapAccumFields_freshSignal_congr fs h)

theorem mapAccumFields_freshSignal_congr : ∀ (fs : Shape.Fields (Kind × Width)) {w w' : Session},
    w'.signals.next = w.signals.next →
      (mapAccumFields freshSignal w' fs).1 = (mapAccumFields freshSignal w fs).1
  | [], _, _, _ => rfl
  | (n, s) :: fs, w, w', h => by
    have hs := mapAccum_freshSignal_congr s h
    have hnext : (s.mapAccum freshSignal w').2.signals.next =
        (s.mapAccum freshSignal w).2.signals.next := by
      rw [(mapAccum_freshSignal s w).2, (mapAccum_freshSignal s w').2]
      exact congrArg (· + s.leaves.length) h
    have hfs := mapAccumFields_freshSignal_congr fs hnext
    simp only [mapAccumFields, hs, hfs]

end

mutual

/-- Other kinds for the leaves do not change their number. -/
theorem length_leaves_mapAccum {α β σ : Type} (f : σ → α → β × σ) : ∀ (s : Shape α) (state : σ),
    (s.mapAccum f state).1.leaves.length = s.leaves.length
  | .leaf _, _ => rfl
  | .group fs, state => length_fieldLeaves_mapAccum f fs state

theorem length_fieldLeaves_mapAccum {α β σ : Type} (f : σ → α → β × σ) :
    ∀ (fs : Shape.Fields α) (state : σ),
      (fieldLeaves (mapAccumFields f state fs).1).length = (fieldLeaves fs).length
  | [], _ => rfl
  | (n, s) :: fs, state => by
    simp [mapAccumFields, fieldLeaves, length_leaves_mapAccum f s,
      length_fieldLeaves_mapAccum f fs]

end

mutual

/-- What every new leaf has. -/
theorem forall_leaves_mapAccum {α β σ : Type} {p : β → Prop} (f : σ → α → β × σ)
    (h : ∀ state a, p (f state a).1) : ∀ (s : Shape α) (state : σ),
      ∀ b ∈ (s.mapAccum f state).1.leaves, p b
  | .leaf a, state => by
    intro b hb
    obtain rfl := List.mem_singleton.1 hb
    exact h state a
  | .group fs, state => forall_fieldLeaves_mapAccum f h fs state

theorem forall_fieldLeaves_mapAccum {α β σ : Type} {p : β → Prop} (f : σ → α → β × σ)
    (h : ∀ state a, p (f state a).1) : ∀ (fs : Shape.Fields α) (state : σ),
      ∀ b ∈ fieldLeaves (mapAccumFields f state fs).1, p b
  | [], _ => by
    intro b hb
    cases hb
  | (n, s) :: fs, state => by
    intro b hb
    rcases List.mem_append.1 hb with hb | hb
    · exact forall_leaves_mapAccum f h s state b hb
    · exact forall_fieldLeaves_mapAccum f h fs _ b hb

end

/-- Paths name leaves one to one. -/
theorem length_fieldPaths {α : Type} (outer : String) (fs : Shape.Fields α) :
    (fieldPaths outer fs).length = (fieldLeaves fs).length := by
  rw [← map_snd_fieldPaths outer fs, List.length_map]

end Shape

namespace Draft

open Session (Step)

variable {I : List Signal → Session → Prop} {L : List Signal}

section Steps

variable (hI : Stable I)

include hI

/-- Templates are made one after the other. -/
theorem makes_many (types : List (Kind × Width)) : ∀ {L : List Signal} {w : Session}, I L w →
    I (freshSignals w.signals.next types ++ L) (w.createdMany types.length) := by
  induction types with
  | nil => exact fun hw => hw
  | cons t rest ih =>
    intro L w hw
    have hrest := ih (hI.step (.create t.1 t.2 none nofun) hw)
    have hnext : w.created.createdMany rest.length = w.createdMany (t :: rest).length := by
      simp [Session.created, Session.createdMany, Nat.add_assoc, Nat.add_comm 1]
    rw [hnext] at hrest
    refine hI.forget (fun s hs => ?_) hrest
    simp only [freshSignals, List.cons_append, List.mem_cons, List.mem_append, Session.created,
      List.nil_append] at hs ⊢
    tauto

theorem makes_templates (types : Shape (Kind × Width)) :
    Makes I L Shape.leaves (templates types) := by
  intro w hw
  show I ((types.mapAccum freshSignal w).1.leaves ++ L) (types.mapAccum freshSignal w).2
  rw [(Shape.mapAccum_freshSignal types w).1, (Shape.mapAccum_freshSignal types w).2]
  exact makes_many hI _ hw

theorem makes_fresh (b : Bundle) : Makes I L Shape.leaves (fresh b) := makes_templates hI b.types

/-! ## Declarations and connections -/

omit hI in
theorem keeps_checkTemplates (role : Role) (ss : List Signal) :
    ∀ seen, BuildKeeps (I L) (checkTemplates role seen ss) := by
  induction ss with
  | nil => exact fun _ => .ret fun _ => id
  | cons s rest ih =>
    intro seen
    unfold checkTemplates
    refine .bind (checkTemplate_finds s role) fun _ => ?_
    refine .strengthen ?_ fun w hw => hw.2
    exact .ite (fun _ => .raise fun w hw => ⟨nofun, hw⟩) (fun _ => ih _)

theorem keeps_declareLeaves (r : Declared) (name : String) (leaves : List (String × Signal))
    (known : leaves.map (·.2) ⊆ L) : BuildKeeps (I L) (declareLeaves r name leaves) := by
  induction leaves with
  | nil => exact .ret fun _ => id
  | cons leaf rest ih =>
    rw [List.map_cons, List.cons_subset] at known
    unfold declareLeaves
    exact .seq (keeps_declare hI r _ known.1) fun _ => ih known.2

theorem keeps_declareFields (r : Declared) (name : String) {fields : Shape.Fields Signal}
    (known : Shape.fieldLeaves fields ⊆ L) : BuildKeeps (I L) (declareFields r name fields) := by
  unfold declareFields
  refine .seq (keeps_checkTemplates _ _ _) fun _ => keeps_declareLeaves hI r name _ ?_
  rwa [Shape.map_snd_fieldPaths]

omit hI in
/-- Two aggregates that agree have equally many leaves. -/
theorem checkShape_finds (context : String) (a b : Shape.Fields Signal) :
    Triple (I L) (checkShape context a b)
      (fun _ w => (Shape.fieldLeaves a).length = (Shape.fieldLeaves b).length ∧ I L w)
      (fun e w => e.ofUse ∧ I L w) := by
  unfold checkShape
  dsimp only
  refine .ite (fun _ => .raise fun w hw => ⟨nofun, hw⟩) fun hlen => ?_
  split
  · exact .raise fun w hw => ⟨nofun, hw⟩
  · refine .ret fun w hw => ⟨?_, hw⟩
    have h := Decidable.not_not.1 hlen
    rwa [Shape.length_fieldPaths, Shape.length_fieldPaths] at h

omit hI in
theorem keeps_checkConnections (pairs : List (Signal × Signal)) :
    BuildKeeps (I L) (checkConnections pairs) := by
  induction pairs with
  | nil => exact .ret fun _ => id
  | cons pair rest ih =>
    unfold checkConnections
    refine .ite (fun _ => .raise fun w hw => ⟨nofun, hw⟩) fun _ => ?_
    refine .bind ((assignable_drives pair.1).weaken fun _ w hw => hw.2) fun _ => ?_
    exact .bind ((operand_reads pair.2).weaken fun _ w hw => hw.2) fun _ => ih

theorem keeps_connectAll (pairs : List (Signal × Signal))
    (known : ∀ pair ∈ pairs, [pair.1, pair.2] ⊆ L) : BuildKeeps (I L) (connectAll pairs) := by
  induction pairs with
  | nil => exact .ret fun _ => id
  | cons pair rest ih =>
    rw [List.forall_mem_cons] at known
    unfold connectAll
    exact .seq (keeps_connect hI known.1) fun _ => ih known.2

theorem keeps_connectFields {target source : Shape.Fields Signal}
    (known : Shape.fieldLeaves target ++ Shape.fieldLeaves source ⊆ L) :
    BuildKeeps (I L) (connectFields target source) := by
  rw [List.append_subset] at known
  unfold connectFields
  refine .bind ((checkShape_finds _ target source).weaken fun _ w hw => hw.2) fun _ => ?_
  refine .seq (keeps_checkConnections _) fun _ => keeps_connectAll hI _ fun pair hpair => ?_
  obtain ⟨htarget, hsource⟩ := List.of_mem_zip hpair
  simp [known.1 htarget, known.2 hsource]

/-! ## Selections -/

omit hI in
theorem keeps_mergeAll {J : Session → Prop} (pairs : List (Signal × Signal)) :
    BuildKeeps J (mergeAll pairs) := by
  induction pairs with
  | nil => exact .ret fun _ => id
  | cons pair rest ih =>
    unfold mergeAll
    split
    · exact .raise fun w hw => ⟨nofun, hw⟩
    · exact .seq ih fun _ => .ret fun _ => id

omit hI in
theorem run_bindFields (parent : NodeId) (ss : List Signal) : ∀ (index : Nat) (w : Session),
    bindFields parent index ss w = .ok () (Session.fielded parent index ss w) := by
  induction ss with
  | nil => intros; rfl
  | cons s rest ih => intro index w; exact ih (index + 1) _

omit hI in
/-- Once its operands are known, a selection between aggregates goes through. -/
theorem run_select (c : Operand) (t f : List Operand) (types : Shape.Fields (Kind × Width))
    (w : Session) : (do
      let parent ← allocate (.aggregate (Shape.fieldsToTy types)) .result none .defined
      emit (.defPrim parent .mux [c, .aggregate t, .aggregate f])
      let fields ← templateFields types
      bindFields parent 0 (Shape.fieldLeaves fields)
      return fields : Build (Shape.Fields Signal)) w =
        .ok (Shape.mapAccumFields freshSignal w types).1 (w.selected c t f types) := by
  -- the session in which the templates of the fields are made
  let w' : Session := ⟨w.signals, (w.draft.withNode (Session.selectionNode types)).withCommand
    (.defPrim w.draft.nextId .mux (Session.selectionArgs c t f))⟩
  obtain ⟨hleaves, hw⟩ := Shape.mapAccumFields_freshSignal types w'
  have hfields : (Shape.mapAccumFields freshSignal w' types).1 =
      (Shape.mapAccumFields freshSignal w types).1 :=
    Shape.mapAccumFields_freshSignal_congr types rfl
  have hbind := run_bindFields w.draft.nextId
    (Shape.fieldLeaves (Shape.mapAccumFields freshSignal w' types).1) 0
    (Shape.mapAccumFields freshSignal w' types).2
  rw [hleaves, hw] at hbind
  rw [← hfields]
  show EStateM.bind (bindFields w.draft.nextId 0
      (Shape.fieldLeaves (Shape.mapAccumFields freshSignal w' types).1))
    (fun _ => EStateM.pure _) (Shape.mapAccumFields freshSignal w' types).2 = _
  unfold EStateM.bind
  rw [hleaves, hw, hbind]
  rfl

omit hI in
/-- The types of a selection are types of signals. -/
theorem groundWidth_retype (kinds : List Kind) (s : Signal) :
    Signals.groundWidth (retype kinds s).1.1 (retype kinds s).1.2 = (retype kinds s).1.2 := by
  have hground : ∀ (kind : Kind) (width : Width),
      Signals.groundWidth kind (Signals.groundWidth kind width) = Signals.groundWidth kind width := by
    intro kind width
    cases kind <;> rfl
  cases kinds with
  | nil => exact hground _ _
  | cons k rest => exact hground _ _

theorem makes_muxFields {cond : Signal} {t f : Shape.Fields Signal}
    (known : cond :: (Shape.fieldLeaves t ++ Shape.fieldLeaves f) ⊆ L) :
    Makes I L Shape.fieldLeaves (muxFields cond t f) := by
  unfold muxFields
  refine .bind (checkShape_finds _ t f) fun _ => ?_
  refine .bind ((keeps_mergeAll _).relax fun e w h => ⟨h.1, h.2.2⟩) fun kinds => ?_
  refine .bind ((operand_reads cond).relax fun e w h => ⟨h.1, h.2.2⟩) fun c => ?_
  refine .bind ((operands_read (Shape.fieldLeaves t)).relax fun e w h => ⟨h.1, h.2.2.2⟩)
    fun whenTrue => ?_
  refine .bind ((operands_read (Shape.fieldLeaves f)).relax fun e w h => ⟨h.1, h.2.2.2.2⟩)
    fun whenFalse => ?_
  -- all has been checked; what follows goes through, as one step
  rintro w ⟨hf, ht, hc, hlen, hw⟩
  have hshape := Shape.length_fieldLeaves_mapAccum retype t kinds
  have hground := Shape.forall_fieldLeaves_mapAccum (p := fun u => Signals.groundWidth u.1 u.2 = u.2)
    retype groundWidth_retype t kinds
  cases htypes : Shape.mapAccumFields retype kinds t with
  | mk types left =>
    rw [htypes] at hshape hground
    dsimp only
    rw [run_select]
    show I (Shape.fieldLeaves (Shape.mapAccumFields freshSignal w types).1 ++ L) _
    rw [(Shape.mapAccumFields_freshSignal types w).1]
    exact hI.step (.select cond _ _ c whenTrue whenFalse types hc ht hf hlen hshape hground known) hw

theorem makes_muxBundle {cond : Signal} {t f : Bundle} (known : cond :: (t.leaves ++ f.leaves) ⊆ L) :
    Makes I L Shape.leaves (muxBundle cond t f) := by
  unfold muxBundle
  split
  · exact .bind (makes_mux hI known) fun _ => .ret fun _ => id
  · exact .bind (makes_muxFields hI known) fun _ => .ret fun _ => id
  · exact .raise fun w hw => ⟨nofun, hw⟩

end Steps

end Draft

end Circuitry
