/-
  Aggregates side by side.

  An aggregate is the same in both runs if its leaves are (`Ledger.SameBundle`).  Operations on
  aggregates are operations on their leaves, one after the other, except that a selection between
  aggregates makes all its fields at once.
-/
import Circuitry.Proofs.Folding.Operations
import Circuitry.Proofs.Shape

namespace Circuitry

namespace Ledger

/-- The same value in both runs. -/
structure SameBundle (l : Ledger) (b b' : Draft.Bundle) : Prop where
  known : ∀ s ∈ b.leaves, l.Knows s
  eq : b' = b.map l.twin

/-- The same fields in both runs. -/
structure SameFields (l : Ledger) (fs fs' : Shape.Fields Signal) : Prop where
  known : ∀ s ∈ Shape.fieldLeaves fs, l.Knows s
  eq : fs' = Shape.mapFields l.twin fs

variable {l l' : Ledger}

theorem SameBundle.mono {b b' : Draft.Bundle} (h : l.SameBundle b b') (hle : l.Le l') :
    l'.SameBundle b b' := by
  refine ⟨fun s hs => (h.known s hs).mono hle, h.eq.trans ?_⟩
  exact Shape.map_congr fun s hs => (twin_mono (h.known s hs) hle).symm

theorem SameFields.mono {fs fs' : Shape.Fields Signal} (h : l.SameFields fs fs') (hle : l.Le l') :
    l'.SameFields fs fs' := by
  refine ⟨fun s hs => (h.known s hs).mono hle, h.eq.trans ?_⟩
  exact Shape.mapFields_congr fun s hs => (twin_mono (h.known s hs) hle).symm

theorem Same.bundle {s s' : Signal} (h : l.Same s s') : l.SameBundle (.leaf s) (.leaf s') := by
  refine ⟨fun r hr => ?_, congrArg Shape.leaf h.eq⟩
  obtain rfl := List.mem_singleton.1 hr
  exact h.known

theorem SameFields.bundle {fs fs' : Shape.Fields Signal} (h : l.SameFields fs fs') :
    l.SameBundle (.group fs) (.group fs') :=
  ⟨h.known, congrArg Shape.group h.eq⟩

/-- The same value in both runs is a signal in each of them or a group in each of them. -/
@[elab_as_elim]
theorem SameBundle.cases {motive : ∀ b b' : Draft.Bundle, l.SameBundle b b' → Prop}
    (leaf : ∀ {s s' : Signal} (h : l.Same s s'), motive (.leaf s) (.leaf s') h.bundle)
    (group : ∀ {fs fs' : Shape.Fields Signal} (h : l.SameFields fs fs'),
      motive (.group fs) (.group fs') h.bundle)
    {b b' : Draft.Bundle} (h : l.SameBundle b b') : motive b b' h := by
  obtain ⟨known, rfl⟩ := h
  cases b with
  | leaf s => exact leaf ⟨known s (List.mem_singleton_self s), rfl⟩
  | group fs => exact group ⟨known, rfl⟩

/-- New signals are the same in both runs. -/
theorem SameBundle.of_folded {b : Draft.Bundle}
    (h : ∀ s ∈ b.leaves, s.serial < l.next ∧ l.folded s.serial = none) : l.SameBundle b b :=
  ⟨fun s hs => (Same.of_folded (h s hs).1 (h s hs).2).known,
    (Shape.map_eq_self fun s hs => twin_of_folded (h s hs).2).symm⟩

theorem SameBundle.types_eq {b b' : Draft.Bundle} (h : l.SameBundle b b') : b'.types = b.types := by
  rw [h.eq, Draft.Bundle.types, Shape.map_map]
  rfl

theorem allSame_map : ∀ {ss : List Signal}, (∀ s ∈ ss, l.Knows s) → l.AllSame ss (ss.map l.twin)
  | [], _ => .nil
  | s :: _, h => .cons ⟨h s (List.mem_cons_self ..), rfl⟩
    (allSame_map fun r hr => h r (List.mem_cons_of_mem s hr))

theorem SameFields.leaves {fs fs' : Shape.Fields Signal} (h : l.SameFields fs fs') :
    l.AllSame (Shape.fieldLeaves fs) (Shape.fieldLeaves fs') := by
  rw [h.eq, Shape.fieldLeaves_mapFields]
  exact allSame_map h.known

/-- The same leaves in both runs, by the same names. -/
def SameLeaves (l : Ledger) (es es' : List (String × Signal)) : Prop :=
  List.Forall₂ (fun e e' => e'.1 = e.1 ∧ l.Same e.2 e'.2) es es'

theorem SameLeaves.mono {es es' : List (String × Signal)} (h : l.SameLeaves es es')
    (hle : l.Le l') : l'.SameLeaves es es' :=
  List.Forall₂.imp (fun _ _ he => ⟨he.1, Same.mono he.2 hle⟩) h

theorem sameLeaves_map : ∀ {es : List (String × Signal)}, (∀ e ∈ es, l.Knows e.2) →
    l.SameLeaves es (es.map fun e => (e.1, l.twin e.2))
  | [], _ => .nil
  | e :: _, h => .cons ⟨rfl, h e (List.mem_cons_self ..), rfl⟩
    (sameLeaves_map fun r hr => h r (List.mem_cons_of_mem e hr))

theorem SameFields.paths {fs fs' : Shape.Fields Signal} (h : l.SameFields fs fs')
    (outer : String) : l.SameLeaves (Shape.fieldPaths outer fs) (Shape.fieldPaths outer fs') := by
  rw [h.eq, Shape.fieldPaths_mapFields]
  refine sameLeaves_map fun e he => h.known e.2 ?_
  rw [← Shape.map_snd_fieldPaths outer fs]
  exact List.mem_map.2 ⟨e, he, rfl⟩

theorem SameLeaves.signals {es es' : List (String × Signal)} (h : l.SameLeaves es es') :
    l.AllSame (es.map (·.2)) (es'.map (·.2)) := by
  induction h with
  | nil => exact .nil
  | cons he _ ih => exact .cons he.2 ih

/-- The same pairs of signals in both runs. -/
def SamePairs (l : Ledger) (ps ps' : List (Signal × Signal)) : Prop :=
  List.Forall₂ (fun p p' => l.Same p.1 p'.1 ∧ l.Same p.2 p'.2) ps ps'

theorem SamePairs.mono {ps ps' : List (Signal × Signal)} (h : l.SamePairs ps ps')
    (hle : l.Le l') : l'.SamePairs ps ps' :=
  List.Forall₂.imp (fun _ _ hp => ⟨Same.mono hp.1 hle, Same.mono hp.2 hle⟩) h

theorem AllSame.zip : ∀ {as as' bs bs' : List Signal}, l.AllSame as as' → l.AllSame bs bs' →
    l.SamePairs (as.zip bs) (as'.zip bs')
  | _, _, _, _, .nil, _ => .nil
  | _, _, _, _, .cons _ _, .nil => .nil
  | _, _, _, _, .cons ha has, .cons hb hbs => .cons ⟨ha, hb⟩ (AllSame.zip has hbs)

end Ledger

namespace Draft

open Session (Twin)

variable {l : Ledger}

/-! ## Templates -/

/-- What templates of so many leaves are after they have been made. -/
theorem same_freshSignals {types : List (Kind × Width)} {w w' : Session} (hw : Twin l w w')
    {s : Signal} (hs : s ∈ freshSignals w.signals.next types) :
    s.serial < l.next + types.length ∧ l.folded s.serial = none := by
  obtain ⟨hle, hlt⟩ := Session.serial_freshSignals hs
  rw [hw.tied.next] at hle hlt
  exact ⟨hlt, hw.tied.fresh _ hle⟩

theorem sim_templates (types : Shape (Kind × Width)) :
    BuildSim l (templates types) (templates types) Ledger.SameBundle := by
  intro w w' hw
  obtain ⟨hleaves, hafter⟩ := Shape.mapAccum_freshSignal types w
  have hafter' := (Shape.mapAccum_freshSignal types w').2
  have hsame := Shape.mapAccum_freshSignal_congr types (hw.tied.next'.trans hw.tied.next.symm)
  show Ends Twin SameFault l Ledger.SameBundle
    (.ok (types.mapAccum freshSignal w).1 (types.mapAccum freshSignal w).2)
    (.ok (types.mapAccum freshSignal w').1 (types.mapAccum freshSignal w').2)
  rw [hsame, hafter, hafter']
  refine .ok (Session.le_createdMany l _) (hw.createdMany _) (.of_folded fun s hs => ?_)
  rw [hleaves] at hs
  exact same_freshSignals hw hs

theorem sim_fresh {b b' : Bundle} (h : l.SameBundle b b') :
    BuildSim l (fresh b) (fresh b') Ledger.SameBundle := by
  unfold fresh
  rw [h.types_eq]
  exact sim_templates _

/-! ## Declarations and connections -/

theorem any_sameSignal {s s' : Signal} (hs : l.Same s s') {seen seen' : List Signal}
    (h : l.AllSame seen seen') :
    seen'.any (Bundle.sameSignal s') = seen.any (Bundle.sameSignal s) := by
  induction h with
  | nil => rfl
  | cons hr _ ih => rw [List.any_cons, List.any_cons, ih, hs.eq, hr.eq]; rfl

theorem sim_checkTemplates (role : Role) : ∀ {ss ss' seen seen' : List Signal} {l : Ledger},
    l.AllSame seen seen' → l.AllSame ss ss' →
      BuildSim l (checkTemplates role seen ss) (checkTemplates role seen' ss') Anything
  | [], _, _, _, _, _, .nil => .ret trivial
  | s :: ss, _, seen, seen', l, hseen, .cons hs hss => by
    unfold checkTemplates
    refine .bind (sim_checkTemplate hs role) fun l₁ h₁ _ _ _ => ?_
    have hs₁ := hs.mono h₁
    have hseen₁ := Ledger.AllSame.mono hseen h₁
    rw [any_sameSignal hs₁ hseen₁]
    refine .ite Iff.rfl (fun _ => .raise rfl) fun _ => ?_
    exact sim_checkTemplates role (.cons hs₁ hseen₁) (Ledger.AllSame.mono hss h₁)

theorem sim_declareLeaves (r : Declared) (name : String) :
    ∀ {es es' : List (String × Signal)} {l : Ledger}, l.SameLeaves es es' →
      BuildSim l (declareLeaves r name es) (declareLeaves r name es') Anything
  | [], _, _, .nil => .ret trivial
  | (path, s) :: es, (path', s') :: es', l, .cons he hes => by
    obtain ⟨rfl, hs⟩ := he
    unfold declareLeaves
    exact .bind (sim_declare hs r _) fun l₁ h₁ _ _ _ =>
      sim_declareLeaves r name (Ledger.SameLeaves.mono hes h₁)

theorem sim_declareFields (r : Declared) (name : String) {fs fs' : Shape.Fields Signal}
    (h : l.SameFields fs fs') :
    BuildSim l (declareFields r name fs) (declareFields r name fs') Anything := by
  unfold declareFields
  have hpaths := h.paths ""
  exact .bind (sim_checkTemplates r.role .nil hpaths.signals) fun l₁ h₁ _ _ _ =>
    sim_declareLeaves r name (hpaths.mono h₁)

theorem widthIssue?_congr : ∀ {as as' bs bs' : List (String × Signal)}, l.SameLeaves as as' →
    l.SameLeaves bs bs' → widthIssue? as' bs' = widthIssue? as bs
  | _, _, _, _, .nil, _ => rfl
  | _, _, _, _, .cons _ _, .nil => rfl
  | (path, a) :: as, (path', a') :: as', (_, b) :: bs, (_, b') :: bs', .cons ha has, .cons hb hbs => by
    obtain ⟨rfl, ha⟩ := ha
    have hwidth : a'.width = a.width := ha.width
    have hwidth' : b'.width = b.width := hb.2.width
    rw [widthIssue?, widthIssue?, hwidth, hwidth', widthIssue?_congr has hbs]

theorem sim_checkShape (context : String) {a a' b b' : Shape.Fields Signal}
    (ha : l.SameFields a a') (hb : l.SameFields b b') :
    BuildSim l (checkShape context a b) (checkShape context a' b') Anything := by
  have hpaths := ha.paths ""
  have hpaths' := hb.paths ""
  unfold checkShape
  dsimp only
  rw [widthIssue?_congr hpaths hpaths', ← List.Forall₂.length_eq hpaths,
    ← List.Forall₂.length_eq hpaths']
  refine .ite Iff.rfl (fun _ => .raise rfl) fun _ => ?_
  split
  · exact .raise rfl
  · exact .ret trivial

theorem sim_checkConnections : ∀ {ps ps' : List (Signal × Signal)} {l : Ledger},
    l.SamePairs ps ps' → BuildSim l (checkConnections ps) (checkConnections ps') Anything
  | [], _, _, .nil => .ret trivial
  | (a, b) :: ps, (a', b') :: ps', l, .cons hp hps => by
    obtain ⟨ha, hb⟩ : l.Same a a' ∧ l.Same b b' := hp
    unfold checkConnections
    rw [ha.kind, hb.kind, ha.ty, hb.ty]
    refine .ite Iff.rfl (fun _ => .raise rfl) fun _ => ?_
    refine .bind (sim_assignable ha) fun l₁ h₁ _ _ _ => ?_
    refine .bind (sim_operand (hb.mono h₁)) fun l₂ h₂ _ _ _ => ?_
    exact sim_checkConnections (Ledger.SamePairs.mono hps (h₁.trans h₂))

theorem sim_connectAll : ∀ {ps ps' : List (Signal × Signal)} {l : Ledger},
    l.SamePairs ps ps' → BuildSim l (connectAll ps) (connectAll ps') Anything
  | [], _, _, .nil => .ret trivial
  | (a, b) :: ps, (a', b') :: ps', l, .cons hp hps => by
    unfold connectAll
    exact .bind (sim_connect hp.1 hp.2) fun l₁ h₁ _ _ _ =>
      sim_connectAll (Ledger.SamePairs.mono hps h₁)

theorem sim_connectFields {t t' s s' : Shape.Fields Signal} (ht : l.SameFields t t')
    (hs : l.SameFields s s') :
    BuildSim l (connectFields t s) (connectFields t' s') Anything := by
  unfold connectFields
  refine .bind (sim_checkShape _ ht hs) fun l₁ h₁ _ _ _ => ?_
  have hpairs := (ht.mono h₁).leaves.zip (hs.mono h₁).leaves
  exact .bind (sim_checkConnections hpairs) fun l₂ h₂ _ _ _ => sim_connectAll (hpairs.mono h₂)

/-! ## Selections -/

theorem sim_mergeAll : ∀ {ps ps' : List (Signal × Signal)} {l : Ledger}, l.SamePairs ps ps' →
    BuildSim l (mergeAll ps) (mergeAll ps') fun _ kinds kinds' => kinds' = kinds
  | [], _, _, .nil => .ret rfl
  | (a, b) :: ps, (a', b') :: ps', l, .cons hp hps => by
    obtain ⟨ha, hb⟩ : l.Same a a' ∧ l.Same b b' := hp
    unfold mergeAll
    rw [ha.kind, hb.kind, ha.ty, hb.ty]
    split
    · exact .raise rfl
    · refine .bind (sim_mergeAll hps) fun l₁ _ kinds kinds' hkinds => .ret ?_
      rw [hkinds]

/-- The types of the fields of a selection are the same in both runs. -/
theorem retype_fields {t t' : Shape.Fields Signal} (ht : l.SameFields t t') (kinds : List Kind) :
    Shape.mapAccumFields retype kinds t' = Shape.mapAccumFields retype kinds t := by
  rw [ht.eq, Shape.mapAccumFields_mapFields]
  rfl

theorem sim_muxFields {c c' : Signal} {t t' f f' : Shape.Fields Signal} (hc : l.Same c c')
    (ht : l.SameFields t t') (hf : l.SameFields f f') :
    BuildSim l (muxFields c t f) (muxFields c' t' f') Ledger.SameFields := by
  unfold muxFields
  refine .bind (sim_checkShape _ ht hf) fun l₁ h₁ _ _ _ => ?_
  refine .bind (sim_mergeAll ((ht.mono h₁).leaves.zip (hf.mono h₁).leaves))
    fun l₂ h₂ kinds kinds' hkinds => ?_
  have hle₂ := h₁.trans h₂
  refine .bind (sim_operand (hc.mono hle₂)) fun l₃ h₃ x x' hx => ?_
  have hle₃ := hle₂.trans h₃
  refine .bind (sim_operands (ht.mono hle₃).leaves) fun l₄ h₄ xs xs' hxs => ?_
  have hle₄ := hle₃.trans h₄
  refine .bind (sim_operands (hf.mono hle₄).leaves) fun l₅ h₅ ys ys' hys w w' hw => ?_
  subst hkinds
  rw [retype_fields ht]
  cases htypes : Shape.mapAccumFields retype kinds' t with
  | mk types left =>
    dsimp only
    have hnext := hw.tied.next'.trans hw.tied.next.symm
    obtain ⟨hleaves, -⟩ := Shape.mapAccumFields_freshSignal types w
    rw [run_select, run_select, Shape.mapAccumFields_freshSignal_congr types hnext]
    have htwin := hw.selected (hx.mono (h₄.trans h₅)) (hxs.mono h₅) hys types
    refine .ok (Session.le_selecting l₅ w' _) htwin ⟨fun s hs => ?_, ?_⟩
    · rw [hleaves] at hs
      obtain ⟨hlt, hentry⟩ := same_freshSignals hw hs
      exact (Ledger.Same.of_folded (l := Session.selecting l₅ w' _) hlt hentry).known
    · refine (Shape.mapFields_eq_self fun s hs => ?_).symm
      rw [hleaves] at hs
      exact Ledger.twin_of_folded (same_freshSignals hw hs).2

theorem sim_muxBundle {c c' : Signal} {t t' f f' : Bundle} (hc : l.Same c c')
    (ht : l.SameBundle t t') (hf : l.SameBundle f f') :
    BuildSim l (muxBundle c t f) (muxBundle c' t' f') Ledger.SameBundle := by
  have hty : t'.ty = t.ty := by rw [Bundle.ty, ht.types_eq, ← Bundle.ty]
  have hty' : f'.ty = f.ty := by rw [Bundle.ty, hf.types_eq, ← Bundle.ty]
  have hfault : SameFault (.typeMismatch "mux" t.ty f.ty) (.typeMismatch "mux" t'.ty f'.ty) := by
    rw [hty, hty']
    rfl
  cases ht using Ledger.SameBundle.cases with
  | leaf ha =>
    cases hf using Ledger.SameBundle.cases with
    | leaf hb => exact .bind (sim_mux hc ha hb) fun _ _ _ _ hs => .ret hs.bundle
    | group _ => exact .raise hfault
  | group hfs =>
    cases hf using Ledger.SameBundle.cases with
    | leaf _ => exact .raise hfault
    | group hgs => exact .bind (sim_muxFields hc hfs hgs) fun _ _ _ _ hs => .ret hs.bundle

end Draft

end Circuitry
