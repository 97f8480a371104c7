/-
  Scripts go step by step.

  A call of a script makes the steps that its operation makes, so whatever every `Step` keeps, every
  call keeps (`makes_meaning`).  A whole run makes steps, and the marks of its chains: whatever both
  keep, a run keeps, wherever it stops and whichever failures it passes over (`keeps_run`).

  The signals that are around in a run are those that its variables hold (`World.around`).  A call
  takes its operands from them.  A value that it makes comes to them when it is given a name; until
  then it is held besides (`Holding`).
-/
import Circuitry.Proofs.Draft.Bundle
import Circuitry.Script

namespace Circuitry.Script

open Draft (Session Bundle Stable Makes MakesSignal BuildKeeps freshSignals)
open Draft.Session (Mark)

/-- A stop that a script can lead to. -/
def Stop.ofUse : Stop → Prop
  | .fault f => f.ofUse
  | .nonsense | .overflow => True

/-! ## Signals in a run -/

/-- The signals that variables hold. -/
def held (values : List (String × Bundle)) : List Signal := values.flatMap fun v => v.2.leaves

/-- The signals that are around. -/
abbrev World.around (w : World) : List Signal := held w.values

/-- The signals of the value that comes with an answer. -/
def answered (r : Answer × Option Bundle) : List Signal := (r.2.map Shape.leaves).getD []

/-- What is said of the session, with `extra` held besides the signals that are around. -/
abbrev Holding (I : List Signal → Session → Prop) (extra : List Signal) (w : World) : Prop :=
  I (extra ++ w.around) w.session

/-- What a run keeps of its session and the signals that are around. -/
abbrev RunKeeps {α : Type} (I : List Signal → Session → Prop) (act : Run α) : Prop :=
  Keeps (Holding I []) Stop.ofUse act

/-- However the action ends from worlds with `pre`, it is then so of the session and the signals that
    are around. -/
abbrev RunLeaves {α : Type} (I : List Signal → Session → Prop) (pre : World → Prop) (act : Run α) :
    Prop :=
  Triple pre act (fun _ => Holding I []) (fun e w => e.ofUse ∧ Holding I [] w)

/-- The same for an action that ends with more signals than it found. -/
abbrev RunMakes {α : Type} (I : List Signal → Session → Prop) (made : α → List Signal)
    (act : Run α) : Prop :=
  Triple (Holding I []) act (fun a => Holding I (made a)) (fun e w => e.ofUse ∧ Holding I [] w)

section Lift

variable {α : Type} {I P : List Signal → Session → Prop} {act : Draft.Build α}

/-- What part of a description does, as part of a run. -/
theorem triple_lift {Q : α → List Signal → Session → Prop}
    (h : ∀ L, Triple (P L) act (fun a => Q a L) (fun e w => e.ofUse ∧ I L w)) :
    Triple (fun w : World => P w.around w.session) (liftBuild act)
      (fun a w => Q a w.around w.session) (fun e w => e.ofUse ∧ Holding I [] w) := by
  intro w hw
  have hact := h w.around w.session hw
  unfold liftBuild
  cases hr : act w.session with
  | ok a s =>
    rw [hr] at hact
    exact hact
  | error e s =>
    rw [hr] at hact
    exact hact

/-- What part of a description makes. -/
theorem makes_lift {made : α → List Signal} (h : ∀ L, Makes I L made act) :
    RunMakes I made (liftBuild act) :=
  triple_lift (P := I) (Q := fun a L => I (made a ++ L)) h

/-- What part of a description makes from signals that are around. -/
theorem makes_liftFrom {made : α → List Signal} {used : List Signal}
    (h : ∀ L, used ⊆ L → Makes I L made act) :
    Triple (fun w => used ⊆ w.around ∧ Holding I [] w) (liftBuild act)
      (fun a => Holding I (made a)) (fun e w => e.ofUse ∧ Holding I [] w) :=
  triple_lift (P := fun L w => used ⊆ L ∧ I L w) (Q := fun a L => I (made a ++ L))
    fun L => .of_fact (h L)

theorem keeps_lift (h : ∀ L, BuildKeeps (I L) act) : RunKeeps I (liftBuild act) :=
  makes_lift h

/-- What part of a description keeps while more signals are held. -/
theorem keeps_liftHolding (hI : Stable I) {extra : List Signal}
    (h : ∀ L, extra ⊆ L → BuildKeeps (I L) act) :
    Triple (Holding I extra) (liftBuild act) (fun _ => Holding I extra)
      (fun e w => e.ofUse ∧ Holding I [] w) := by
  refine triple_lift (P := fun L => I (extra ++ L)) (Q := fun _ L => I (extra ++ L)) fun L => ?_
  refine (h _ (List.subset_append_left _ _)).relax fun e w hw => ⟨hw.1, ?_⟩
  exact hI.forget (List.subset_append_right _ _) hw.2

end Lift

/-! ## Calls that only look -/

section Look

variable {J : World → Prop}

theorem bundle_finds (name : String) :
    Triple J (bundle name) (fun b w => b.leaves ⊆ w.around ∧ J w) (fun e w => e.ofUse ∧ J w) := by
  unfold bundle
  refine .look_bind fun w₀ => ?_
  split
  · next b hb =>
    refine .ret ?_
    rintro w ⟨rfl, hw⟩
    exact ⟨fun s hs => List.mem_flatMap.2 ⟨(name, b), mem_of_lookup hb, hs⟩, hw⟩
  · exact .raise fun w hw => ⟨trivial, hw.2⟩

theorem signal_finds (name : String) :
    Triple J (signal name) (fun s w => s ∈ w.around ∧ J w) (fun e w => e.ofUse ∧ J w) := by
  unfold signal
  refine .bind (bundle_finds name) fun b => ?_
  split
  · exact .ret fun w hw => ⟨hw.1 (List.mem_singleton_self _), hw.2⟩
  · exact .raise fun w hw => ⟨trivial, hw.2⟩

theorem boolean_finds (name : String) :
    Triple J (boolean name) (fun s w => (s.kind = .bool ∧ s ∈ w.around) ∧ J w)
      (fun e w => e.ofUse ∧ J w) := by
  unfold boolean
  refine .bind (signal_finds name) fun s => ?_
  exact .ite (fun hs => .ret fun w hw => ⟨⟨hs, hw.1⟩, hw.2⟩)
    (fun _ => .raise fun w hw => ⟨trivial, hw.2⟩)

theorem numeric_finds (name : String) :
    Triple J (numeric name) (fun s w => s ∈ w.around ∧ J w) (fun e w => e.ofUse ∧ J w) := by
  unfold numeric
  refine .bind (signal_finds name) fun s => ?_
  exact .ite (fun _ => .ret fun w hw => hw) (fun _ => .raise fun w hw => ⟨trivial, hw.2⟩)

theorem keeps_boolean (name : String) : Keeps J Stop.ofUse (boolean name) :=
  (boolean_finds name).weaken fun _ _ hw => hw.2

end Look

/-- The leaves of a field are leaves of the whole. -/
theorem leaves_of_mem {b : Bundle} {n : String} : ∀ {fs : Shape.Fields Signal}, (n, b) ∈ fs →
    ∀ s ∈ b.leaves, s ∈ Shape.fieldLeaves fs
  | (m, c) :: fs, h, s, hs => by
    rcases List.mem_cons.1 h with he | h
    · obtain ⟨rfl, rfl⟩ := Prod.mk.inj he
      exact List.mem_append_left _ hs
    · exact List.mem_append_right _ (leaves_of_mem h s hs)

section Answers

variable {I : List Signal → Session → Prop} {pre : World → Prop} {fail : Stop → World → Prop}

theorem makes_answerOnly (h : ∀ w, pre w → Holding I [] w) (a : Answer) :
    Triple pre (answerOnly a) (fun r => Holding I (answered r)) fail :=
  .ret h

/-- A value that is held is answered. -/
theorem makes_answerValue (b : Bundle) :
    Triple (Holding I b.leaves) (answerValue b) (fun r => Holding I (answered r)) fail := by
  have hlook : Triple (Holding I b.leaves) (portrait b) (fun _ => Holding I b.leaves) fail := by
    unfold portrait
    exact .look_bind fun w => .ret fun _ hw => hw.2
  unfold answerValue
  exact .bind hlook fun v => .ret fun _ hw => hw

/-- A value of signals that are around is answered. -/
theorem makes_answerAround (hI : Stable I) (b : Bundle)
    (h : ∀ w, pre w → b.leaves ⊆ w.around ∧ Holding I [] w) :
    Triple pre (answerValue b) (fun r => Holding I (answered r)) fail := by
  refine (makes_answerValue b).strengthen fun w hw => ?_
  exact hI.forget (List.append_subset.2 ⟨(h w hw).1, List.Subset.refl _⟩) (h w hw).2

theorem makes_answerPart (hI : Stable I) (part : Option Bundle)
    (h : ∀ w, pre w → (∀ b ∈ part, b.leaves ⊆ w.around) ∧ Holding I [] w) :
    Triple pre (answerPart part) (fun r => Holding I (answered r)) fail := by
  cases part with
  | none => exact makes_answerOnly (fun w hw => (h w hw).2) _
  | some b => exact makes_answerAround hI b fun w hw => ⟨(h w hw).1 b rfl, (h w hw).2⟩

/-- A signal that is made is answered. -/
theorem makes_answerSignal {act : Draft.Build Signal} {used : List Signal}
    (h : ∀ L, used ⊆ L → MakesSignal I L act)
    (hpre : ∀ w, pre w → used ⊆ w.around ∧ Holding I [] w) :
    Triple pre (answerSignal act) (fun r => Holding I (answered r))
      (fun e w => e.ofUse ∧ Holding I [] w) := by
  unfold answerSignal
  exact .bind ((makes_liftFrom h).strengthen hpre) fun s => makes_answerValue (.leaf s)

/-- A signal is answered if one is made. -/
theorem makes_answerChecked {act : Draft.Checked Signal} {used : List Signal}
    (h : ∀ L, used ⊆ L → Makes I L Option.toList act.run)
    (hpre : ∀ w, pre w → used ⊆ w.around ∧ Holding I [] w) :
    Triple pre (answerChecked act) (fun r => Holding I (answered r))
      (fun e w => e.ofUse ∧ Holding I [] w) := by
  unfold answerChecked
  refine .bind ((makes_liftFrom h).strengthen hpre) fun made => ?_
  cases made with
  | none => exact .raise fun w hw => ⟨trivial, hw⟩
  | some s => exact makes_answerValue (.leaf s)

/-- A signal that is made from nothing is answered. -/
theorem makes_answerNew {act : Draft.Build Signal} (h : ∀ L, MakesSignal I L act) :
    RunMakes I answered (answerSignal act) := by
  unfold answerSignal
  exact .bind (makes_lift h) fun s => makes_answerValue (.leaf s)

end Answers

/-! ## Templates made on the way -/

mutual

/-- The leaves of a value that has been put together are those of its parts. -/
theorem mem_leaves_bind? : ∀ {s : Shape (Option Bundle)} {b : Bundle}, s.bind? id = some b →
    ∀ r ∈ b.leaves, ∃ c, some c ∈ s.leaves ∧ r ∈ c.leaves
  | .leaf c, b, h, r, hr => ⟨b, by rw [← h]; exact List.mem_singleton_self _, hr⟩
  | .group fs, b, h, r, hr => by
    obtain ⟨gs, hgs, rfl⟩ := Option.map_eq_some_iff.1 h
    exact mem_leaves_bindFields? hgs r hr

theorem mem_leaves_bindFields? : ∀ {fs : Shape.Fields (Option Bundle)} {gs : Shape.Fields Signal},
    Shape.bindFields? id fs = some gs →
      ∀ r ∈ Shape.fieldLeaves gs, ∃ c, some c ∈ Shape.fieldLeaves fs ∧ r ∈ c.leaves
  | [], gs, h, r, hr => by
    obtain rfl := Option.some.inj h
    cases hr
  | (n, s) :: fs, gs, h, r, hr => by
    unfold Shape.bindFields? at h
    split at h
    · next t ts ht hts =>
      obtain rfl := Option.some.inj h
      rcases List.mem_append.1 hr with hr | hr
      · obtain ⟨c, hc, hrc⟩ := mem_leaves_bind? ht r hr
        exact ⟨c, List.mem_append_left _ hc, hrc⟩
      · obtain ⟨c, hc, hrc⟩ := mem_leaves_bindFields? hts r hr
        exact ⟨c, List.mem_append_right _ hc, hrc⟩
    · cases h

end

mutual

/-- The leaves of a shape in a call make templates, or are held already. -/
theorem resolve_shape (values : List (String × Bundle)) : ∀ (s : Shape Leaf) (t : Signals),
    ∃ types : List (Kind × Width),
      (s.mapAccum (resolveLeaf values) t).2 = { t with next := t.next + types.length } ∧
      ∀ b, some b ∈ (s.mapAccum (resolveLeaf values) t).1.leaves →
        b.leaves ⊆ freshSignals t.next types ++ held values
  | .leaf (.variable name), t => by
    refine ⟨[], rfl, fun b hb s hs => ?_⟩
    have hlookup := mem_of_lookup (List.mem_singleton.1 hb).symm
    exact List.mem_append_right _ (List.mem_flatMap.2 ⟨(name, b), hlookup, hs⟩)
  | .leaf (.template kind width), t => by
    refine ⟨[(kind, width)], rfl, fun b hb => ?_⟩
    obtain rfl := Option.some.inj (List.mem_singleton.1 hb)
    exact List.subset_append_left _ _
  | .group fs, t => resolve_fields values fs t

theorem resolve_fields (values : List (String × Bundle)) :
    ∀ (fs : Shape.Fields Leaf) (t : Signals), ∃ types : List (Kind × Width),
      (Shape.mapAccumFields (resolveLeaf values) t fs).2 =
        { t with next := t.next + types.length } ∧
      ∀ b, some b ∈ Shape.fieldLeaves (Shape.mapAccumFields (resolveLeaf values) t fs).1 →
        b.leaves ⊆ freshSignals t.next types ++ held values
  | [], _ => ⟨[], rfl, nofun⟩
  | (_, s) :: fs, t => by
    obtain ⟨first, hfirst, hbefore⟩ := resolve_shape values s t
    obtain ⟨rest, hrest, hafter⟩ := resolve_fields values fs (s.mapAccum (resolveLeaf values) t).2
    rw [hfirst] at hrest hafter
    refine ⟨first ++ rest, ?_, fun b hb r hr => ?_⟩
    · simp only [Shape.mapAccumFields]
      rw [hfirst, hrest]
      simp [Nat.add_assoc]
    · simp only [Shape.mapAccumFields, Shape.fieldLeaves] at hb
      rw [hfirst] at hb
      rw [Draft.freshSignals_append]
      rcases List.mem_append.1 hb with hb | hb
      · have := hbefore b hb hr
        simp only [List.mem_append] at this ⊢
        tauto
      · have := hafter b hb hr
        simp only [List.mem_append] at this ⊢
        tauto

end

theorem run_resolve (shape : Shape Leaf) (w : World) : resolve shape w =
    match (shape.mapAccum (resolveLeaf w.values) w.session.signals).1.bind? id with
    | none => .error .nonsense w
    | some b => .ok b { w with session := { w.session with
        signals := (shape.mapAccum (resolveLeaf w.values) w.session.signals).2 } } := by
  have hget : (get : Run World) w = .ok w w := rfl
  unfold resolve
  rw [bind_of_ok hget]
  dsimp only
  cases (shape.mapAccum (resolveLeaf w.values) w.session.signals).1.bind? id <;> rfl

section Steps

variable {I : List Signal → Session → Prop} (hI : Stable I)

include hI

theorem makes_resolve (shape : Shape Leaf) : RunMakes I Shape.leaves (resolve shape) := by
  intro w hw
  obtain ⟨types, hsignals, hmade⟩ := resolve_shape w.values shape w.session.signals
  rw [run_resolve]
  cases hb : (shape.mapAccum (resolveLeaf w.values) w.session.signals).1.bind? id with
  | none => exact ⟨trivial, hw⟩
  | some b =>
    show I (b.leaves ++ w.around) { w.session with
      signals := (shape.mapAccum (resolveLeaf w.values) w.session.signals).2 }
    rw [hsignals]
    -- of the templates that were made only those of the result are remembered
    refine hI.forget (List.append_subset.2 ⟨fun s hs => ?_, List.subset_append_right _ _⟩)
      (Draft.makes_many hI types hw)
    obtain ⟨c, hc, hsc⟩ := mem_leaves_bind? hb s hs
    exact hmade c hc hsc

theorem makes_binary (op : Binary) {L : List Signal} {a b : Signal} (known : [a, b] ⊆ L) :
    MakesSignal I L (op.build a b) := by
  cases op with
  | addWide => exact Draft.makes_binary hI rfl known
  | subWide => exact Draft.makes_binary hI rfl known
  | add => exact Draft.makes_wrapping hI rfl known
  | sub => exact Draft.makes_wrapping hI rfl known
  | lt | leq | gt | geq | eq | neq => exact Draft.makes_compare hI rfl known
  | concat => exact Draft.makes_apply hI rfl known .uint
  | shiftLeftBy => exact Draft.makes_shiftLeftBy hI known
  | _ => exact Draft.makes_binary hI rfl known

theorem makes_unary (op : Unary) {L : List Signal} {a : Signal} (known : [a] ⊆ L) :
    MakesSignal I L (op.build a) := by
  cases op with
  | asSInt => exact Draft.makes_apply hI rfl known .sint
  | asUInt => exact Draft.makes_apply hI rfl known .uint
  | asBool => exact Draft.makes_asBool hI known
  | andReduce | orReduce | xorReduce => exact Draft.makes_apply hI rfl known .bool
  | _ => exact Draft.makes_unary hI rfl known

/-! ## All calls -/

theorem makes_meaning (use : Call) : RunMakes I answered (meaning use) := by
  cases use with
  | template kind width => exact makes_answerNew fun _ => Draft.makes_template hI kind width
  | «alias» a | look a =>
    exact .bind (bundle_finds a) fun b => makes_answerAround hI b fun _ hw => hw
  | aggregate fields =>
    refine .bind (makes_resolve hI fields) fun b => ?_
    split
    · exact .raise fun w hw => ⟨trivial, hI.forget (List.subset_append_right _ _) hw⟩
    · exact makes_answerValue _
  | fresh a =>
    refine .bind (bundle_finds a) fun b => ?_
    split
    · exact .raise fun w hw => ⟨trivial, hw.2⟩
    · refine .bind ((makes_lift fun L => Draft.makes_fresh hI _).strengthen fun w hw => hw.2)
        fun c => makes_answerValue c
  | field a name =>
    refine .bind (bundle_finds a) fun b => ?_
    split
    · exact .raise fun w hw => ⟨trivial, hw.2⟩
    · next fs =>
      -- a part of what is around is around
      refine makes_answerPart hI _ fun w hw => ⟨fun b hb s hs => hw.1 ?_, hw.2⟩
      exact leaves_of_mem (mem_of_lookup hb) s hs
  | leaf a index =>
    refine .bind (bundle_finds a) fun b => ?_
    split
    · exact .raise fun w hw => ⟨trivial, hw.2⟩
    · next fs =>
      refine makes_answerPart hI _ fun w hw => ⟨fun b hb s hs => hw.1 ?_, hw.2⟩
      obtain ⟨r, hr, rfl⟩ := Option.map_eq_some_iff.1 hb
      obtain rfl := List.mem_singleton.1 hs
      exact List.mem_of_getElem? hr
  | fields a =>
    refine .bind (bundle_finds a) fun b => ?_
    split
    · exact .raise fun w hw => ⟨trivial, hw.2⟩
    · exact .look_bind fun _ => makes_answerOnly (fun w hw => hw.2.2) _
  | debug a =>
    refine .bind (signal_finds a) fun s => ?_
    exact .look_bind fun _ => makes_answerOnly (fun w hw => hw.2.2) _
  | sameSignal a b =>
    refine .bind (signal_finds a) fun x => ?_
    refine .bind ((signal_finds b).relax fun e w h => ⟨h.1, h.2.2⟩) fun y => ?_
    exact makes_answerOnly (fun w hw => hw.2.2) _
  | declare role name shape =>
    refine .bind (makes_resolve hI shape) fun b => ?_
    split
    · next s =>
      refine .bind (keeps_liftHolding hI fun L known => ?_) fun _ => makes_answerValue (.leaf s)
      exact Draft.keeps_declare hI role name (known (List.mem_singleton_self _))
    · next fs =>
      refine .bind (keeps_liftHolding hI fun L known => ?_) fun _ => makes_answerValue (.group fs)
      exact Draft.keeps_declareFields hI role name known
  | literalUInt n width => exact makes_answerNew fun _ => Draft.makes_literalUInt hI n width
  | literalSInt i width => exact makes_answerNew fun _ => Draft.makes_literalSInt hI i width
  | literalBool b => exact makes_answerNew fun _ => Draft.makes_literalBool hI b
  | literalText text => exact makes_answerNew fun _ => Draft.makes_literalText hI text
  | connect target source =>
    refine .bind (bundle_finds target) fun t => ?_
    refine .bind ((bundle_finds source).relax fun e w h => ⟨h.1, h.2.2⟩) fun s => ?_
    split
    · next x y =>
      refine .bind (.strengthen (makes_liftFrom fun L => Draft.keeps_connect hI) fun w hw => ?_)
        fun _ => makes_answerOnly (fun w hw => hw) _
      obtain ⟨hy, hx, hw⟩ := hw
      exact ⟨by simpa using ⟨hx (List.mem_singleton_self x), hy (List.mem_singleton_self y)⟩, hw⟩
    · next x y =>
      refine .bind (.strengthen (makes_liftFrom fun L => Draft.keeps_connectFields hI) fun w hw => ?_)
        fun _ => makes_answerOnly (fun w hw => hw) _
      obtain ⟨hy, hx, hw⟩ := hw
      exact ⟨by simpa [Shape.leaves] using ⟨hx, hy⟩, hw⟩
    · exact .bind (.raise fun w hw => ⟨trivial, hw.2.2⟩) fun _ => makes_answerOnly (fun w hw => hw) _
  | mux cond t f =>
    refine .bind (boolean_finds cond) fun c => ?_
    refine .bind ((bundle_finds t).relax fun e w h => ⟨h.1, h.2.2⟩) fun a => ?_
    refine .bind ((bundle_finds f).relax fun e w h => ⟨h.1, h.2.2.2⟩) fun b => ?_
    split
    · next x y =>
      refine makes_answerSignal (fun L => Draft.makes_mux hI) fun w hw => ?_
      obtain ⟨hb, ha, hc, hw⟩ := hw
      have hx := ha (List.mem_singleton_self x)
      have hy := hb (List.mem_singleton_self y)
      exact ⟨by simpa using ⟨hc.2, hx, hy⟩, hw⟩
    · refine .bind (.strengthen (makes_liftFrom fun L => Draft.makes_muxFields hI) fun w hw => ?_)
        fun fs => makes_answerValue (.group fs)
      obtain ⟨hb, ha, hc, hw⟩ := hw
      exact ⟨by simpa [Shape.leaves] using ⟨hc.2, ha, hb⟩, hw⟩
    · exact .raise fun w hw => ⟨trivial, hw.2.2.2⟩
  | muxBundle cond t f =>
    refine .bind (boolean_finds cond) fun c => ?_
    refine .bind ((bundle_finds t).relax fun e w h => ⟨h.1, h.2.2⟩) fun a => ?_
    refine .bind ((bundle_finds f).relax fun e w h => ⟨h.1, h.2.2.2⟩) fun b => ?_
    refine .bind (.strengthen (makes_liftFrom fun L => Draft.makes_muxBundle hI) fun w hw => ?_)
      fun c => makes_answerValue c
    obtain ⟨hb, ha, hc, hw⟩ := hw
    exact ⟨by simpa using ⟨hc.2, ha, hb⟩, hw⟩
  | binary op a b =>
    refine .bind (signal_finds a) fun x => ?_
    refine .bind ((signal_finds b).relax fun e w h => ⟨h.1, h.2.2⟩) fun y => ?_
    refine .ite (fun _ => ?_) (fun _ => .raise fun w hw => ⟨trivial, hw.2.2⟩)
    exact makes_answerSignal (fun L => makes_binary hI op) fun w hw =>
      ⟨by simp [hw.1, hw.2.1], hw.2.2⟩
  | unary op a =>
    refine .bind (signal_finds a) fun x => ?_
    refine .ite (fun _ => ?_) (fun _ => .raise fun w hw => ⟨trivial, hw.2⟩)
    exact makes_answerSignal (fun L => makes_unary hI op) fun w hw => ⟨by simp [hw.1], hw.2⟩
  | extract a hi lo =>
    refine .bind (numeric_finds a) fun x => ?_
    exact makes_answerChecked (fun L known => Draft.makes_extract hI known hi lo) fun w hw =>
      ⟨by simp [hw.1], hw.2⟩
  | bit a index =>
    refine .bind (numeric_finds a) fun x => ?_
    exact makes_answerChecked (fun L known => Draft.makes_bit hI known index) fun w hw =>
      ⟨by simp [hw.1], hw.2⟩
  | hasCode code => exact .look_bind fun _ => makes_answerOnly (fun w hw => hw.2) _
  | drain =>
    refine .look_bind fun w => ?_
    refine .bind ?_ fun _ => makes_answerOnly (fun w hw => hw) _
    rintro w' ⟨rfl, hw⟩
    exact hI.step .drain hw
  | name => exact .look_bind fun _ => makes_answerOnly (fun w hw => hw.2) _

end Steps

/-! ## Steps and chains -/

section Chains

variable {I : List Signal → Session → Prop} (hI : Stable I) {pre : World → Prop}

theorem session_keep (w : World) (name : Option String) (value : Option Bundle) :
    (w.keep name value).session = w.session := by
  unfold World.keep
  split <;> rfl

/-- Only a value that gets a name comes to those around. -/
theorem around_keep (w : World) (name : Option String) (r : Answer × Option Bundle) :
    (w.keep name r.2).around ⊆ answered r ++ w.around := by
  unfold World.keep
  split
  · next n b hb =>
    rw [answered, hb]
    exact List.Subset.refl _
  · exact List.subset_append_right _ _

include hI in
theorem keeps_perform (step : Step) {act : Run (Answer × Option Bundle)}
    (h : Triple pre act (fun r => Holding I (answered r)) (fun e w => e.ofUse ∧ Holding I [] w)) :
    RunLeaves I pre (step.perform act) := by
  intro w hw
  have hact := h w hw
  unfold Step.perform
  cases hr : act w with
  | ok r w' =>
    rw [hr] at hact
    show I (w'.keep step.bindAs r.2).around (w'.keep step.bindAs r.2).session
    rw [session_keep]
    exact hI.forget (around_keep w' step.bindAs r) hact
  | error e w' =>
    rw [hr] at hact
    cases e with
    | nonsense | overflow => exact hact
    | fault f =>
      -- a failure that was merely attempted leaves what has been kept
      cases ha : step.attempt with
      | true => simpa [ha] using hact.2
      | false => simpa [ha] using hact

theorem keeps_note (e : Entry) : RunKeeps I (note e) := fun _ hw => hw

/-- A condition is a boolean that is around. -/
abbrev Finds (I : List Signal → Session → Prop) (pre : World → Prop) (cond : Run Signal) : Prop :=
  Triple pre cond (fun s w => (s.kind = .bool ∧ s ∈ w.around) ∧ Holding I [] w)
    (fun e w => e.ofUse ∧ Holding I [] w)

/-- A condition: what its script does, and the variable that holds it. -/
theorem condition_finds {cond : Run Unit} (hcond : RunLeaves I pre cond) (pred : String) :
    Finds I pre (do cond; boolean pred) :=
  .bind hcond fun _ => boolean_finds pred

variable (hM : ∀ ⦃L : List Signal⦄ ⦃w w' : Session⦄, Mark L w w' → I L w → I L w')

include hM

/-- A mark that needs no operand. -/
theorem keeps_mark {cmd : Command} (h : ∀ L w, Mark L w (w.emitted cmd)) :
    RunKeeps I (liftBuild (Draft.emit cmd)) :=
  keeps_lift fun L w hw => hM (h L w) hw

/-- A region is opened with an operand of the draft. -/
theorem makes_opening {β : Type} (depth : UInt32) (s : Signal) {rest : Run β}
    {made : β → List Signal} (hrest : RunMakes I made rest) :
    Triple (fun w => (s.kind = .bool ∧ s ∈ w.around) ∧ Holding I [] w) (do
      Draft.emit (.whenBegin (← Draft.operand s) depth)
      rest) (fun b => Holding I (made b)) (fun e w => e.ofUse ∧ Holding I [] w) := by
  have hread : ∀ L, Triple (fun w => (s.kind = .bool ∧ s ∈ L) ∧ I L w) (Draft.operand s)
      (fun pred w => w.Reads s pred ∧ (s.kind = .bool ∧ s ∈ L) ∧ I L w)
      (fun e w => e.ofUse ∧ I L w) :=
    fun L => (Draft.operand_reads s).relax fun e w h => ⟨h.1, h.2.2⟩
  have hopen : ∀ pred L, Triple (fun w => w.Reads s pred ∧ (s.kind = .bool ∧ s ∈ L) ∧ I L w)
      (Draft.emit (.whenBegin pred depth)) (fun _ => I L) (fun e w => e.ofUse ∧ I L w) :=
    fun pred L w hw => hM (.whenBegin s pred hw.1 hw.2.1.1 hw.2.1.2 depth) hw.2.2
  refine .bind (triple_lift (P := fun L w => (s.kind = .bool ∧ s ∈ L) ∧ I L w)
    (Q := fun pred L w => w.Reads s pred ∧ (s.kind = .bool ∧ s ∈ L) ∧ I L w) hread) fun pred => ?_
  exact .bind (triple_lift (P := fun L w => w.Reads s pred ∧ (s.kind = .bool ∧ s ∈ L) ∧ I L w)
    (Q := fun _ => I) (hopen pred)) fun _ => hrest

theorem keeps_clause (depth : UInt32) {cond : Run Signal} {body : Run Unit}
    (hcond : Finds I pre cond) (hbody : RunKeeps I body) :
    RunLeaves I pre (Draft.Chain.clause depth cond body) :=
  .bind hcond fun s => makes_opening hM depth s
    (.seq hbody fun _ => keeps_mark hM fun _ _ => .whenEnd depth)

theorem keeps_close (c : Draft.Chain) : RunKeeps I (liftBuild c.close) := by
  unfold Draft.Chain.close
  by_cases h : 1 < c.depth
  · rw [if_pos h]
    exact keeps_mark hM fun _ w => .otherwiseEnd _
  · rw [if_neg h]
    exact keeps_lift fun _ => .ret fun _ => id

omit hM in
theorem keeps_start {cond : Run Signal} {body : Run Unit}
    (hclause : RunLeaves I pre (Draft.Chain.clause 0 cond body)) :
    RunLeaves I pre (Draft.Chain.start cond body) := by
  unfold Draft.Chain.start
  exact .bind hclause fun _ => .ret fun _ => id

omit hM in
theorem keeps_elseWhen {mid : World → Prop} (c : Draft.Chain) {cond : Run Signal} {body : Run Unit}
    (hopen : Triple pre (liftBuild (Draft.emit (.altBegin c.depth))) (fun _ => mid)
      (fun e w => e.ofUse ∧ Holding I [] w))
    (hclause : RunLeaves I mid (Draft.Chain.clause c.depth cond body)) :
    RunLeaves I pre (c.elseWhen cond body) := by
  unfold Draft.Chain.elseWhen
  exact .bind hopen fun _ => .bind hclause fun _ => .ret fun _ => id

theorem keeps_otherwise {mid : World → Prop} (c : Draft.Chain) {body : Run Unit}
    (hopen : Triple pre (liftBuild (Draft.emit (.altBegin c.depth))) (fun _ => mid)
      (fun e w => e.ofUse ∧ Holding I [] w))
    (hbody : RunLeaves I mid body) : RunLeaves I pre (c.otherwise body) := by
  unfold Draft.Chain.otherwise
  exact .bind hopen fun _ => .bind hbody fun _ => keeps_mark hM fun _ w => .otherwiseEnd c.depth

omit hM in
/-- The steps of a chain, from its first clause on. -/
theorem makes_chain {cond : Run Signal} {body : Run Unit} {tail : Tail}
    (hclause : RunLeaves I pre (Draft.Chain.clause 0 cond body))
    (htail : ∀ c, RunKeeps I (runTail c tail)) :
    Triple pre (do
      let c ← Draft.Chain.start cond body
      note (.clause c.depth)
      runTail c tail
      answerOnly .nothing) (fun r => Holding I (answered r)) (fun e w => e.ofUse ∧ Holding I [] w) := by
  refine .bind (keeps_start hclause) fun c => .bind (keeps_note _) fun _ => ?_
  exact .bind (htail c) fun _ => makes_answerOnly (fun _ hw => hw) _

end Chains

/-! ## Whole runs -/

/-- How a run ends, and where. -/
abbrev Ending := EStateM.Result Stop World Unit

/-- Where a run ends. -/
def Ending.world : Ending → World
  | .ok _ w => w
  | .error _ w => w

/-- How a description comes out that means something: made to its end, or stopped by a failure. -/
inductive ComesTo (s : Script) (begun : World) : Outcome → Memory → Prop
  | finished {w : World} (run : s.run begun = .ok () w) :
      ComesTo s begun (w.outcome w.session.draft.finish) w.memory
  | stopped {f : Draft.Fault} {w : World} (run : s.run begun = .error (.fault f) w) :
      ComesTo s begun (w.outcome (.error (w.session.draft.abort f))) w.memory

theorem describe?_iff {s : Script} {m m' : Memory} {name : String}
    {settings : Settings.Elaboration} {o : Outcome} :
    s.describe? m name settings = some (o, m') ↔ s.ComesTo (m.world name settings) o m' := by
  constructor
  · intro h
    unfold describe? at h
    split at h
    · next w run =>
      obtain ⟨rfl, rfl⟩ := Prod.mk.inj (Option.some.inj h)
      exact .finished run
    · next f w run =>
      obtain ⟨rfl, rfl⟩ := Prod.mk.inj (Option.some.inj h)
      exact .stopped run
    · cases h
    · cases h
  · intro h
    unfold describe?
    cases h with
    | finished run => rw [run]
    | stopped run => rw [run]

section Runs

variable {I : List Signal → Session → Prop}

mutual

/-- **Runs go step by step.**  What every step and every mark keeps, every run keeps. -/
theorem keeps_run (hI : Stable I)
    (hM : ∀ ⦃L : List Signal⦄ ⦃w w' : Session⦄, Mark L w w' → I L w → I L w') :
    ∀ s : Script, RunKeeps I s.run
  | .done => .ret fun _ => id
  | .call step use rest =>
    .seq (keeps_perform hI step (makes_meaning hI use)) fun _ => keeps_run hI hM rest
  | .chain step cond pred body tail rest => by
    have hcond := condition_finds (keeps_run hI hM cond) pred
    have hclause := keeps_clause hM 0 hcond (keeps_run hI hM body)
    refine .seq (keeps_perform hI step ?_) fun _ => keeps_run hI hM rest
    exact makes_chain hclause fun c => keeps_runTail hI hM c tail
  | .branch next => .look_seq fun w => keeps_run hI hM (next w)

theorem keeps_runTail (hI : Stable I)
    (hM : ∀ ⦃L : List Signal⦄ ⦃w w' : Session⦄, Mark L w w' → I L w → I L w') :
    ∀ (c : Draft.Chain) (t : Tail), RunKeeps I (runTail c t)
  | c, .close => keeps_close hM c
  | c, .elseWhen cond pred body tail => by
    have hcond := condition_finds (keeps_run hI hM cond) pred
    have hopen := keeps_mark hM fun _ w => .altBegin c.depth
    have hclause := keeps_clause hM c.depth hcond (keeps_run hI hM body)
    refine .seq (keeps_elseWhen c hopen hclause) fun c' => ?_
    exact .seq (keeps_note _) fun _ => keeps_runTail hI hM c' tail
  | c, .otherwise body =>
    keeps_otherwise hM c (keeps_mark hM fun _ w => .altBegin c.depth) (keeps_run hI hM body)
  | c, .branch next => .look_seq fun w => keeps_runTail hI hM c (next w)

end

end Runs

end Circuitry.Script
