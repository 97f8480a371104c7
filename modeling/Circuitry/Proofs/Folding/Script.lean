/-
  Scripts side by side.

  A call gives the same answer in both runs, as far as an oblivious script can see, and makes the same
  value (`sim_meaning`).  A chain opens and closes the same regions.  So an oblivious script runs the
  same way in both, from beginning to end, over all failures that it passes over.

  There is one way for the second run to end earlier: it stops at a call that takes the last bit of a
  literal of open width (`CallAt.TakesLast`), where the first run goes on.  A run does not show its calls,
  so all this is said of traced runs (`TracedSim`), and read back for runs in the end (`ends_run`).
-/
import Circuitry.Proofs.Draft.Ranges
import Circuitry.Proofs.Folding.Bundle
import Circuitry.Proofs.Script.Operations
import Circuitry.Proofs.Script.Record

namespace Circuitry.Script

open Draft (Bundle Session BuildSim SameFault SameOrNone Anything)

/-- Two stops that differ in the role that a message names, if at all. -/
def SameStop (e e' : Stop) : Prop := e.veiled = e'.veiled

/-- The same variables with the same values in both runs. -/
def SameValues (l : Ledger) (vs vs' : List (String × Bundle)) : Prop :=
  List.Forall₂ (fun e e' => e'.1 = e.1 ∧ l.SameBundle e.2 e'.2) vs vs'

/-- Two runs that stand at the same point. -/
structure Twin (l : Ledger) (w w' : World) : Prop where
  session : Session.Twin l w.session w'.session
  values : SameValues l w.values w'.values
  log : w'.log.map Entry.veiled = w.log.map Entry.veiled

/-- Part of a run in both runs. -/
abbrev RunSim {α α' : Type} (l : Ledger) (act : Run α) (act' : Run α')
    (R : Ledger → α → α' → Prop) : Prop :=
  Sim Twin SameStop l act act' R

variable {l l' : Ledger}

theorem SameValues.mono {vs vs' : List (String × Bundle)} (h : SameValues l vs vs')
    (hle : l.Le l') : SameValues l' vs vs' :=
  List.Forall₂.imp (fun _ _ he => ⟨he.1, Ledger.SameBundle.mono he.2 hle⟩) h

/-- A variable has a value in both runs or in none. -/
theorem SameValues.lookup {vs vs' : List (String × Bundle)} (h : SameValues l vs vs')
    (name : String) : Option.Rel l.SameBundle (vs.lookup name) (vs'.lookup name) := by
  induction h with
  | nil => exact .none
  | @cons e e' vs vs' he _ ih =>
    obtain ⟨m, b⟩ := e
    obtain ⟨m', b'⟩ := e'
    obtain ⟨hm, hb⟩ : m' = m ∧ l.SameBundle b b' := he
    rw [List.lookup_cons, List.lookup_cons, hm]
    cases name == m with
    | true => exact .some hb
    | false => exact ih

/-- What part of a description does in both runs, as part of them. -/
theorem sim_lift {α α' : Type} {act : Draft.Build α} {act' : Draft.Build α'}
    {R : Ledger → α → α' → Prop} (h : BuildSim l act act' R) :
    RunSim l (liftBuild act) (liftBuild act') R := by
  intro w w' hw
  have hend := h _ _ hw.session
  unfold liftBuild
  generalize act w.session = r at hend ⊢
  generalize act' w'.session = r' at hend ⊢
  cases hend with
  | ok later twins related =>
    exact .ok later ⟨twins, hw.values.mono later, hw.log⟩ related
  | error later twins alike =>
    exact .error later ⟨twins, hw.values.mono later, hw.log⟩ (congrArg Stop.fault alike)

/-! ## Calls that only look -/

theorem sim_nonsense {α α' : Type} {R : Ledger → α → α' → Prop} :
    RunSim l (nonsense : Run α) (nonsense : Run α') R :=
  .raise rfl

theorem sim_bundle (name : String) : RunSim l (bundle name) (bundle name) Ledger.SameBundle := by
  unfold bundle
  refine .look_bind fun w w' hw => ?_
  have hlookup := hw.values.lookup name
  generalize w.values.lookup name = b at hlookup ⊢
  generalize w'.values.lookup name = b' at hlookup ⊢
  cases hlookup with
  | none => exact sim_nonsense
  | some hb => exact .ret hb

theorem sim_signal (name : String) : RunSim l (signal name) (signal name) Ledger.Same := by
  unfold signal
  refine .bind (sim_bundle name) fun l₁ _ b b' hb => ?_
  cases hb using Ledger.SameBundle.cases with
  | leaf hs => exact .ret hs
  | group _ => exact sim_nonsense

theorem sim_boolean (name : String) : RunSim l (boolean name) (boolean name) Ledger.Same := by
  unfold boolean
  refine .bind (sim_signal name) fun l₁ _ s s' hs => ?_
  rw [hs.kind]
  exact .ite Iff.rfl (fun _ => .ret hs) (fun _ => sim_nonsense)

theorem sim_numeric (name : String) : RunSim l (numeric name) (numeric name) Ledger.Same := by
  unfold numeric
  refine .bind (sim_signal name) fun l₁ _ s s' hs => ?_
  rw [hs.kind]
  exact .ite Iff.rfl (fun _ => .ret hs) (fun _ => sim_nonsense)

/-! ## Answers -/

/-- The same answer to what can be seen, and the same value. -/
structure SameAnswer (l : Ledger) (r r' : Answer × Option Bundle) : Prop where
  answer : r'.1.veiled = r.1.veiled
  value : Option.Rel l.SameBundle r.2 r'.2

/-- Under the veil a signal looks the same in both runs. -/
theorem veiled_portrait {w w' : Session} (hw : Session.Twin l w w') {s s' : Signal}
    (hs : l.Same s s') : (w'.signals.portrait s').veiled = (w.signals.portrait s).veiled := by
  have hstandings := hw.tied.standings hs
  have hkind := hs.kind
  have hwidth := hs.width
  unfold Signals.portrait Portrait.veiled
  generalize w.signals.standing s = x at hstandings ⊢
  generalize w'.signals.standing s' = x' at hstandings ⊢
  cases hstandings with
  | template entry => simp [hkind, hwidth]
  | literal v => simp [hkind, hwidth]
  | bound role of place => simp [hkind, hwidth, Standing.role, role]
  | gone place => simp [hkind, hwidth, Standing.role, Role.veiled]

theorem map_veiled_portrait {w w' : Session} (hw : Session.Twin l w w') {b b' : Bundle}
    (hb : l.SameBundle b b') : (b'.map w'.signals.portrait).map Portrait.veiled =
      (b.map w.signals.portrait).map Portrait.veiled := by
  rw [hb.eq, Shape.map_map, Shape.map_map, Shape.map_map]
  exact Shape.map_congr fun s hs => veiled_portrait hw ⟨hb.known s hs, rfl⟩

theorem sim_answerValue {b b' : Bundle} (hb : l.SameBundle b b') :
    RunSim l (answerValue b) (answerValue b') SameAnswer := by
  unfold answerValue portrait
  refine .bind (R := fun l' v v' => v'.map Portrait.veiled = v.map Portrait.veiled ∧ l.Le l')
    (.look_bind fun w w' hw => .ret ⟨map_veiled_portrait hw.session hb, .refl l⟩)
    fun l₁ h₁ v v' hv => .ret ⟨congrArg Answer.value hv.1, .some (hb.mono h₁)⟩

theorem sim_answerSignal {act act' : Draft.Build Signal} (h : BuildSim l act act' Ledger.Same) :
    RunSim l (answerSignal act) (answerSignal act') SameAnswer := by
  unfold answerSignal
  exact .bind (sim_lift h) fun _ _ _ _ hs => sim_answerValue hs.bundle

theorem sim_answerChecked {act act' : Draft.Checked Signal}
    (h : BuildSim l act.run act'.run SameOrNone) :
    RunSim l (answerChecked act) (answerChecked act') SameAnswer := by
  unfold answerChecked
  refine .bind (sim_lift h) fun _ _ made made' hmade => ?_
  cases hmade with
  | none => exact .raise rfl
  | some hs => exact sim_answerValue hs.bundle

theorem sim_answerOnly {a a' : Answer} (h : a'.veiled = a.veiled) :
    RunSim l (answerOnly a) (answerOnly a') SameAnswer :=
  .ret ⟨h, .none⟩

theorem sim_answerPart {p p' : Option Bundle} (h : Option.Rel l.SameBundle p p') :
    RunSim l (answerPart p) (answerPart p') SameAnswer := by
  cases h with
  | none => exact sim_answerOnly rfl
  | some hb => exact sim_answerValue hb

/-! ## Fields -/

theorem lookup_mapFields (f : Signal → Signal) (name : String) : ∀ fs : Shape.Fields Signal,
    (Shape.mapFields f fs).lookup name = (fs.lookup name).map (Shape.map f)
  | [] => rfl
  | (n, b) :: fs => by
    rw [Shape.mapFields_cons, List.lookup_cons, List.lookup_cons, lookup_mapFields f name fs]
    cases name == n <;> rfl

/-- A field is there in both runs or in none. -/
theorem lookup_fields {fs fs' : Shape.Fields Signal} (h : l.SameFields fs fs') (name : String) :
    Option.Rel l.SameBundle (fs.lookup name) (fs'.lookup name) := by
  rw [h.eq, lookup_mapFields]
  cases hb : fs.lookup name with
  | none => exact .none
  | some b =>
    exact .some ⟨fun s hs => h.known s (leaves_of_mem (mem_of_lookup hb) s hs), rfl⟩

theorem leaf_fields {fs fs' : Shape.Fields Signal} (h : l.SameFields fs fs') (index : Nat) :
    Option.Rel l.SameBundle ((Shape.fieldLeaves fs)[index]?.map Shape.leaf)
      ((Shape.fieldLeaves fs')[index]?.map Shape.leaf) := by
  rw [h.eq, Shape.fieldLeaves_mapFields, List.getElem?_map]
  cases hs : (Shape.fieldLeaves fs)[index]? with
  | none => exact .none
  | some s =>
    have hsame : l.Same s (l.twin s) := ⟨h.known s (List.mem_of_getElem? hs), rfl⟩
    exact .some hsame.bundle

/-- What is told of a field that is a ground value. -/
def ground (signals : Signals) : Option Bundle → Option Portrait
  | some (.leaf s) => some (signals.portrait s)
  | _ => none

theorem element_part (signals : Signals) (fs : Shape.Fields Signal) (name : String) (b : Bundle) :
    (part signals fs (name, b)).element = ground signals (fs.lookup name) := by
  unfold part ground
  dsimp only
  cases fs.lookup name with
  | none => rfl
  | some c => cases c <;> rfl

theorem veiled_ground {w w' : Session} (hw : Session.Twin l w w') {p p' : Option Bundle}
    (h : Option.Rel l.SameBundle p p') : (ground w'.signals p').map Portrait.veiled =
      (ground w.signals p).map Portrait.veiled := by
  cases h with
  | none => rfl
  | some hb =>
    cases hb using Ledger.SameBundle.cases with
    | leaf hs => exact congrArg some (veiled_portrait hw hs)
    | group _ => rfl

/-- Direct fields look the same in both runs. -/
theorem veiled_parts {w w' : Session} (hw : Session.Twin l w w') {fs fs' : Shape.Fields Signal}
    (h : l.SameFields fs fs') : (fs'.map (part w'.signals fs')).map Part.veiled =
      (fs.map (part w.signals fs)).map Part.veiled := by
  have hpart : ∀ e ∈ fs, (part w'.signals fs' (e.1, e.2.map l.twin)).veiled =
      (part w.signals fs e).veiled := by
    rintro ⟨name, b⟩ -
    have helement := veiled_ground hw (lookup_fields h name)
    rw [← element_part w'.signals fs' name (b.map l.twin), ← element_part w.signals fs name b]
      at helement
    unfold Part.veiled
    rw [helement]
    cases b with
    | leaf s => rfl
    | group gs => simp [part, Shape.mapFields_eq_map]
  have hfields : fs' = fs.map fun e => (e.1, e.2.map l.twin) := by
    rw [h.eq, Shape.mapFields_eq_map]
  calc (fs'.map (part w'.signals fs')).map Part.veiled
      = (fs.map fun e => (e.1, e.2.map l.twin)).map (fun e => (part w'.signals fs' e).veiled) := by
        rw [List.map_map, ← hfields]; rfl
    _ = fs.map fun e => (part w.signals fs e).veiled := by
        rw [List.map_map]; exact List.map_congr_left hpart
    _ = (fs.map (part w.signals fs)).map Part.veiled := by rw [List.map_map]; rfl

/-! ## Templates made on the way -/

mutual

/-- Values for all leaves, or for none, whatever happens to the signals. -/
theorem bind?_map (f : Signal → Signal) : ∀ s : Shape (Option Bundle),
    (s.map (Option.map (Shape.map f))).bind? id = (s.bind? id).map (Shape.map f)
  | .leaf _ => rfl
  | .group fs => by
    rw [Shape.map_group, Shape.bind?, Shape.bind?, bindFields?_map f fs]
    cases Shape.bindFields? id fs <;> rfl

theorem bindFields?_map (f : Signal → Signal) : ∀ fs : Shape.Fields (Option Bundle),
    Shape.bindFields? id (Shape.mapFields (Option.map (Shape.map f)) fs) =
      (Shape.bindFields? id fs).map (Shape.mapFields f)
  | [] => rfl
  | (n, s) :: fs => by
    rw [Shape.mapFields_cons, Shape.bindFields?, Shape.bindFields?, bind?_map f s,
      bindFields?_map f fs]
    cases s.bind? id <;> cases Shape.bindFields? id fs <;> rfl

end

/-- Templates are made for the same leaves in both runs. -/
theorem same_resolveLeaf {vs vs' : List (String × Bundle)} (hvs : SameValues l vs vs')
    (leaf : Leaf) {t t' : Signals} (ht : t'.next = t.next)
    (hentry : ∀ n, t.next ≤ n → l.folded n = none) :
    (resolveLeaf vs' t' leaf).1 = (resolveLeaf vs t leaf).1.map (Shape.map l.twin) ∧
      (resolveLeaf vs' t' leaf).2.next = (resolveLeaf vs t leaf).2.next ∧
      t.next ≤ (resolveLeaf vs t leaf).2.next ∧
      ∀ b, (resolveLeaf vs t leaf).1 = some b → ∀ s ∈ b.leaves,
        l.Knows s ∨ s.serial < (resolveLeaf vs t leaf).2.next ∧ l.folded s.serial = none := by
  cases leaf with
  | «variable» name =>
    have hlookup := hvs.lookup name
    refine ⟨?_, ht, Nat.le_refl _, fun b hb s hs => .inl ?_⟩
    · show vs'.lookup name = (vs.lookup name).map _
      generalize vs.lookup name = b at hlookup ⊢
      generalize vs'.lookup name = b' at hlookup ⊢
      cases hlookup with
      | none => rfl
      | some hb => exact congrArg some hb.eq
    · rw [show vs.lookup name = some b from hb] at hlookup
      generalize vs'.lookup name = b' at hlookup
      cases hlookup with
      | some hb => exact hb.known s hs
  -- the signal is new, so there is no entry for it
  | template kind width =>
    have hnone := hentry t.next (Nat.le_refl _)
    refine ⟨?_, congrArg (· + 1) ht, Nat.le_succ _, ?_⟩
    · show some (Shape.leaf (Signal.mk t'.next kind _ none)) = some (Shape.leaf (l.twin _))
      rw [Ledger.twin_of_folded hnone, ht]
    · rintro b ⟨⟩ s hs
      obtain rfl := List.mem_singleton.1 hs
      exact .inr ⟨Nat.lt_succ_self _, hnone⟩

/-- Some parts of a value are there already, and the rest has been made on the way. -/
def Made (l : Ledger) (next : Nat) (found : List (Option Bundle)) : Prop :=
  ∀ b, some b ∈ found → ∀ s ∈ b.leaves, l.Knows s ∨ s.serial < next ∧ l.folded s.serial = none

theorem Made.mono {next next' : Nat} {found : List (Option Bundle)} (h : Made l next found)
    (hle : next ≤ next') : Made l next' found := by
  intro b hb s hs
  rcases h b hb s hs with hknown | ⟨hlt, hentry⟩
  · exact .inl hknown
  · exact .inr ⟨Nat.lt_of_lt_of_le hlt hle, hentry⟩

mutual

theorem same_resolveShape {vs vs' : List (String × Bundle)} (hvs : SameValues l vs vs') :
    ∀ (s : Shape Leaf) {t t' : Signals}, t'.next = t.next →
      (∀ n, t.next ≤ n → l.folded n = none) →
      (s.mapAccum (resolveLeaf vs') t').1 =
        (s.mapAccum (resolveLeaf vs) t).1.map (Option.map (Shape.map l.twin)) ∧
      (s.mapAccum (resolveLeaf vs') t').2.next = (s.mapAccum (resolveLeaf vs) t).2.next ∧
      t.next ≤ (s.mapAccum (resolveLeaf vs) t).2.next ∧
      Made l (s.mapAccum (resolveLeaf vs) t).2.next (s.mapAccum (resolveLeaf vs) t).1.leaves
  | .leaf leaf, t, t', ht, hentry => by
    obtain ⟨hfound, hnext, hle, hmade⟩ := same_resolveLeaf hvs leaf ht hentry
    refine ⟨congrArg Shape.leaf hfound, hnext, hle, fun b hb => hmade b ?_⟩
    exact (List.mem_singleton.1 hb).symm
  | .group fs, t, t', ht, hentry => by
    obtain ⟨hfound, hrest⟩ := same_resolveFields hvs fs ht hentry
    exact ⟨congrArg Shape.group hfound, hrest⟩

theorem same_resolveFields {vs vs' : List (String × Bundle)} (hvs : SameValues l vs vs') :
    ∀ (fs : Shape.Fields Leaf) {t t' : Signals}, t'.next = t.next →
      (∀ n, t.next ≤ n → l.folded n = none) →
      (Shape.mapAccumFields (resolveLeaf vs') t' fs).1 =
        Shape.mapFields (Option.map (Shape.map l.twin))
          (Shape.mapAccumFields (resolveLeaf vs) t fs).1 ∧
      (Shape.mapAccumFields (resolveLeaf vs') t' fs).2.next =
        (Shape.mapAccumFields (resolveLeaf vs) t fs).2.next ∧
      t.next ≤ (Shape.mapAccumFields (resolveLeaf vs) t fs).2.next ∧
      Made l (Shape.mapAccumFields (resolveLeaf vs) t fs).2.next
        (Shape.fieldLeaves (Shape.mapAccumFields (resolveLeaf vs) t fs).1)
  | [], t, t', ht, _ => ⟨rfl, ht, Nat.le_refl _, nofun⟩
  | (n, s) :: fs, t, t', ht, hentry => by
    obtain ⟨hfound, hnext, hle, hmade⟩ := same_resolveShape hvs s ht hentry
    obtain ⟨hfounds, hnexts, hles, hmades⟩ := same_resolveFields hvs fs hnext
      fun m hm => hentry m (Nat.le_trans hle hm)
    simp only [Shape.mapAccumFields, Shape.mapFields_cons, Shape.fieldLeaves, hfound, hfounds]
    refine ⟨trivial, hnexts, Nat.le_trans hle hles, fun b hb => ?_⟩
    rcases List.mem_append.1 hb with hb | hb
    · exact (hmade.mono hles) b hb
    · exact hmades b hb

end

theorem sim_resolve (shape : Shape Leaf) :
    RunSim l (resolve shape) (resolve shape) Ledger.SameBundle := by
  intro w w' hw
  have htied := hw.session.tied
  obtain ⟨hfound, hnext, -, hmade⟩ := same_resolveShape hw.values shape
    (htied.next'.trans htied.next.symm) fun n hn => htied.fresh n (by rwa [← htied.next])
  obtain ⟨types, hn, -⟩ := resolve_shape w.values shape w.session.signals
  obtain ⟨types', hn', -⟩ := resolve_shape w'.values shape w'.session.signals
  generalize types.length = n at hn
  generalize types'.length = n' at hn'
  rw [run_resolve, run_resolve, hfound, bind?_map]
  rw [hn, hn'] at hnext
  rw [hn] at hmade
  simp only [htied.next, htied.next'] at hnext hmade
  obtain rfl : n' = n := by omega
  rw [hn, hn']
  cases hbind : (shape.mapAccum (resolveLeaf w.values) w.session.signals).1.bind? id with
  | none => exact .error (.refl l) hw rfl
  | some b =>
    have hle := Draft.Session.le_createdMany l n'
    refine .ok hle ⟨hw.session.createdMany n', hw.values.mono hle, hw.log⟩ ⟨fun s hs => ?_, rfl⟩
    obtain ⟨c, hc, hsc⟩ := mem_leaves_bind? hbind s hs
    rcases hmade c hc s hsc with hknown | ⟨hlt, hentry⟩
    · exact hknown.mono hle
    · exact (Ledger.Same.of_folded (l := { l with next := l.next + n' }) hlt hentry).known

/-! ## All calls -/

theorem sim_binary (op : Binary) {a a' b b' : Signal} (ha : l.Same a a') (hb : l.Same b b') :
    BuildSim l (op.build a b) (op.build a' b') Ledger.Same := by
  cases op with
  | addWide => exact Draft.sim_binary _ ha hb
  | subWide => exact Draft.sim_binary _ ha hb
  | add => exact Draft.sim_wrapping _ ha hb
  | sub => exact Draft.sim_wrapping _ ha hb
  | lt | leq | gt | geq | eq | neq => exact Draft.sim_compare _ ha hb
  | concat => exact Draft.sim_apply _ (.cons ha (.cons hb .nil)) .uint
  | shiftLeftBy => exact Draft.sim_shiftLeftBy ha hb
  | _ => exact Draft.sim_binary _ ha hb

theorem sim_unary (op : Unary) {a a' : Signal} (ha : l.Same a a') :
    BuildSim l (op.build a) (op.build a') Ledger.Same := by
  cases op with
  | asSInt => exact Draft.sim_apply _ (.cons ha .nil) .sint
  | asUInt => exact Draft.sim_apply _ (.cons ha .nil) .uint
  | asBool => exact Draft.sim_asBool ha
  | andReduce | orReduce | xorReduce => exact Draft.sim_apply _ (.cons ha .nil) .bool
  | _ => exact Draft.sim_unary _ ha

/-- The call takes bits of a signal. -/
def Call.selects : Call → Bool
  | .extract .. | .bit .. => true
  | _ => false

theorem sim_meaning {use : Call} (h : use.selects = false) :
    RunSim l (meaning use) (meaning use) SameAnswer := by
  cases use with
  | template kind width => exact sim_answerSignal (Draft.sim_create _ _ _)
  | «alias» a | look a => exact .bind (sim_bundle a) fun _ _ _ _ hb => sim_answerValue hb
  | aggregate fields =>
    refine .bind (sim_resolve fields) fun l₁ _ b b' hb => ?_
    cases hb using Ledger.SameBundle.cases with
    | leaf _ => exact sim_nonsense
    | group hfs => exact sim_answerValue hfs.bundle
  | fresh a =>
    refine .bind (sim_bundle a) fun l₁ _ b b' hb => ?_
    cases hb using Ledger.SameBundle.cases with
    | leaf _ => exact sim_nonsense
    | group hfs =>
      exact .bind (sim_lift (Draft.sim_fresh hfs.bundle)) fun _ _ _ _ hc => sim_answerValue hc
  | field a name =>
    refine .bind (sim_bundle a) fun l₁ _ b b' hb => ?_
    cases hb using Ledger.SameBundle.cases with
    | leaf _ => exact sim_nonsense
    | group hfs => exact sim_answerPart (lookup_fields hfs name)
  | leaf a index =>
    refine .bind (sim_bundle a) fun l₁ _ b b' hb => ?_
    cases hb using Ledger.SameBundle.cases with
    | leaf _ => exact sim_nonsense
    | group hfs => exact sim_answerPart (leaf_fields hfs index)
  | fields a =>
    refine .bind (sim_bundle a) fun l₁ _ b b' hb => ?_
    cases hb using Ledger.SameBundle.cases with
    | leaf _ => exact sim_nonsense
    | group hfs =>
      exact .look_bind fun w w' hw =>
        sim_answerOnly (congrArg Answer.parts (veiled_parts hw.session hfs))
  | debug a =>
    exact .bind (sim_signal a) fun _ _ _ _ _ => .look_bind fun _ _ _ => sim_answerOnly rfl
  | sameSignal a b =>
    refine .bind (sim_signal a) fun l₁ _ x x' hx => ?_
    refine .bind (sim_signal b) fun l₂ _ y y' hy => sim_answerOnly ?_
    rw [hx.eq, hy.eq]
    rfl
  | declare role name shape =>
    refine .bind (sim_resolve shape) fun l₁ _ b b' hb => ?_
    cases hb using Ledger.SameBundle.cases with
    | leaf hs =>
      exact .bind (sim_lift (Draft.sim_declare hs role name)) fun _ hle _ _ _ =>
        sim_answerValue (hs.mono hle).bundle
    | group hfs =>
      exact .bind (sim_lift (Draft.sim_declareFields role name hfs)) fun _ hle _ _ _ =>
        sim_answerValue (hfs.mono hle).bundle
  | literalUInt n width => exact sim_answerSignal (Draft.sim_literalUInt n width)
  | literalSInt i width => exact sim_answerSignal (Draft.sim_literalSInt i width)
  | literalBool b => exact sim_answerSignal (Draft.sim_create _ _ _)
  | literalText text => exact sim_answerSignal (Draft.sim_literalText text)
  | connect target source =>
    refine .bind (sim_bundle target) fun l₁ h₁ t t' ht => ?_
    refine .bind (sim_bundle source) fun l₂ h₂ s s' hs => ?_
    have ht₂ := ht.mono h₂
    cases ht₂ using Ledger.SameBundle.cases with
    | leaf ha =>
      cases hs using Ledger.SameBundle.cases with
      | leaf hb =>
        exact .bind (sim_lift (Draft.sim_connect ha hb)) fun _ _ _ _ _ => sim_answerOnly rfl
      | group _ => exact .bind (sim_nonsense (R := Anything)) fun _ _ _ _ _ => sim_answerOnly rfl
    | group hfs =>
      cases hs using Ledger.SameBundle.cases with
      | leaf _ => exact .bind (sim_nonsense (R := Anything)) fun _ _ _ _ _ => sim_answerOnly rfl
      | group hgs =>
        exact .bind (sim_lift (Draft.sim_connectFields hfs hgs)) fun _ _ _ _ _ => sim_answerOnly rfl
  | mux cond t f =>
    refine .bind (sim_boolean cond) fun l₁ h₁ c c' hc => ?_
    refine .bind (sim_bundle t) fun l₂ h₂ t t' ht => ?_
    refine .bind (sim_bundle f) fun l₃ h₃ f f' hf => ?_
    have hc₃ := hc.mono (h₂.trans h₃)
    have ht₃ := ht.mono h₃
    cases ht₃ using Ledger.SameBundle.cases with
    | leaf ha =>
      cases hf using Ledger.SameBundle.cases with
      | leaf hb => exact sim_answerSignal (Draft.sim_mux hc₃ ha hb)
      | group _ => exact sim_nonsense
    | group hfs =>
      cases hf using Ledger.SameBundle.cases with
      | leaf _ => exact sim_nonsense
      | group hgs =>
        exact .bind (sim_lift (Draft.sim_muxFields hc₃ hfs hgs)) fun _ _ _ _ hs =>
          sim_answerValue hs.bundle
  | muxBundle cond t f =>
    refine .bind (sim_boolean cond) fun l₁ h₁ c c' hc => ?_
    refine .bind (sim_bundle t) fun l₂ h₂ t t' ht => ?_
    refine .bind (sim_bundle f) fun l₃ h₃ f f' hf => ?_
    have hmux := Draft.sim_muxBundle (hc.mono (h₂.trans h₃)) (ht.mono h₃) hf
    exact .bind (sim_lift hmux) fun _ _ _ _ hs => sim_answerValue hs
  | binary op a b =>
    refine .bind (sim_signal a) fun l₁ _ x x' hx => ?_
    refine .bind (sim_signal b) fun l₂ h₂ y y' hy => ?_
    rw [hx.kind, hy.kind]
    exact .ite Iff.rfl (fun _ => sim_answerSignal (sim_binary op (hx.mono h₂) hy))
      (fun _ => sim_nonsense)
  | unary op a =>
    refine .bind (sim_signal a) fun l₁ _ x x' hx => ?_
    rw [hx.kind]
    exact .ite Iff.rfl (fun _ => sim_answerSignal (sim_unary op hx)) (fun _ => sim_nonsense)
  | extract a hi lo => cases h
  | bit a index => cases h
  | hasCode code =>
    refine .look_bind fun w w' hw => sim_answerOnly ?_
    rw [hw.session.tied.sink]
  | drain =>
    intro w w' hw
    have hheld : w'.session.draft.sink.drain.1 = w.session.draft.sink.drain.1 := by
      rw [hw.session.tied.sink]
    refine .ok (.refl l) ⟨hw.session.drained, hw.values, hw.log⟩ ⟨?_, .none⟩
    exact congrArg Answer.reports hheld
  | name => exact .look_bind fun w w' hw => sim_answerOnly rfl

/-! ## Where only the second run stops -/

/-- The call takes the last bit of a literal of open width, and not all the bits below it as well. -/
def CallAt.TakesLast (c : CallAt) : Prop :=
  ∃ a s, c.world.values.lookup a = some (.leaf s) ∧ s.OpenLiteral ∧
    (c.use = .bit a (2 ^ 32 - 1) ∨
      ∃ lo : Int, 0 < lo ∧ lo < 2 ^ 32 ∧ c.use = .extract a (2 ^ 32 - 1) lo)

/-- The action stops, and has made such a call. -/
structure Traced.StopsLast {α : Type} (x : Traced α) (w : World) : Prop where
  stop : ∃ w', x.act w = .error .overflow w'
  call : ∃ c ∈ x.calls w, c.TakesLast

/-- Part of a run with its calls, in both runs: it ends alike, or the second run stops at such a call. -/
def TracedSim {α α' : Type} (l : Ledger) (x : Traced α) (x' : Traced α')
    (R : Ledger → α → α' → Prop) : Prop :=
  ∀ w w', Twin l w w' → Ends Twin SameStop l R (x.act w) (x'.act w') ∨ x'.StopsLast w'

namespace TracedSim

variable {α α' β β' : Type} {x : Traced α} {x' : Traced α'} {R : Ledger → α → α' → Prop}
  {Q : Ledger → β → β' → Prop}

/-- What cannot stop in the second run alone. -/
theorem of_sim (h : RunSim l x.act x'.act R) : TracedSim l x x' R :=
  fun w w' hw => .inl (h w w' hw)

theorem bind {f : α → Traced β} {f' : α' → Traced β'} (hx : TracedSim l x x' R)
    (hf : ∀ l', l.Le l' → ∀ a a', R l' a a' → TracedSim l' (f a) (f' a') Q) :
    TracedSim l (x >>= f) (x' >>= f') Q := by
  intro w w' hw
  show Ends Twin SameStop l Q ((x.act >>= fun a => (f a).act) w)
    ((x'.act >>= fun a => (f' a).act) w') ∨ _
  rcases hx w w' hw with hmid | ⟨⟨v', hstop⟩, c, hc, hlast⟩
  · obtain ⟨l₁, a, a', v, v', hact, hact', later, twins, related⟩ |
      ⟨l₁, e, e', v, v', hact, hact', later, twins, alike⟩ := hmid.eq_ok_or_error
    · rw [bind_of_ok hact, bind_of_ok hact']
      rcases hf l₁ later a a' related v v' twins with hend | ⟨⟨u', hstop⟩, c, hc, hlast⟩
      · exact .inl (hend.since later)
      · refine .inr ⟨⟨u', (bind_of_ok hact').trans hstop⟩, c, ?_, hlast⟩
        rw [Traced.calls_bind_of_ok hact']
        exact List.mem_append_right _ hc
    · rw [bind_of_error hact, bind_of_error hact']
      exact .inl (.error later twins alike)
  · refine .inr ⟨⟨v', bind_of_error hstop⟩, c, ?_, hlast⟩
    rw [Traced.calls_bind_of_error hstop]
    exact hc

/-- Two actions that go on from what they look at. -/
theorem look_bind {f : World → Traced β} {f' : World → Traced β'}
    (h : ∀ w w', Twin l w w' → TracedSim l (f w) (f' w') Q) :
    TracedSim l (liftM (get : Run World) >>= f) (liftM (get : Run World) >>= f') Q := by
  intro w w' hw
  rcases h w w' hw w w' hw with hend | ⟨hstop, hcall⟩
  · exact .inl hend
  · exact .inr ⟨hstop, hcall⟩

end TracedSim

/-- An operation on the number that a variable holds stops in the second run alone only if the call takes
    the last bit of a literal of open width. -/
theorem sim_numericCall {use : Call} {a : String} {op : Signal → Draft.Checked Signal}
    (hmeaning : meaning use = do answerChecked (op (← numeric a)))
    (hop : ∀ l x x' w', Ledger.Same l x x' → w'.values.lookup a = some (.leaf x') →
      w'.session.draft.settings.foldLiterals = true →
      BuildSim l (op x).run (op x').run SameOrNone ∨
        ((op x').run w'.session = .ok none w'.session ∧ CallAt.TakesLast ⟨w', use⟩)) :
    TracedSim l (.call use) (.call use) SameAnswer := by
  intro w w' hw
  show Ends Twin SameStop l SameAnswer (meaning use w) (meaning use w') ∨ _
  rw [hmeaning]
  obtain ⟨l₁, x, x', v, v', hx, hx', later, twins, same⟩ |
    ⟨l₁, e, e', v, v', hx, hx', later, twins, alike⟩ := (sim_numeric a w w' hw).eq_ok_or_error
  · obtain ⟨hlookup, rfl⟩ := (numeric_looksUp a).of_ok rfl hx'
    rw [bind_of_ok hx, bind_of_ok hx']
    rcases hop l₁ x x' v' same hlookup twins.session.tied.on with hsim | ⟨hstop, hlast⟩
    · exact .inl ((sim_answerChecked hsim _ _ twins).since later)
    · refine .inr ⟨⟨v', ?_⟩, _, List.mem_singleton_self _, hlast⟩
      show meaning use v' = _
      have hlift : liftBuild (op x').run v' = .ok none v' := by
        unfold liftBuild
        rw [hstop]
      rw [hmeaning, bind_of_ok hx', answerChecked]
      exact bind_of_ok hlift
  · rw [bind_of_error hx, bind_of_error hx']
    exact .inl (.error later twins alike)

theorem sim_call (use : Call) : TracedSim l (.call use) (.call use) SameAnswer := by
  cases hselects : use.selects with
  | false => exact .of_sim (sim_meaning hselects)
  | true =>
    cases use with
    | extract a hi lo =>
      refine sim_numericCall rfl fun l x x' w' same hlookup hon => ?_
      by_cases hlast : hi = 2 ^ 32 - 1 ∧ 0 < lo ∧ lo ≤ hi ∧ x'.OpenLiteral
      · obtain ⟨rfl, hpositive, hle, hliteral, hopen⟩ := hlast
        obtain ⟨v, hv⟩ := Option.ne_none_iff_exists'.1 hliteral
        refine .inr ⟨(Draft.rangeEnds_extract _ _ _ _).stops.2 ⟨⟨⟨_, .literal hv⟩, hopen, rfl,
          Int.le_of_lt hpositive, hle, .inr ⟨hon, hliteral⟩⟩, rfl⟩, ?_⟩
        exact ⟨a, x', hlookup, ⟨hliteral, hopen⟩, .inr ⟨lo, hpositive, by omega, rfl⟩⟩
      · refine .inl (Draft.sim_extract same hi lo fun heq hpositive hle hopen => ?_)
        exact hlast ⟨heq, hpositive, hle, hopen⟩
    | bit a index =>
      refine sim_numericCall rfl fun l x x' w' same hlookup hon => ?_
      by_cases hlast : index = 2 ^ 32 - 1 ∧ x'.OpenLiteral
      · obtain ⟨rfl, hliteral, hopen⟩ := hlast
        obtain ⟨v, hv⟩ := Option.ne_none_iff_exists'.1 hliteral
        refine .inr ⟨(Draft.rangeEnds_bit _ _ _).stops.2 ⟨⟨⟨_, .literal hv⟩, hopen, rfl, by omega,
          Int.le_refl _, .inr ⟨hon, hliteral⟩⟩, rfl⟩, ?_⟩
        exact ⟨a, x', hlookup, ⟨hliteral, hopen⟩, .inl rfl⟩
      · exact .inl (Draft.sim_bit same index fun heq hopen => hlast ⟨heq, hopen⟩)
    | _ => cases hselects

/-! ## Steps and chains -/

theorem Twin.noted {w w' : World} (hw : Twin l w w') {e e' : Entry} (he : e'.veiled = e.veiled) :
    Twin l { w with log := e :: w.log } { w' with log := e' :: w'.log } := by
  refine ⟨hw.session, hw.values, ?_⟩
  show (e' :: w'.log).map Entry.veiled = (e :: w.log).map Entry.veiled
  rw [List.map_cons, List.map_cons, he, hw.log]

theorem Twin.kept {w w' : World} (hw : Twin l w w') (name : Option String) {b b' : Option Bundle}
    (hb : Option.Rel l.SameBundle b b') : Twin l (w.keep name b) (w'.keep name b') := by
  cases hb with
  | none => cases name <;> exact hw
  | some hb =>
    cases name with
    | none => exact hw
    | some n => exact ⟨hw.session, .cons ⟨rfl, hb⟩ hw.values, hw.log⟩

theorem veiled_entry {w w' : World} (hw : Twin l w w') (label : String)
    {outcome outcome' : Except Draft.Fault Answer}
    (h : outcomeVeiled outcome' = outcomeVeiled outcome) :
    (w'.entry label outcome').veiled = (w.entry label outcome).veiled := by
  show Entry.step label 0 w'.session.draft.sink.errorCount (outcomeVeiled outcome') =
    .step label 0 w.session.draft.sink.errorCount (outcomeVeiled outcome)
  rw [hw.session.tied.sink, h]

theorem ends_perform (step : Step) {act act' : Run (Answer × Option Bundle)} {w w' : World}
    (h : Ends Twin SameStop l SameAnswer (act w) (act' w')) :
    Ends Twin SameStop l Anything (step.perform act w) (step.perform act' w') := by
  unfold Step.perform
  generalize act w = r at h ⊢
  generalize act' w' = r' at h ⊢
  cases h with
  | @ok l₁ r r' v v' later twins related =>
    have houtcome : outcomeVeiled (.ok r'.1) = outcomeVeiled (.ok r.1) :=
      congrArg Except.ok related.answer
    have hentry := veiled_entry twins step.label houtcome
    have hkept := twins.kept step.bindAs related.value
    exact .ok later ⟨hkept.session, hkept.values, (twins.noted hentry).log⟩ trivial
  | @error l₁ e e' v v' later twins alike =>
    cases e with
    | nonsense =>
      cases e' with
      | nonsense => exact .error later twins rfl
      | fault _ | overflow => cases alike
    | overflow =>
      cases e' with
      | overflow => exact .error later twins rfl
      | fault _ | nonsense => cases alike
    | fault f =>
      cases e' with
      | nonsense | overflow => cases alike
      | fault f' =>
        have hfault : f.veiled = f'.veiled := Stop.fault.inj alike
        have houtcome : outcomeVeiled (.error f') = outcomeVeiled (.error f) :=
          congrArg Except.error hfault.symm
        have hentry := veiled_entry twins step.label houtcome
        dsimp only
        -- a failure that was merely attempted is logged, and the run goes on
        cases step.attempt with
        | true => exact .ok later (twins.noted hentry) trivial
        | false => exact .error later (twins.noted hentry) alike

theorem sim_perform (step : Step) {x x' : Traced (Answer × Option Bundle)}
    (h : TracedSim l x x' SameAnswer) :
    TracedSim l (.perform step x) (.perform step x') Anything := by
  intro w w' hw
  rcases h w w' hw with hend | ⟨⟨v', hstop⟩, hcall⟩
  · exact .inl (ends_perform step hend)
  · refine .inr ⟨⟨v', ?_⟩, hcall⟩
    show step.perform x'.act w' = _
    unfold Step.perform
    rw [hstop]

theorem sim_note (e : Entry) : RunSim l (note e) (note e) Anything :=
  fun _ _ hw => .ok (.refl l) (hw.noted rfl) trivial

/-- A condition: what its script does, and the variable that holds it. -/
theorem sim_condition {cond : Traced Unit} (hcond : TracedSim l cond cond Anything) (pred : String) :
    TracedSim l (do cond; boolean pred) (do cond; boolean pred) Ledger.Same :=
  .bind hcond fun _ _ _ _ _ => .of_sim (sim_boolean pred)

/-- A mark of a region. -/
theorem sim_emit {cmd cmd' : Command} (hcmd : l.Fits →
    (∀ id ∈ cmd.ids, id.index.toNat < l.images.length) ∧ cmd.image l.images = some cmd') :
    RunSim l (liftBuild (Draft.emit cmd)) (liftBuild (Draft.emit cmd')) Anything :=
  sim_lift fun _ _ hw => .ok (.refl l) (hw.emitted hcmd) trivial

/-- A mark that reads nothing is written as it is. -/
theorem sim_mark {cmd : Command} (hids : cmd.ids = []) (himage : cmd.image l.images = some cmd) :
    TracedSim l (liftM (Draft.emit cmd) : Traced Unit) (liftM (Draft.emit cmd) : Traced Unit)
      Anything :=
  .of_sim (sim_emit fun _ => ⟨by simp [hids], himage⟩)

section Chains

variable {cond : Traced Signal} {body : Traced Unit} (hcond : TracedSim l cond cond Ledger.Same)
  (hbody : ∀ l, TracedSim l body body Anything)

include hcond hbody

theorem sim_clause (depth : UInt32) : TracedSim l (Draft.Chain.clause depth cond body)
    (Draft.Chain.clause depth cond body) Anything := by
  unfold Draft.Chain.clause
  refine .bind hcond fun l₁ _ s s' hs => ?_
  refine .bind (.of_sim (sim_lift (Draft.sim_operand hs))) fun l₂ _ p p' hp => ?_
  refine .bind (.of_sim (sim_emit fun hfits => ?_)) fun l₃ _ _ _ _ => ?_
  · obtain ⟨hthere, himage⟩ := hp hfits
    exact ⟨hthere, by rw [Command.image, himage]⟩
  · exact .bind (hbody l₃) fun _ _ _ _ _ => sim_mark rfl rfl

theorem sim_start : TracedSim l (Draft.Chain.start cond body) (Draft.Chain.start cond body)
    fun _ c c' => c' = c := by
  unfold Draft.Chain.start
  exact .bind (sim_clause hcond hbody 0) fun _ _ _ _ _ => .of_sim (.ret rfl)

end Chains

theorem sim_elseWhen (c : Draft.Chain) {cond : Traced Signal} {body : Traced Unit}
    (hcond : ∀ l, TracedSim l cond cond Ledger.Same) (hbody : ∀ l, TracedSim l body body Anything) :
    TracedSim l (c.elseWhen cond body) (c.elseWhen cond body) fun _ c c' => c' = c := by
  unfold Draft.Chain.elseWhen
  refine .bind (sim_mark rfl rfl) fun l₁ _ _ _ _ => ?_
  exact .bind (sim_clause (hcond l₁) hbody c.depth) fun _ _ _ _ _ => .of_sim (.ret rfl)

theorem sim_otherwise (c : Draft.Chain) {body : Traced Unit}
    (hbody : ∀ l, TracedSim l body body Anything) :
    TracedSim l (c.otherwise body) (c.otherwise body) Anything := by
  unfold Draft.Chain.otherwise
  refine .bind (sim_mark rfl rfl) fun l₁ _ _ _ _ => ?_
  exact .bind (hbody l₁) fun _ _ _ _ _ => sim_mark rfl rfl

theorem sim_close (c : Draft.Chain) : RunSim l (liftBuild c.close) (liftBuild c.close) Anything := by
  unfold Draft.Chain.close
  by_cases h : 1 < c.depth
  · rw [if_pos h]
    exact sim_emit fun _ => ⟨nofun, rfl⟩
  · rw [if_neg h]
    exact sim_lift (.ret trivial)

/-! ## Whole runs -/

/-- What can be seen is the same in both runs. -/
theorem Twin.view_eq {w w' : World} (hw : Twin l w w') : w'.view = w.view := by
  have htied := hw.session.tied
  have hvalues : w'.values.map (fun e => (e.1, e.2.map (sight w'.session.signals))) =
      w.values.map fun e => (e.1, e.2.map (sight w.session.signals)) := by
    have hall := hw.values
    generalize w.values = vs at hall ⊢
    generalize w'.values = vs' at hall ⊢
    induction hall with
    | nil => rfl
    | @cons e e' vs vs' he _ ih =>
      obtain ⟨hname, hb⟩ := he
      have hsight : e'.2.map (sight w'.session.signals) = e.2.map (sight w.session.signals) := by
        rw [hb.eq, Shape.map_map]
        exact Shape.map_congr fun s hs =>
          Prod.ext rfl (veiled_portrait hw.session ⟨hb.known s hs, rfl⟩)
      rw [List.map_cons, List.map_cons, ih, hname, hsight]
  unfold World.view
  rw [hvalues, hw.log, htied.context, htied.name, htied.errorLimit, htied.shiftLimit, htied.sink]

mutual

/-- **Oblivious scripts run the same way** with and without folding, with their calls. -/
theorem sim_traced : ∀ (s : Script), s.Oblivious → ∀ l, TracedSim l s.traced s.traced Anything
  | .done, _, _ => .of_sim (.ret trivial)
  | .call step use rest, h, l =>
    .bind (sim_perform step (sim_call use)) fun l₁ _ _ _ _ => sim_traced rest h l₁
  | .chain step cond pred body tail rest, h, l => by
    obtain ⟨hcond, hbody, htail, hrest⟩ := h
    refine .bind (sim_perform step ?_) fun l₁ _ _ _ _ => sim_traced rest hrest l₁
    refine .bind (sim_start (sim_condition (sim_traced cond hcond l) pred) (sim_traced body hbody))
      fun l₁ _ c c' hc => ?_
    rw [hc]
    refine .bind (.of_sim (sim_note _)) fun l₂ _ _ _ _ => ?_
    exact .bind (sim_tracedTail c tail htail l₂) fun _ _ _ _ _ => .of_sim (sim_answerOnly rfl)
  | .branch next, h, l => by
    refine .look_bind fun w w' hw => ?_
    -- the script branches on what it sees, which is the same in both runs
    rw [h.1 w' w hw.view_eq]
    exact sim_traced (next w) (h.2 w) l

theorem sim_tracedTail : ∀ (c : Draft.Chain) (t : Tail), t.Oblivious →
    ∀ l, TracedSim l (tracedTail c t) (tracedTail c t) Anything
  | c, .close, _, _ => .of_sim (sim_close c)
  | c, .elseWhen cond pred body tail, h, l => by
    obtain ⟨hcond, hbody, htail⟩ := h
    refine .bind (sim_elseWhen c (fun l => sim_condition (sim_traced cond hcond l) pred)
      (sim_traced body hbody)) fun l₁ _ d d' hd => ?_
    rw [hd]
    exact .bind (.of_sim (sim_note _)) fun l₂ _ _ _ _ => sim_tracedTail d tail htail l₂
  | c, .otherwise body, h, _ => sim_otherwise c (sim_traced body h)
  | c, .branch next, h, l => by
    refine .look_bind fun w w' hw => ?_
    rw [h.1 w' w hw.view_eq]
    exact sim_tracedTail c (next w) (h.2 w) l

end

/-- The runs themselves. -/
theorem ends_run {s : Script} (hs : s.Oblivious) {w w' : World} (hw : Twin l w w') :
    Ends Twin SameStop l Anything (s.run w) (s.run w') ∨
      (∃ v, s.run w' = .error .overflow v) ∧ ∃ c ∈ s.calls w', c.TakesLast := by
  rw [← act_traced s]
  rcases sim_traced s hs l w w' hw with hend | ⟨hstop, hcall⟩
  · exact .inl hend
  · exact .inr ⟨hstop, hcall⟩

end Circuitry.Script
