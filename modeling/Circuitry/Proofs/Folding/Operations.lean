/-
  Operations side by side.

  Every operation does the same in both runs: on signals that are the same it fails in both or in none,
  with the same fault but for the role that a message may name, and what it makes is the same again.
  The one operation that does different things is `selectBits`, which is where the ledger gets its
  entries (`sim_selectBits`).  It stops in the second run alone if a literal of open width would have to
  reach the last index, so `sim_extract` and `sim_bit` are about all other indices.

  The lemmas stand in the order of the definitions.
-/
import Circuitry.Proofs.Folding.Literal
import Circuitry.Proofs.Folding.Twin
import Circuitry.Proofs.Folding.Veil
import Circuitry.Proofs.Triple

namespace Circuitry.Draft

open Session (Twin Standings)

/-- Two faults that differ in the role that they name, if at all. -/
def SameFault (f f' : Fault) : Prop := f.veiled = f'.veiled

/-- An action of a description in both runs. -/
abbrev BuildSim {α α' : Type} (l : Ledger) (act : Build α) (act' : Build α')
    (R : Ledger → α → α' → Prop) : Prop :=
  Sim Twin SameFault l act act' R

/-- Nothing is said of results. -/
abbrev Anything {α α' : Type} : Ledger → α → α' → Prop := fun _ _ _ => True

variable {l : Ledger} {s s' a a' b b' : Signal} {ss ss' : List Signal}

/-! ## Looking -/

theorem sim_operand (hs : l.Same s s') : BuildSim l (operand s) (operand s') Ledger.SameOperand := by
  unfold operand
  refine .look_bind fun w w' hw => ?_
  have hstandings := hw.tied.standings hs
  obtain ⟨-, rfl⟩ := hs
  dsimp only
  generalize w.signals.standing s = x at hstandings ⊢
  generalize w'.signals.standing (l.twin s) = x' at hstandings ⊢
  cases hstandings with
  | template entry => exact .raise rfl
  | literal v => exact .ret fun _ => ⟨nofun, rfl⟩
  | @bound b b' role of place =>
    have hcontext : b.context = w.draft.context ↔ b'.context = w'.draft.context := by
      rw [of, hw.tied.context]
    refine .ite hcontext (fun hc => .ret fun hfits => ?_) (fun _ => .raise rfl)
    have hplace := place hc hfits
    refine ⟨fun id hid => ?_, ?_⟩
    · obtain rfl := List.mem_singleton.1 hid
      exact (List.getElem?_eq_some_iff.1 hplace).1
    · rw [Operand.image, List.getD_eq_getElem?_getD, hplace]
      rfl
  | @gone id v place =>
    dsimp only
    rw [if_pos rfl]
    refine .ret fun hfits => ⟨fun i hid => ?_, ?_⟩
    · obtain rfl := List.mem_singleton.1 hid
      exact (List.getElem?_eq_some_iff.1 (place hfits)).1
    · rw [Operand.image, List.getD_eq_getElem?_getD, place hfits]
      rfl

theorem sim_operands : ∀ {ss ss' : List Signal} {l : Ledger}, l.AllSame ss ss' →
    BuildSim l (operands ss) (operands ss') Ledger.SameOperands
  | [], _, l, .nil => .ret .nil
  | s :: ss, _, l, .cons hs hss => by
    refine .bind (sim_operand hs) fun l₁ h₁ a a' ha => ?_
    refine .bind (sim_operands (Ledger.AllSame.mono hss h₁)) fun l₂ h₂ as as' has => ?_
    exact .ret (.cons (ha.mono h₂) has)

theorem sim_checkOperands (h : l.AllSame ss ss') :
    BuildSim l (checkOperands ss) (checkOperands ss') Anything :=
  .bind (sim_operands h) fun _ _ _ _ _ => .ret trivial

theorem sim_assignable (hs : l.Same s s') : BuildSim l (assignable s) (assignable s')
    fun l' id id' => l'.Fits → l'.images[id.index.toNat]? = some (.node id') := by
  unfold assignable
  refine .look_bind fun w w' hw => ?_
  have hstandings := hw.tied.standings hs
  obtain ⟨-, rfl⟩ := hs
  dsimp only
  generalize w.signals.standing s = x at hstandings ⊢
  generalize w'.signals.standing (l.twin s) = x' at hstandings ⊢
  cases hstandings with
  | template entry => exact .raise rfl
  | literal v => exact .raise rfl
  | @bound b b' role of place =>
    have hcontext : b.context ≠ w.draft.context ↔ b'.context ≠ w'.draft.context := by
      rw [of, hw.tied.context]
    refine .ite hcontext (fun _ => .raise rfl) fun hc => ?_
    rw [role]
    exact .ite Iff.rfl (fun _ => .ret (place (Decidable.not_not.1 hc))) (fun _ => .raise rfl)
  | gone place =>
    dsimp only
    rw [if_neg (not_not_intro rfl)]
    exact .raise rfl

/-- A template has no entry, so it is the same in both runs. -/
theorem sim_checkTemplate (hs : l.Same s s') (requested : Role) :
    BuildSim l (checkTemplate s requested) (checkTemplate s' requested)
      fun l' _ _ => l'.folded s.serial = none := by
  unfold checkTemplate
  refine .look_bind fun w w' hw => ?_
  have hstandings := hw.tied.standings hs
  generalize w.signals.standing s = x at hstandings ⊢
  generalize w'.signals.standing s' = x' at hstandings ⊢
  cases hstandings with
  | template entry => exact .ret entry
  | literal v => exact .raise rfl
  | @bound b b' role of place =>
    dsimp only [Standing.role]
    rw [role]
    exact .raise rfl
  | gone place => exact .raise rfl

/-! ## Signals and reports -/

theorem sim_create (kind : Kind) (width : Width) (literal : Option Bits) :
    BuildSim l (create kind width literal) (create kind width literal) Ledger.Same := by
  intro w w' hw
  have hsame : (create kind width literal w' : EStateM.Result Fault Session Signal) =
      .ok ⟨w.signals.next, kind, Signals.groundWidth kind width, literal⟩ w'.created := by
    rw [hw.tied.next, ← hw.tied.next']
    rfl
  rw [hsame]
  refine .ok (Session.le_createdMany l 1) (hw.createdMany 1) (.of_folded ?_ ?_)
  · exact Nat.lt_succ_of_le (Nat.le_of_eq hw.tied.next)
  · exact hw.tied.fresh _ (Nat.le_of_eq hw.tied.next.symm)

theorem sim_report (f : Fault) : BuildSim l (report f) (report f) Anything := by
  unfold report
  refine .bind (R := Anything) (fun w w' hw => .ok (.refl l) (hw.reported f) trivial) fun l' _ _ _ _ => ?_
  refine .look_bind fun w w' hw => ?_
  dsimp only
  rw [hw.tied.errorLimit, hw.tied.sink]
  exact .ite Iff.rfl (fun _ => .raise rfl) (fun _ => .ret trivial)

theorem sim_zero (kind : Kind) (width : Width) :
    BuildSim l (zero kind width) (zero kind width) Ledger.Same :=
  sim_create kind width _

theorem sim_literalUInt (n : Nat) (width : Width) :
    BuildSim l (literalUInt n width) (literalUInt n width) Ledger.Same := by
  unfold literalUInt
  dsimp only
  split
  · refine .ite Iff.rfl (fun _ => ?_) (fun _ => sim_create _ _ _)
    exact .bind (sim_report _) fun _ _ _ _ _ => sim_create _ _ _
  · exact sim_create _ _ _

theorem sim_literalSInt (i : Int) (width : Width) :
    BuildSim l (literalSInt i width) (literalSInt i width) Ledger.Same := by
  unfold literalSInt
  dsimp only
  split
  · refine .ite Iff.rfl (fun _ => ?_) (fun _ => sim_create _ _ _)
    exact .bind (sim_report _) fun _ _ _ _ _ => sim_create _ _ _
  · exact sim_create _ _ _

theorem sim_reportAll : ∀ {fs : List Fault} {l : Ledger},
    BuildSim l (reportAll fs) (reportAll fs) Anything
  | [], _ => .ret trivial
  | f :: _, _ => .bind (sim_report f) fun _ _ _ _ _ => sim_reportAll

theorem sim_literalText (text : String) :
    BuildSim l (literalText text) (literalText text) Ledger.Same := by
  unfold literalText
  exact .bind sim_reportAll fun _ _ _ _ _ => sim_create _ _ _

/-! ## Declarations and connections -/

theorem sim_declare (hs : l.Same s s') (r : Declared) (name : String) :
    BuildSim l (declare r name s) (declare r name s') Anything := by
  unfold declare
  refine .bind (sim_checkTemplate hs r.role) fun l' hle _ _ hentry => ?_
  obtain rfl : s' = s := by rw [(hs.mono hle).eq, Ledger.twin_of_folded hentry]
  exact fun w w' hw => .ok (Session.le_placing l' w' 1) (hw.declared hentry r name) trivial

theorem sim_connect (ha : l.Same a a') (hb : l.Same b b') :
    BuildSim l (connect a b) (connect a' b') Anything := by
  unfold connect
  rw [ha.kind, hb.kind, ha.ty, hb.ty]
  by_cases hk : a.kind ≠ b.kind
  · rw [if_pos hk, if_pos hk]
    exact .raise rfl
  · rw [if_neg hk, if_neg hk]
    refine .bind (sim_assignable ha) fun l₁ h₁ id id' hid => ?_
    refine .bind (sim_operand (hb.mono h₁)) fun l₂ h₂ x x' hx => ?_
    refine fun w w' hw => .ok (.refl l₂) (hw.emitted fun hfits => ?_) trivial
    have hplace : l₂.images[id.index.toNat]? = some (.node id') := by
      obtain ⟨more, hmore⟩ := h₂.images
      rw [← hmore]
      exact getElem?_append_of_eq_some more (hid (hfits.of_le h₂))
    obtain ⟨hthere, himage⟩ := hx hfits
    constructor
    · intro i hi
      rcases List.mem_cons.1 hi with rfl | hi
      · exact (List.getElem?_eq_some_iff.1 hplace).1
      · exact hthere i hi
    · rw [Command.image, himage, Operand.image, List.getD_eq_getElem?_getD, hplace]
      rfl

/-! ## Operators -/

theorem sim_define (op : Operator) {args args' : List Operand} (h : l.SameOperands args args')
    (kind : Kind) (width : Width) :
    BuildSim l (define op args kind width) (define op args' kind width) Ledger.Same := by
  intro w w' hw
  have hresult : define op args' kind width w' =
      .ok (w.resultSignal kind width) (w'.defined op args' kind width) := by
    rw [← hw.tied.resultSignal_eq]
    rfl
  rw [hresult]
  refine .ok (Session.le_defining l w') (hw.defined op h kind width) (.of_folded ?_ ?_)
  · exact Nat.lt_succ_of_le (Nat.le_of_eq hw.tied.next)
  · exact hw.tied.fresh _ (Nat.le_of_eq hw.tied.next.symm)

theorem sim_applyAt (op : Operator) (h : l.AllSame ss ss') (kind : Kind) (width : Width) :
    BuildSim l (applyAt op ss kind width) (applyAt op ss' kind width) Ledger.Same := by
  unfold applyAt
  exact .bind (sim_operands h) fun l' _ args args' hargs => sim_define op hargs kind width

theorem sim_apply (op : Operator) (h : l.AllSame ss ss') (kind : Kind) :
    BuildSim l (apply op ss kind) (apply op ss' kind) Ledger.Same := by
  unfold apply
  rw [h.widths]
  exact sim_applyAt op h kind _

theorem sim_unary (op : Operator) (ha : l.Same a a') :
    BuildSim l (unary op a) (unary op a') Ledger.Same := by
  unfold unary
  rw [ha.kind]
  exact sim_apply op (.cons ha .nil) _

theorem sim_binary (op : Operator) (ha : l.Same a a') (hb : l.Same b b') :
    BuildSim l (binary op a b) (binary op a' b') Ledger.Same := by
  unfold binary
  rw [ha.kind]
  exact sim_apply op (.cons ha (.cons hb .nil)) _

theorem sim_wrapping (op : Operator) (ha : l.Same a a') (hb : l.Same b b') :
    BuildSim l (wrapping op a b) (wrapping op a' b') Ledger.Same := by
  unfold wrapping
  rw [ha.kind]
  refine .bind (sim_apply op (.cons ha (.cons hb .nil)) _) fun l₁ _ wide wide' hwide => ?_
  refine .bind (sim_apply _ (.cons hwide .nil) _) fun l₂ _ low low' hlow => ?_
  exact .ite Iff.rfl (fun _ => sim_apply _ (.cons hlow .nil) _) (fun _ => .ret hlow)

theorem sim_compare (op : Operator) (ha : l.Same a a') (hb : l.Same b b') :
    BuildSim l (compare op a b) (compare op a' b') Ledger.Same := by
  unfold compare
  rw [ha.kind, hb.kind, ha.ty, hb.ty]
  by_cases hk : a.kind ≠ b.kind
  · rw [if_pos hk, if_pos hk]
    exact .raise rfl
  · rw [if_neg hk, if_neg hk]
    exact sim_apply op (.cons ha (.cons hb .nil)) _

theorem sim_shiftLeftBy (ha : l.Same a a') (hb : l.Same b b') :
    BuildSim l (shiftLeftBy a b) (shiftLeftBy a' b') Ledger.Same := by
  unfold shiftLeftBy
  refine .look_bind fun w w' hw => ?_
  dsimp only
  rw [hw.tied.shiftLimit, hb.width, ha.kind, ha.width]
  split
  · refine .bind (sim_checkOperands (.cons ha (.cons hb .nil))) fun _ _ _ _ _ => ?_
    exact .bind (sim_report _) fun _ _ _ _ _ => sim_zero _ _
  · exact sim_apply _ (.cons ha (.cons hb .nil)) _

theorem sim_asBool (ha : l.Same a a') : BuildSim l (asBool a) (asBool a') Ledger.Same := by
  unfold asBool
  rw [ha.width]
  split
  · exact .raise rfl
  · exact sim_apply _ (.cons ha .nil) _

/-! ## Selection of bits -/

/-- An index that is let through fits 32 bits and lies within the signal. -/
theorem sim_indexWithin? (ha : l.Same a a') (index : Int) :
    BuildSim l (indexWithin? a index) (indexWithin? a' index) fun _ i i' =>
      i' = i ∧ ∀ j, i = some j → indexFits a.width index = true ∧ j = UInt32.ofNat index.toNat := by
  unfold indexWithin?
  rw [ha.width]
  refine .ite Iff.rfl (fun hfits => .ret ⟨rfl, fun j hj => ⟨hfits, ?_⟩⟩) fun _ => ?_
  · exact (Option.some.inj hj).symm
  · exact .bind (sim_report _) fun _ _ _ _ _ => .ret ⟨rfl, nofun⟩

/-- The same signal in both runs, or none in either. -/
abbrev SameOrNone (l : Ledger) (r r' : Option Signal) : Prop := Option.Rel l.Same r r'

/-- A result of an operator in the first run, and a literal in the second: the ledger gets an entry. -/
theorem sim_folded (ha : l.Same a a') {v : Bits} (hliteral : a'.literal = some v) {hi lo : UInt32}
    (hrange : lo ≤ hi) (hreach : hi.toNat + 1 < 2 ^ 32)
    (hindex : indexFits a.width hi.toNat = true) {kind : Kind} {width : Width}
    (hunsigned : kind.isSigned = false)
    (hwidth : Signals.groundWidth kind width = .known (hi - lo + 1)) :
    BuildSim l (applyAt (.bits hi lo) [a] kind width)
      (create kind width (some (Constant.folded ⟨a'.kind, a'.width, v⟩ hi lo))) Ledger.Same := by
  intro w w' hw
  have hreads := sim_operand ha w w' hw
  rw [operand_literal hliteral] at hreads
  cases hoperand : operand a w with
  | error e w₁ =>
    rw [hoperand] at hreads
    cases hreads
  | ok x w₁ =>
    rw [hoperand] at hreads
    rw [applyAt_of_operand hoperand]
    cases hreads with
    | @ok l₁ _ _ _ _ later twins related =>
      have hindex' : indexFits a'.width hi.toNat = true := by
        rw [ha.width]
        exact hindex
      have htwin := twins.folded (k := ⟨kind, Signals.groundWidth kind width,
        Constant.folded ⟨a'.kind, a'.width, v⟩ hi lo⟩) related hrange hreach hindex' hunsigned rfl
        hwidth rfl
      refine .ok (later.trans (Session.le_folding l₁ _)) htwin ⟨⟨?_, ?_⟩, ?_⟩
      · exact Nat.lt_succ_of_le (Nat.le_of_eq twins.tied.next)
      · intro k hk
        simp only [Session.folding, twins.tied.next, if_true, Option.some.injEq] at hk
        subst hk
        exact ⟨rfl, rfl, rfl⟩
      · simp [Ledger.twin, Session.folding, twins.tied.next, twins.tied.next']

/-- **Where the runs part.**  The first run makes an operator where the second makes a literal, if that
    can be continued so far. -/
theorem sim_selectBits (ha : l.Same a a') {hi lo : UInt32} (hrange : lo ≤ hi)
    (hreach : a'.literal ≠ none → hi.toNat + 1 < 2 ^ 32)
    (hindex : indexFits a.width hi.toNat = true) {kind : Kind} {width : Width}
    (hunsigned : kind.isSigned = false)
    (hwidth : Signals.groundWidth kind width = .known (hi - lo + 1)) :
    BuildSim l (selectBits a hi lo kind width).run (selectBits a' hi lo kind width).run
      SameOrNone := by
  intro w w' hw
  rw [selectBits_off hw.tied.off, selectBits_on hw.tied.on]
  cases hliteral : a'.literal with
  | none =>
    have happly := sim_applyAt (.bits hi lo) (.cons ha .nil) kind width
    exact happly.map (fun _ _ _ hs => .some hs) w w' hw
  | some v =>
    have hreach' := hreach (by simp [hliteral])
    have hfolded := sim_folded ha hliteral hrange hreach' hindex hunsigned hwidth
    dsimp only
    rw [if_pos ⟨hrange, hreach'⟩]
    exact hfolded.map (fun _ _ _ hs => .some hs) w w' hw

/-- Both operations do the same until they select. -/
theorem sim_selection (ha : l.Same a a') {bad : Prop} [Decidable bad] (fault : Fault) (index : Int)
    (kind : Kind) (standIn : Width) {select select' : UInt32 → Checked Signal}
    (hselect : ∀ l', l.Le l' → ¬ bad → indexFits a.width index = true →
      BuildSim l' (select (.ofNat index.toNat)).run (select' (.ofNat index.toNat)).run SameOrNone) :
    BuildSim l (selection a bad fault index kind standIn select)
      (selection a' bad fault index kind standIn select') SameOrNone := by
  have hzero : ∀ l, BuildSim l (some <$> zero kind standIn) (some <$> zero kind standIn)
      SameOrNone :=
    fun l => (sim_zero kind standIn).map fun _ _ _ hs => .some hs
  unfold selection
  refine .bind (sim_checkOperands (.cons ha .nil)) fun l₁ h₁ _ _ _ => ?_
  refine .ite Iff.rfl (fun _ => .bind (sim_report _) fun l₂ _ _ _ _ => hzero l₂) fun hgood => ?_
  refine .bind (sim_indexWithin? (ha.mono h₁) index) fun l₂ h₂ i i' hi' => ?_
  obtain ⟨rfl, hindex⟩ := hi'
  cases i' with
  | none => exact hzero l₂
  | some j =>
    obtain ⟨hfits, rfl⟩ := hindex j rfl
    exact hselect l₂ (h₁.trans h₂) hgood hfits

/-- An index is one that a literal can be continued to, unless it is the last of an open width. -/
theorem reach_of_fits (ha : l.Same a a') {index : Int} (hfits : indexFits a.width index = true)
    (hlast : index = 2 ^ 32 - 1 → ¬ a'.OpenLiteral) (hliteral : a'.literal ≠ none) :
    (UInt32.ofNat index.toNat).toNat + 1 < 2 ^ 32 := by
  have hindex := toNat_of_indexFits hfits
  have hlt := (UInt32.ofNat index.toNat).toNat_lt
  by_contra hlarge
  have hopen : a'.width = .unknown := by
    rw [ha.width]
    cases hw : a.width with
    | unknown => rfl
    | known u =>
      have hu := u.toNat_lt
      simp only [hw, indexFits, Bool.and_eq_true, decide_eq_true_eq] at hfits
      omega
  exact hlast (by omega) ⟨hliteral, hopen⟩

theorem sim_extract (ha : l.Same a a') (hi lo : Int)
    (hlast : hi = 2 ^ 32 - 1 → 0 < lo → lo ≤ hi → ¬ a'.OpenLiteral) :
    BuildSim l (extract a hi lo).run (extract a' hi lo).run SameOrNone := by
  rw [run_extract, run_extract]
  refine sim_selection ha _ hi _ _ fun l' hle hgood hfits => ?_
  obtain ⟨hrange, hfits', -⟩ :=
    range_of_indexFits (show 0 ≤ lo by omega) (show lo ≤ hi by omega) hfits
  have hhigh := toNat_of_indexFits hfits
  have hlow := toNat_of_le (show lo ≤ hi by omega) hfits
  intro w w' hw
  rw [run_selectRange, run_selectRange]
  split
  · next hspan =>
    refine sim_selectBits (ha.mono hle) hrange (reach_of_fits ha hfits fun heq => ?_) hfits' rfl rfl
      w w' hw
    exact hlast heq (by omega) (by omega)
  · exact .ok (.refl l') hw .none

theorem sim_bit (ha : l.Same a a') (index : Int) (hlast : index = 2 ^ 32 - 1 → ¬ a'.OpenLiteral) :
    BuildSim l (bit a index).run (bit a' index).run SameOrNone := by
  rw [run_bit, run_bit]
  refine sim_selection ha _ index _ _ fun l' hle _ hfits => ?_
  refine sim_selectBits (ha.mono hle) (UInt32.le_refl _) (reach_of_fits ha hfits hlast) ?_ rfl
    (groundWidth_bit _)
  rw [toNat_of_indexFits hfits]
  exact hfits

/-! ## Selection between signals -/

theorem sim_mux {c c' t t' f f' : Signal} (hc : l.Same c c') (ht : l.Same t t')
    (hf : l.Same f f') : BuildSim l (mux c t f) (mux c' t' f') Ledger.Same := by
  unfold mux
  refine .bind (sim_operands (.cons hc (.cons ht (.cons hf .nil)))) fun l₁ _ args args' hargs => ?_
  rw [ht.kind, hf.kind, ht.ty, hf.ty, ht.width, hf.width]
  split
  · exact .raise rfl
  · exact sim_define _ hargs _ _

end Circuitry.Draft
