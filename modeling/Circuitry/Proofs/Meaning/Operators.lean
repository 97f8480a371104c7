/-
  Operators of a description keep what they promise.

  1. A call that goes through is taken apart into its variables and its operation
     (`meaning_binary_eq_ok`, `meaning_unary_eq_ok`), and an operation with an operator into the operands
     that it reads (`applyAt_eq_ok`).
  2. The width that is inferred for a result is a function of the widths of the operands; there are six
     rules (`Width.eq_max` and what follows).
  3. `Passed.binary` and `Passed.unary` put this together with what operators compute
     (`Passed.result`) and with the promises (`Binary.Law`, `Unary.Law`), and
     `Calls.binary`, `Calls.unary` say it of calls.
-/
import Circuitry.Proofs.Draft.AllOrNothing
import Circuitry.Proofs.Meaning.Laws
import Circuitry.Proofs.Meaning.Trial
import Circuitry.Proofs.Script.Operations

namespace Circuitry

open Draft (Session)
open Draft.Session (Step Proper)

/-! ## Inferred widths -/

namespace Width

/-- The number of bits, where the width is known. -/
def Measures (w : Width) (n : Nat) : Prop := ∀ u, w = .known u → n = u.toNat

theorem toNat_of_saturate {n : Nat} (h : (saturate n).toNat ≤ Value.maxWidth) :
    (saturate n).toNat = n := by
  rw [toNat_saturate] at h ⊢
  simp only [Value.maxWidth, limit] at h ⊢
  omega

section Rules

variable {a b : Width} {m n : Nat} {W : UInt32} (ha : a.Measures m) (hle : W.toNat ≤ Value.maxWidth)

include ha hle

/-- A width that is computed from one is as computed, unless it is large. -/
theorem eq_map {f : Nat → Nat} (h : a.map f = .known W) : W.toNat = f m := by
  cases a with
  | unknown => cases h
  | known u =>
    obtain rfl := Width.known.inj h
    rw [toNat_of_saturate hle, ha u rfl]

theorem eq_map₂ (hb : b.Measures n) {f : Nat → Nat → Nat} (h : map₂ f a b = .known W) :
    W.toNat = f m n := by
  cases a with
  | unknown => cases h
  | known u =>
    cases b with
    | unknown => cases h
    | known v =>
      obtain rfl := Width.known.inj h
      rw [toNat_of_saturate hle, ha u rfl, hb v rfl]

omit hle in
theorem eq_self (h : a = .known W) : W.toNat = m := (ha W h).symm

theorem eq_max (hb : b.Measures n) (h : a.max b = .known W) : W.toNat = Max.max m n :=
  eq_map₂ ha hle hb h

theorem eq_add (hb : b.Measures n) (h : a.add b = .known W) : W.toNat = m + n :=
  eq_map₂ ha hle hb h

theorem eq_grow {k : UInt32} (h : a.grow k = .known W) : W.toNat = m + k.toNat := eq_map ha hle h

theorem eq_shrink {k : UInt32} (h : a.shrink k = .known W) : W.toNat = m - k.toNat :=
  eq_map ha hle h

/-- The wider of two with one bit more. -/
theorem eq_max_grow (hb : b.Measures n) (h : (a.max b).grow 1 = .known W) :
    W.toNat = Max.max m n + 1 := by
  cases hmax : a.max b with
  | unknown =>
    rw [hmax] at h
    cases h
  | known u =>
    have hgrown : W.toNat = u.toNat + 1 := by
      rw [hmax] at h
      exact eq_grow (fun v hv => congrArg UInt32.toNat (Width.known.inj hv)) hle h
    rw [hgrown, eq_max ha (by omega) hb hmax]

/-- Room for the largest shift; amounts of 32 bits or more would need more than there is. -/
theorem eq_growBy (hb : b.Measures n) (h : a.growBy b = .known W) : W.toNat = m + (2 ^ n - 1) := by
  have hmap := eq_map₂ ha hle hb h
  split at hmap
  · exact hmap
  · simp only [Value.maxWidth, limit] at hle hmap
    omega

end Rules

end Width

namespace Signals

theorem groundWidth_of_numeric {kind : Kind} (h : Script.isNumeric kind = true) (width : Width) :
    groundWidth kind width = width := by
  cases kind with
  | bool => cases h
  | uint | sint => rfl

/-- What is as wide as the wider of two has a width that its kind allows. -/
theorem groundWidth_max {kind : Kind} {a b : Width} (ha : groundWidth kind a = a)
    (hb : groundWidth kind b = b) : groundWidth kind (a.max b) = a.max b := by
  cases kind with
  | bool =>
    rw [← ha, ← hb]
    rfl
  | uint | sint => rfl

end Signals

/-! ## Operations taken apart -/

namespace Draft

variable {op : Operator} {kind : Kind} {w w' : Session} {z : Signal}

theorem applyAt_eq_ok {ss : List Signal} {width : Width} (h : applyAt op ss kind width w = .ok z w') :
    ∃ args, List.Forall₂ w.Reads ss args ∧ z = w.resultSignal kind width ∧
      w' = w.defined op args kind width := by
  obtain ⟨args, w₁, hargs, hdefine⟩ := bind_eq_ok.1 h
  obtain ⟨hreads, rfl⟩ := (operands_read (I := fun v => v = w) ss).of_ok rfl hargs
  obtain ⟨rfl, rfl⟩ := EStateM.Result.ok.inj hdefine
  exact ⟨args, hreads, rfl, rfl⟩

/-- An operator is one step. -/
theorem step_of_applyAt {L ss : List Signal} {width : Width}
    (h : applyAt op ss kind width w = .ok z w') (harity : op.arity = ss.length) (hss : ss ⊆ L) :
    Step L w [z] w' := by
  obtain ⟨args, hreads, rfl, rfl⟩ := applyAt_eq_ok h
  exact .define op ss args kind width hreads harity.symm hss

/-- A comparison that goes through has operands of one kind. -/
theorem compare_eq_ok {x y : Signal} (h : compare op x y w = .ok z w') :
    x.kind = y.kind ∧ apply op [x, y] .bool w = .ok z w' := by
  unfold compare at h
  by_cases hk : x.kind ≠ y.kind
  · rw [if_pos hk] at h
    cases h
  · rw [if_neg hk] at h
    exact ⟨Decidable.not_not.1 hk, h⟩

/-- A fault that has been made up for has been reported. -/
theorem report_eq_ok {f : Fault} (h : report f w = .ok () w') : w' = w.reported f := by
  rw [run_report] at h
  split at h
  · cases h
  · exact (EStateM.Result.ok.inj h).2.symm

/-- A stand-in is there because something has been reported. -/
theorem not_clean_of_report {α : Type} {f : Fault} {act : Build α} {r : α}
    (hact : ∀ w, Silent act w) (h : (do report f; act) w = .ok r w') :
    w'.draft.sink.errorCount ≠ 0 := by
  obtain ⟨⟨⟩, w₁, hreport, hstandIn⟩ := bind_eq_ok.1 h
  obtain rfl := report_eq_ok hreport
  obtain ⟨r', w₂, hrun, hsink⟩ := hact (w.reported f)
  obtain ⟨-, rfl⟩ := EStateM.Result.ok.inj (hrun.symm.trans hstandIn)
  rw [hsink]
  exact Nat.succ_ne_zero _

/-- A shift by a signal that reports nothing is an operator. -/
theorem shiftLeftBy_eq_ok {x y : Signal} (h : shiftLeftBy x y w = .ok z w')
    (hclean : w'.draft.sink.errorCount = 0) : apply .dshl [x, y] x.kind w = .ok z w' := by
  obtain ⟨w₀, w₁, hget, hrest⟩ := bind_eq_ok.1 h
  obtain ⟨rfl, rfl⟩ := EStateM.Result.ok.inj hget
  generalize y.width.get?.filter _ = wide at hrest
  cases wide with
  | none => exact hrest
  | some width =>
    obtain ⟨⟨⟩, w₁, -, hreporting⟩ := bind_eq_ok.1 hrest
    exact absurd hclean (not_clean_of_report (fun _ => silent_create ..) hreporting)

theorem asBool_eq_ok {x : Signal} (h : asBool x w = .ok z w') :
    apply .asBool [x] .bool w = .ok z w' := by
  unfold asBool at h
  generalize x.width.get?.filter _ = wide at h
  cases wide with
  | none => exact h
  | some w => cases h

/-- A sum or difference that keeps its width takes two or three operators. -/
theorem wrapping_eq_ok {x y : Signal} (h : wrapping op x y w = .ok z w') :
    ∃ wide w₁ low w₂, apply op [x, y] x.kind w = .ok wide w₁ ∧
      apply (.tail 1) [wide] .uint w₁ = .ok low w₂ ∧
      if x.kind.isSigned then apply .asSInt [low] .sint w₂ = .ok z w' else low = z ∧ w₂ = w' := by
  obtain ⟨wide, w₁, hwide, h⟩ := bind_eq_ok.1 h
  obtain ⟨low, w₂, hlow, h⟩ := bind_eq_ok.1 h
  refine ⟨wide, w₁, low, w₂, hwide, hlow, ?_⟩
  split
  · next hsigned => rwa [if_pos hsigned] at h
  · next hsigned =>
    rw [if_neg hsigned] at h
    exact EStateM.Result.ok.inj h

end Draft

/-! ## Calls taken apart -/

namespace Script

variable {w w' : World} {r : Answer × Option Draft.Bundle}

theorem liftBuild_eq_ok {α : Type} {act : Draft.Build α} {a : α} (h : liftBuild act w = .ok a w') :
    ∃ s, act w.session = .ok a s ∧ w' = { w with session := s } := by
  unfold liftBuild at h
  split at h
  · next s hact =>
    obtain ⟨rfl, rfl⟩ := EStateM.Result.ok.inj h
    exact ⟨s, hact, rfl⟩
  · cases h

/-- The value that is answered. -/
theorem answerValue_eq_ok {b : Draft.Bundle} (h : answerValue b w = .ok r w') :
    r.2 = some b ∧ w' = w := by
  obtain ⟨rfl, rfl⟩ := EStateM.Result.ok.inj h
  exact ⟨rfl, rfl⟩

theorem answerSignal_eq_ok {act : Draft.Build Signal} (h : answerSignal act w = .ok r w') :
    ∃ z s, act w.session = .ok z s ∧ r.2 = some (.leaf z) ∧ w' = { w with session := s } := by
  obtain ⟨z, w₁, hact, hanswer⟩ := bind_eq_ok.1 h
  obtain ⟨s, hz, rfl⟩ := liftBuild_eq_ok hact
  obtain ⟨hr, rfl⟩ := answerValue_eq_ok hanswer
  exact ⟨z, s, hz, hr, rfl⟩

theorem meaning_binary_eq_ok {op : Binary} {a b : String}
    (h : meaning (.binary op a b) w = .ok r w') :
    ∃ x y z s, w.values.lookup a = some (.leaf x) ∧ w.values.lookup b = some (.leaf y) ∧
      op.accepts x.kind y.kind = true ∧ op.build x y w.session = .ok z s ∧ r.2 = some (.leaf z) ∧
      w' = { w with session := s } := by
  obtain ⟨x, w₁, hleft, hrest⟩ := bind_eq_ok.1 h
  obtain ⟨hx, rfl⟩ := (signal_looksUp a).of_ok rfl hleft
  obtain ⟨y, w₂, hright, hop⟩ := bind_eq_ok.1 hrest
  obtain ⟨hy, rfl⟩ := (signal_looksUp b).of_ok rfl hright
  split at hop
  · next haccepts =>
    obtain ⟨z, s, hz, hr, rfl⟩ := answerSignal_eq_ok hop
    exact ⟨x, y, z, s, hx, hy, haccepts, hz, hr, rfl⟩
  · cases hop

theorem meaning_unary_eq_ok {op : Unary} {a : String} (h : meaning (.unary op a) w = .ok r w') :
    ∃ x z s, w.values.lookup a = some (.leaf x) ∧ op.accepts x.kind = true ∧
      op.build x w.session = .ok z s ∧ r.2 = some (.leaf z) ∧ w' = { w with session := s } := by
  obtain ⟨x, w₁, hoperand, hop⟩ := bind_eq_ok.1 h
  obtain ⟨hx, rfl⟩ := (signal_looksUp a).of_ok rfl hoperand
  split at hop
  · next haccepts =>
    obtain ⟨z, s, hz, hr, rfl⟩ := answerSignal_eq_ok hop
    exact ⟨x, z, s, hx, haccepts, hz, hr, rfl⟩
  · cases hop

/-- Logic is for two of the one kind `Bool`. -/
theorem kind_eq_of_logicAnd {k k' : Kind} (h : Binary.logicAnd.accepts k k' = true) : k = k' := by
  obtain ⟨rfl, rfl⟩ : k = .bool ∧ k' = .bool := by simpa [Binary.accepts] using h
  rfl

/-- The leaves of a variable are around. -/
theorem leaves_of_lookup {name : String} {b : Draft.Bundle} (h : w.values.lookup name = some b) :
    b.leaves ⊆ w.around :=
  fun _ hs => List.mem_flatMap.2 ⟨(name, b), mem_of_lookup h, hs⟩

theorem mem_around {name : String} {s : Signal} (h : w.values.lookup name = some (.leaf s)) :
    s ∈ w.around :=
  leaves_of_lookup h (List.mem_singleton_self s)

end Script

/-! ## Operators in a trial -/

namespace Trial

variable {T : Trial}

namespace Has

variable {s : Signal} {v : Value}

theorem signed (h : T.Has s v) : v.signed = s.kind.isSigned := signed_of_value? h.value

theorem measures (h : T.Has s v) : s.width.Measures v.width := fun _ => width_of_value? h.value

/-- Values of signals of one kind are read alike. -/
theorem same {s' : Signal} {v' : Value} (h : T.Has s v) (h' : T.Has s' v') (hkind : s.kind = s'.kind) :
    v.signed = v'.signed := by
  rw [h.signed, h'.signed, hkind]

theorem unique {s : Signal} {v v' : Value} (h : T.Has s v) (h' : T.Has s v') : v = v' :=
  Option.some.inj (h.value.symm.trans h'.value)

end Has

namespace Passed

variable {L : List Signal} {w w' : Session} {x y z : Signal} {o : Operator} {k : Kind}
  {width : Width}

/-- What an operator makes of one signal. -/
theorem apply₁ (h : T.Passed w') (hw : w.Proper L) (hx : x ∈ L) (harity : o.arity = 1)
    (hrun : Draft.applyAt o [x] k width w = .ok z w') :
    ∃ p W, T.Has x p ∧ Signals.groundWidth k width = .known W ∧ W.toNat ≤ Value.maxWidth ∧
      T.Has z ⟨o.apply [p] W.toNat, W.toNat, k.isSigned⟩ := by
  obtain ⟨args, hreads, rfl, rfl⟩ := Draft.applyAt_eq_ok hrun
  have hsub : [x] ⊆ L := by simp [hx]
  obtain ⟨vs, W, hvs, hground, hle, hz⟩ := h.result hw hsub hreads harity.symm
  cases hvs with
  | cons hp hrest =>
    cases hrest
    exact ⟨_, W, hp, hground, hle, hz, Operator.apply_lt _ _ _, hle⟩

/-- What an operator makes of two signals. -/
theorem apply₂ (h : T.Passed w') (hw : w.Proper L) (hx : x ∈ L) (hy : y ∈ L) (harity : o.arity = 2)
    (hrun : Draft.applyAt o [x, y] k width w = .ok z w') :
    ∃ p q W, T.Has x p ∧ T.Has y q ∧ Signals.groundWidth k width = .known W ∧
      W.toNat ≤ Value.maxWidth ∧ T.Has z ⟨o.apply [p, q] W.toNat, W.toNat, k.isSigned⟩ := by
  obtain ⟨args, hreads, rfl, rfl⟩ := Draft.applyAt_eq_ok hrun
  have hsub : [x, y] ⊆ L := by simp [hx, hy]
  obtain ⟨vs, W, hvs, hground, hle, hz⟩ := h.result hw hsub hreads harity.symm
  cases hvs with
  | cons hp hrest =>
    cases hrest with
    | cons hq hrest =>
      cases hrest
      exact ⟨_, _, W, hp, hq, hground, hle, hz, Operator.apply_lt _ _ _, hle⟩

/-- The low bits of a wide result, read by the kind of the operands. -/
theorem wrapping (h : T.Passed w') (hw : w.Proper L) (hx : x ∈ L) (hy : y ∈ L)
    (hnumeric : Script.isNumeric x.kind = true) (harity : o.arity = 2)
    (hwidth : ∀ ws, o.resultWidth ws = Operator.add.resultWidth ws)
    (hrun : Draft.wrapping o x y w = .ok z w') :
    ∃ p q W, T.Has x p ∧ T.Has y q ∧ W + 1 ≤ Value.maxWidth ∧ W = max p.width q.width ∧
      T.Has z (Script.narrowed ⟨o.apply [p, q] (W + 1), W + 1, p.signed⟩ W p.signed) := by
  obtain ⟨wide, w₁, low, w₂, hwide, hlow, hlast⟩ := Draft.wrapping_eq_ok hrun
  -- forward, each session is proper; backward, each one is on the way
  have hstep₁ : Step L w [wide] w₁ := Draft.step_of_applyAt hwide harity (by simp [hx, hy])
  have hw₁ := Session.stable_proper.step hstep₁ hw
  have hstep₂ : Step ([wide] ++ L) w₁ [low] w₂ := Draft.step_of_applyAt hlow rfl (by simp)
  have hw₂ := Session.stable_proper.step hstep₂ hw₁
  have hpassed₂ : T.Passed w₂ := by
    split at hlast
    · exact h.back_step (Draft.step_of_applyAt hlast rfl (by simp)) hw₂
    · exact hlast.2 ▸ h
  have hpassed₁ := hpassed₂.back_step hstep₂ hw₁
  obtain ⟨p, q, W₁, hp, hq, hground₁, hle₁, hvalue₁⟩ := hpassed₁.apply₂ hw hx hy harity hwide
  obtain ⟨u, W, hu, hground₂, hle₂, hvalue₂⟩ := hpassed₂.apply₁ hw₁ (by simp) rfl hlow
  obtain rfl := hu.unique hvalue₁
  rw [Signals.groundWidth_of_numeric hnumeric, hwidth] at hground₁
  have hW₁ := Width.eq_max_grow hp.measures hle₁ hq.measures hground₁
  have hW : W.toNat = W₁.toNat - 1 := Width.eq_shrink hvalue₁.measures hle₂ hground₂
  rw [← hp.signed, show W₁.toNat = W.toNat + 1 by omega] at hvalue₂
  refine ⟨p, q, W.toNat, hp, hq, by omega, by omega, ?_⟩
  unfold Script.narrowed
  cases hsigned : p.signed with
  | false =>
    rw [← hp.signed, hsigned] at hlast
    rw [hsigned] at hvalue₂
    exact hlast.1 ▸ hvalue₂
  | true =>
    rw [← hp.signed, hsigned, if_pos rfl] at hlast
    obtain ⟨v, W', hv, hground₃, hle₃, hvalue₃⟩ := h.apply₁ hw₂ (by simp) rfl hlast
    obtain rfl := hv.unique hvalue₂
    have hW' : W'.toNat = W.toNat := Width.eq_self hvalue₂.measures hground₃
    rw [hW', hsigned] at hvalue₃
    exact hvalue₃

/-- An operator on two signals, with the promise that it keeps on their values. -/
theorem law₂ {op : Script.Binary} (h : T.Passed w') (hw : w.Proper L) (hx : x ∈ L) (hy : y ∈ L)
    (harity : o.arity = 2) (hrun : Draft.apply o [x, y] k w = .ok z w')
    (hlaw : ∀ p q W, T.Has x p → T.Has y q →
      Signals.groundWidth k (o.resultWidth [x.width, y.width]) = .known W →
      W.toNat ≤ Value.maxWidth →
      op.Law p q ⟨o.apply [p, q] W.toNat, W.toNat, k.isSigned⟩) :
    ∃ p q v, T.Has x p ∧ T.Has y q ∧ T.Has z v ∧ op.Law p q v := by
  obtain ⟨p, q, W, hp, hq, hground, hle, hz⟩ := h.apply₂ hw hx hy harity hrun
  exact ⟨p, q, _, hp, hq, hz, hlaw p q W hp hq hground hle⟩

/-- A comparison of signals of one kind. -/
theorem comparison {op : Script.Binary} (h : T.Passed w') (hw : w.Proper L) (hx : x ∈ L) (hy : y ∈ L)
    (harity : o.arity = 2) (hrun : Draft.compare o x y w = .ok z w')
    (hlaw : ∀ {p q : Value}, p.signed = q.signed → op.Law p q ⟨o.apply [p, q] 1, 1, false⟩) :
    ∃ p q v, T.Has x p ∧ T.Has y q ∧ T.Has z v ∧ op.Law p q v := by
  obtain ⟨hkind, happly⟩ := Draft.compare_eq_ok hrun
  refine h.law₂ hw hx hy harity happly fun p q W hp hq hW _ => ?_
  obtain rfl : 1 = W := Width.known.inj hW
  exact hlaw (hp.same hq hkind)

theorem law₁ {op : Script.Unary} (h : T.Passed w') (hw : w.Proper L) (hx : x ∈ L)
    (harity : o.arity = 1) (hrun : Draft.apply o [x] k w = .ok z w')
    (hlaw : ∀ p W, T.Has x p → Signals.groundWidth k (o.resultWidth [x.width]) = .known W →
      W.toNat ≤ Value.maxWidth → op.Law p ⟨o.apply [p] W.toNat, W.toNat, k.isSigned⟩) :
    ∃ p v, T.Has x p ∧ T.Has z v ∧ op.Law p v := by
  obtain ⟨p, W, hp, hground, hle, hz⟩ := h.apply₁ hw hx harity hrun
  exact ⟨p, _, hp, hz, hlaw p W hp hground hle⟩

/-- Arithmetic on two numbers of one kind. -/
theorem arithmetic {op : Script.Binary} (h : T.Passed w') (hw : w.Proper L) (hx : x ∈ L) (hy : y ∈ L)
    (harity : o.arity = 2)
    (haccepts : (Script.isNumeric x.kind && decide (x.kind = y.kind)) = true)
    (hrun : Draft.binary o x y w = .ok z w')
    (hlaw : ∀ p q W, T.Has x p → T.Has y q → p.signed = q.signed →
      o.resultWidth [x.width, y.width] = .known W → W.toNat ≤ Value.maxWidth →
      op.Law p q ⟨o.apply [p, q] W.toNat, W.toNat, p.signed⟩) :
    ∃ p q v, T.Has x p ∧ T.Has y q ∧ T.Has z v ∧ op.Law p q v := by
  obtain ⟨hnumeric, hkind⟩ : Script.isNumeric x.kind = true ∧ x.kind = y.kind := by
    simpa using haccepts
  refine h.law₂ hw hx hy harity hrun fun p q W hp hq hW hle => ?_
  rw [Signals.groundWidth_of_numeric hnumeric] at hW
  rw [← hp.signed]
  exact hlaw p q W hp hq (hp.same hq hkind) hW hle

/-- A bitwise operator on two signals of one kind. -/
theorem bitwise {op : Script.Binary} (h : T.Passed w') (hw : w.Proper L) (hx : x ∈ L) (hy : y ∈ L)
    (harity : o.arity = 2) (hkind : x.kind = y.kind)
    (hwidth : o.resultWidth [x.width, y.width] = x.width.max y.width)
    (hrun : Draft.binary o x y w = .ok z w')
    (hlaw : ∀ {p q : Value} {W : Nat}, W ≤ Value.maxWidth → W = max p.width q.width →
      op.Law p q ⟨o.apply [p, q] W, W, p.signed⟩) :
    ∃ p q v, T.Has x p ∧ T.Has y q ∧ T.Has z v ∧ op.Law p q v := by
  have hgx := (hw.suited.signals x hx).grounded
  have hgy := (hw.suited.signals y hy).grounded
  refine h.law₂ hw hx hy harity hrun fun p q W hp hq hW hle => ?_
  rw [hwidth, Signals.groundWidth_max hgx (hkind ▸ hgy)] at hW
  rw [← hp.signed]
  exact hlaw hle (Width.eq_max hp.measures hle hq.measures hW)

/-- **Operators on two signals keep their promises.** -/
theorem binary (h : T.Passed w') (hw : w.Proper L) (hx : x ∈ L) (hy : y ∈ L) (op : Script.Binary)
    (haccepts : op.accepts x.kind y.kind = true) (hrun : op.build x y w = .ok z w') :
    ∃ p q v, T.Has x p ∧ T.Has y q ∧ T.Has z v ∧ op.Law p q v := by
  cases op with
  | addWide =>
    refine h.arithmetic (o := .add) hw hx hy rfl haccepts hrun fun p q W hp hq hsame hW hle => ?_
    exact Script.law_addWide hle hp.fits hq.fits hsame
      (Width.eq_max_grow hp.measures hle hq.measures hW)
  | subWide =>
    refine h.arithmetic (o := .sub) hw hx hy rfl haccepts hrun fun p q W hp hq hsame hW hle => ?_
    exact Script.law_subWide hle hp.fits hq.fits hsame
      (Width.eq_max_grow hp.measures hle hq.measures hW)
  | mul =>
    refine h.arithmetic (o := .mul) hw hx hy rfl haccepts hrun fun p q W hp hq hsame hW hle => ?_
    exact Script.law_mul hle hp.fits hq.fits hsame (Width.eq_add hp.measures hle hq.measures hW)
  | div =>
    refine h.arithmetic (o := .div) hw hx hy rfl haccepts hrun fun p q W hp hq hsame hW hle => ?_
    exact Script.law_div hq.fits hsame (Width.eq_self hp.measures hW)
  | rem =>
    refine h.arithmetic (o := .rem) hw hx hy rfl haccepts hrun fun p q W hp hq hsame hW hle => ?_
    exact Script.law_rem hp.fits hq.fits hsame (Width.eq_self hp.measures hW)
  | add =>
    have hnumeric : Script.isNumeric x.kind = true := (Bool.and_eq_true_iff.1 haccepts).1
    obtain ⟨p, q, W, hp, hq, hle, hW, hz⟩ :=
      h.wrapping (o := .add) hw hx hy hnumeric rfl (fun _ => rfl) hrun
    exact ⟨p, q, _, hp, hq, hz, Script.law_add hle hW⟩
  | sub =>
    have hnumeric : Script.isNumeric x.kind = true := (Bool.and_eq_true_iff.1 haccepts).1
    obtain ⟨p, q, W, hp, hq, hle, hW, hz⟩ :=
      h.wrapping (o := .sub) hw hx hy hnumeric rfl (fun _ => rfl) hrun
    exact ⟨p, q, _, hp, hq, hz, Script.law_sub hle hW⟩
  | lt => exact h.comparison (o := .lt) hw hx hy rfl hrun Script.law_lt
  | leq => exact h.comparison (o := .leq) hw hx hy rfl hrun Script.law_leq
  | gt => exact h.comparison (o := .gt) hw hx hy rfl hrun Script.law_gt
  | geq => exact h.comparison (o := .geq) hw hx hy rfl hrun Script.law_geq
  | eq => exact h.comparison (o := .eq) hw hx hy rfl hrun Script.law_eq
  | neq => exact h.comparison (o := .neq) hw hx hy rfl hrun Script.law_neq
  | and =>
    exact h.bitwise (o := .and) hw hx hy rfl (of_decide_eq_true haccepts) rfl hrun Script.law_and
  | or =>
    exact h.bitwise (o := .or) hw hx hy rfl (of_decide_eq_true haccepts) rfl hrun Script.law_or
  | xor =>
    exact h.bitwise (o := .xor) hw hx hy rfl (of_decide_eq_true haccepts) rfl hrun Script.law_xor
  | logicAnd =>
    have hkind : x.kind = y.kind := Script.kind_eq_of_logicAnd haccepts
    exact h.bitwise (o := .and) hw hx hy rfl hkind rfl hrun Script.law_and
  | logicOr =>
    have hkind : x.kind = y.kind := Script.kind_eq_of_logicAnd haccepts
    exact h.bitwise (o := .or) hw hx hy rfl hkind rfl hrun Script.law_or
  | concat =>
    refine h.law₂ (o := .cat) (k := .uint) hw hx hy rfl hrun fun p q W hp hq hW hle => ?_
    exact Script.law_concat hp.fits hq.fits hle (Width.eq_add hp.measures hle hq.measures hW)
  | shiftLeftBy =>
    have hnumeric : Script.isNumeric x.kind = true := (Bool.and_eq_true_iff.1 haccepts).1
    have happly := Draft.shiftLeftBy_eq_ok hrun h.clean
    refine h.law₂ (o := .dshl) hw hx hy rfl happly fun p q W hp hq hW hle => ?_
    rw [Signals.groundWidth_of_numeric hnumeric] at hW
    rw [← hp.signed]
    exact Script.law_shiftLeftBy hp.fits hq.fits hle
      (Width.eq_growBy hp.measures hle hq.measures hW)
  | shiftRightBy =>
    have hnumeric : Script.isNumeric x.kind = true := (Bool.and_eq_true_iff.1 haccepts).1
    refine h.law₂ (o := .dshr) hw hx hy rfl hrun fun p q W hp hq hW hle => ?_
    rw [Signals.groundWidth_of_numeric hnumeric] at hW
    rw [← hp.signed]
    exact Script.law_shiftRightBy hp.fits (Width.eq_self hp.measures hW)

/-- **Operators on one signal keep their promises.** -/
theorem unary (h : T.Passed w') (hw : w.Proper L) (hx : x ∈ L) (op : Script.Unary)
    (haccepts : op.accepts x.kind = true) (hrun : op.build x w = .ok z w') :
    ∃ p v, T.Has x p ∧ T.Has z v ∧ op.Law p v := by
  have hground := (hw.suited.signals x hx).grounded
  have hbit : ∀ {width : Width} {W : UInt32}, Signals.groundWidth .bool width = .known W → W = 1 :=
    fun hW => (Width.known.inj hW).symm
  cases op with
  | not =>
    refine h.law₁ (o := .not) hw hx rfl hrun fun p W hp hW hle => ?_
    rw [← hp.signed]
    exact Script.law_not hp.fits (Width.eq_self hp.measures (hground ▸ hW))
  | asSInt =>
    refine h.law₁ (o := .asSInt) (k := .sint) hw hx rfl hrun fun p W hp hW hle => ?_
    exact Script.law_asSInt hp.fits (Width.eq_self hp.measures hW)
  | asUInt =>
    refine h.law₁ (o := .asUInt) (k := .uint) hw hx rfl hrun fun p W hp hW hle => ?_
    exact Script.law_asUInt hp.fits (Width.eq_self hp.measures hW)
  | asBool =>
    refine h.law₁ (o := .asBool) hw hx rfl (Draft.asBool_eq_ok hrun) fun p W hp hW hle => ?_
    obtain rfl := hbit hW
    exact Script.law_asBool
  | andReduce =>
    refine h.law₁ (o := .andReduce) (k := .bool) hw hx rfl hrun fun p W hp hW hle => ?_
    obtain rfl := hbit hW
    exact Script.law_andReduce hp.fits
  | orReduce =>
    refine h.law₁ (o := .orReduce) (k := .bool) hw hx rfl hrun fun p W hp hW hle => ?_
    obtain rfl := hbit hW
    exact Script.law_orReduce hp.fits
  | xorReduce =>
    refine h.law₁ (o := .xorReduce) (k := .bool) hw hx rfl hrun fun p W hp hW hle => ?_
    obtain rfl := hbit hW
    exact Script.law_xorReduce hp.fits
  | shl n =>
    refine h.law₁ (o := .shl n) hw hx rfl hrun fun p W hp hW hle => ?_
    rw [Signals.groundWidth_of_numeric haccepts] at hW
    rw [← hp.signed]
    exact Script.law_shl n hp.fits hle (Width.eq_grow hp.measures hle hW)
  | shr n =>
    refine h.law₁ (o := .shr n) hw hx rfl hrun fun p W hp hW hle => ?_
    rw [Signals.groundWidth_of_numeric haccepts] at hW
    rw [← hp.signed]
    exact Script.law_shr n hp.fits (Width.eq_shrink hp.measures hle hW)
  | pad n =>
    refine h.law₁ (o := .pad n) hw hx rfl hrun fun p W hp hW hle => ?_
    rw [Signals.groundWidth_of_numeric haccepts] at hW
    rw [← hp.signed]
    have hn : (Width.known n).Measures n.toNat := fun _ hu => congrArg _ (Width.known.inj hu)
    exact Script.law_pad n hp.fits hle (Width.eq_max hp.measures hle hn hW)

end Passed

/-! ## Calls -/

namespace Calls

variable {r : Script.Answer × Option Draft.Bundle} {before after : Script.World}

/-- What a call of an operator on two variables comes to. -/
theorem binary {op : Script.Binary} {a b : String} (h : T.Calls (.binary op a b) r before after) :
    ∃ x y z p q v, before.values.lookup a = some (.leaf x) ∧
      before.values.lookup b = some (.leaf y) ∧ r.2 = some (.leaf z) ∧ T.Has x p ∧ T.Has y q ∧
      T.Has z v ∧ op.Law p q v := by
  obtain ⟨x, y, z, s, hx, hy, haccepts, hrun, hr, rfl⟩ := Script.meaning_binary_eq_ok h.call
  obtain ⟨p, q, v, hp, hq, hv, hlaw⟩ := Passed.binary h.passed h.proper (Script.mem_around hx)
    (Script.mem_around hy) op haccepts hrun
  exact ⟨x, y, z, p, q, v, hx, hy, hr, hp, hq, hv, hlaw⟩

theorem unary {op : Script.Unary} {a : String} (h : T.Calls (.unary op a) r before after) :
    ∃ x z p v, before.values.lookup a = some (.leaf x) ∧ r.2 = some (.leaf z) ∧ T.Has x p ∧
      T.Has z v ∧ op.Law p v := by
  obtain ⟨x, z, s, hx, haccepts, hrun, hr, rfl⟩ := Script.meaning_unary_eq_ok h.call
  obtain ⟨p, v, hp, hv, hlaw⟩ := Passed.unary h.passed h.proper (Script.mem_around hx) op haccepts hrun
  exact ⟨x, z, p, v, hx, hr, hp, hv, hlaw⟩

end Calls

end Trial

end Circuitry
