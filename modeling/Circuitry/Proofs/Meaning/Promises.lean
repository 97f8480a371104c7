/-
  Operators on bits, selections and connections mean what their widths promise.

  `Trial.Promise` says for every call of this sort what its result has to do with its operands, in the
  values of a run that has come to rest: bit by bit for the bitwise operators, reductions and selections
  of bits, and as integers for shifts, padding, joins, selections between signals and connections.  The
  operands may have any widths and kinds that the call accepts.

  The promises have been proved operator by operator; `operators_faithful` collects them, and adds that a
  signal that is read with a sign and then without one again has all its bits back.
-/
import Circuitry.Proofs.Meaning.Arithmetic
import Circuitry.Proofs.Meaning.Connection
import Circuitry.Proofs.Meaning.Extraction
import Circuitry.Proofs.Meaning.Selection

namespace Circuitry

namespace Trial

variable {T : Trial} {r r' : Script.Answer × Option Draft.Bundle}
  {before after before' after' : Script.World} {a b : String}

/-- What a call promises of the signals that it takes and makes.  Arithmetic has promises of its own, and
    calls that make no hardware promise nothing. -/
def Promise (T : Trial) (r : Script.Answer × Option Draft.Bundle) (before : Script.World) :
    Script.Call → Prop
  | .binary op a b => op.isArithmetic = false → ∃ x y z p q v,
      before.values.lookup a = some (.leaf x) ∧ before.values.lookup b = some (.leaf y) ∧
      r.2 = some (.leaf z) ∧ T.value? x = some p ∧ T.value? y = some q ∧ T.value? z = some v ∧
      op.Law p q v
  | .unary op a => ∃ x z p v,
      before.values.lookup a = some (.leaf x) ∧ r.2 = some (.leaf z) ∧
      T.value? x = some p ∧ T.value? z = some v ∧ op.Law p v
  | .extract a hi lo => ∃ x z,
      before.values.lookup a = some (.leaf x) ∧ r.2 = some (.leaf z) ∧ 0 ≤ lo ∧ lo ≤ hi ∧
      ∀ w, x.width = .known w → T.Takes x z hi.toNat lo.toNat
  | .bit a index => ∃ x z,
      before.values.lookup a = some (.leaf x) ∧ r.2 = some (.leaf z) ∧ 0 ≤ index ∧
      ∀ w, x.width = .known w → T.Takes x z index.toNat index.toNat
  | .mux c t f | .muxBundle c t f => ∃ s x y z,
      Script.Chosen before c t f s x y ∧ r.2 = some z ∧ T.SelectsAll s x y z
  | .connect target source => ∃ x y,
      before.values.lookup target = some x ∧ before.values.lookup source = some y ∧
      T.TransfersAll before.session.draft.commands.length x y
  | _ => True

/-- Every call keeps its promise. -/
theorem Calls.promise {use : Script.Call} (h : T.Calls use r before after) :
    T.Promise r before use := by
  cases use with
  | binary op a b =>
    intro _
    obtain ⟨x, y, z, p, q, v, hx, hy, hz, hp, hq, hv, hlaw⟩ := h.binary
    exact ⟨x, y, z, p, q, v, hx, hy, hz, hp.value, hq.value, hv.value, hlaw⟩
  | unary op a =>
    obtain ⟨x, z, p, v, hx, hz, hp, hv, hlaw⟩ := h.unary
    exact ⟨x, z, p, v, hx, hz, hp.value, hv.value, hlaw⟩
  | extract a hi lo => exact h.extract
  | bit a index => exact h.bit
  | mux c t f => exact h.mux
  | muxBundle c t f => exact h.muxBundle
  | connect target source => exact h.connect
  | _ => trivial

/-- Reading a signal with a sign, and the result without one, restores the bits. -/
theorem Calls.restores (h : T.Calls (.unary .asSInt a) r before after)
    (hback : T.Calls (.unary .asUInt b) r' before' after') (hresult : before'.values.lookup b = r.2) :
    ∃ x z p v, before.values.lookup a = some (.leaf x) ∧ r'.2 = some (.leaf z) ∧
      T.value? x = some p ∧ T.value? z = some v ∧ v.width = p.width ∧ v.raw = p.raw := by
  obtain ⟨x, y, p, q, hx, hy, hp, hq, -, hwidth, hraw⟩ := h.unary
  obtain ⟨y', z, q', v, hy', hz, hq', hv, -, hwidth', hraw'⟩ := hback.unary
  obtain rfl : y = y' := Shape.leaf.inj (Option.some.inj (hy.symm.trans (hresult.symm.trans hy')))
  obtain rfl := hq.unique hq'
  exact ⟨x, z, p, v, hx, hz, hp.value, hv.value, hwidth'.trans hwidth, hraw'.trans hraw⟩

/-- **Operators on bits, selections and connections are faithful.**  In every run that has come to rest,
    every call of the description has kept its promise, and what has been read with a sign and then
    without one has its bits back. -/
theorem operators_faithful (T : Trial) :
    (∀ {use : Script.Call} {r before after}, T.Calls use r before after → T.Promise r before use) ∧
    ∀ {a b : String} {r r' before before' after after'},
      T.Calls (.unary .asSInt a) r before after → T.Calls (.unary .asUInt b) r' before' after' →
      before'.values.lookup b = r.2 →
      ∃ x z p v, before.values.lookup a = some (.leaf x) ∧ r'.2 = some (.leaf z) ∧
        T.value? x = some p ∧ T.value? z = some v ∧ v.width = p.width ∧ v.raw = p.raw :=
  ⟨Calls.promise, Calls.restores⟩

end Trial

/-! ## A flag as a number -/

/-- A flag or a number of three bits, and the number with a sign and without it again. -/
def Script.flagOrNumber : Script :=
  let input (name : String) (kind : Kind) (width : UInt32) (rest : Script) : Script :=
    .call ⟨"", false, some name⟩
      (.declare (.port .input) name (.leaf (.template kind (.known width)))) rest
  input "c" .bool 1 <| input "t" .bool 1 <| input "u" .uint 3 <|
    .call ⟨"", false, some "m"⟩ (.mux "c" "t" "u") <|
    .call ⟨"", false, some "s"⟩ (.unary .asSInt "u") <|
    .call ⟨"", false, some "v"⟩ (.unary .asUInt "s") .done

/-- The flag is kept as a number of three bits, and five comes back from minus three. -/
theorem Trial.flagOrNumber_faithful : ∃ (T : Trial) (r r₁ r₂ : Script.Answer × Option Draft.Bundle)
    (before after before₁ after₁ before₂ after₂ : Script.World) (x z y u : Signal) (p v q : Value),
    (T.Calls (.mux "c" "t" "u") r before after ∧ before.values.lookup "t" = some (.leaf x) ∧
      r.2 = some (.leaf z) ∧ T.value? x = some p ∧ T.value? z = some v) ∧
    (x.kind = .bool ∧ z.kind = .uint ∧ p.number = 1 ∧ v.number = 1) ∧
    (T.Calls (.unary .asSInt "u") r₁ before₁ after₁ ∧ T.Calls (.unary .asUInt "s") r₂ before₂ after₂ ∧
      r₁.2 = some (.leaf y) ∧ r₂.2 = some (.leaf u) ∧ T.value? u = some q ∧ q.raw = 5) := by
  let w := Script.Memory.empty.world "t" .default
  let c : Signal := ⟨0, .bool, .known 1, none⟩
  let t : Signal := ⟨1, .bool, .known 1, none⟩
  let n : Signal := ⟨2, .uint, .known 3, none⟩
  let m : Signal := ⟨3, .uint, .known 3, none⟩
  let s : Signal := ⟨4, .sint, .known 3, none⟩
  let u : Signal := ⟨5, .uint, .known 3, none⟩
  let gs : List Bench.Setting := [.input "c" 1, .input "t" 1, .input "u" 5]
  have hselect : Script.flagOrNumber.signals? 3 w "c" "t" = some (c, t, m) := by decide +kernel
  have hsigned : Script.flagOrNumber.signals? 4 w "u" "u" = some (n, n, s) := by decide +kernel
  have hback : Script.flagOrNumber.signals? 5 w "s" "s" = some (s, s, u) := by decide +kernel
  have hvalues : Trial.tryValue? Script.flagOrNumber gs c = some ⟨1, 1, false⟩ ∧
      Trial.tryValue? Script.flagOrNumber gs t = some ⟨1, 1, false⟩ ∧
      Trial.tryValue? Script.flagOrNumber gs n = some ⟨5, 3, false⟩ := by
    decide +kernel
  obtain ⟨T, htries⟩ : ∃ T : Trial, T.Tries Script.flagOrNumber gs :=
    Trial.exists_tries (by decide +kernel)
  simp only [← htries.value?_eq] at hvalues
  obtain ⟨hc, ht, hn⟩ := hvalues
  obtain ⟨r, before, after, h, hcond, htrue, hm⟩ := htries.calls rfl hselect
  obtain ⟨r₁, before₁, after₁, h₁, hn₁, -, hs₁⟩ := htries.calls rfl hsigned
  obtain ⟨r₂, before₂, after₂, h₂, hs₂, -, hu⟩ := htries.calls rfl hback
  obtain ⟨hpromise, hrestores⟩ := Trial.operators_faithful T
  -- the selection takes the flag
  obtain ⟨c', x, y, z, hchosen, hz, hall⟩ := hpromise h
  obtain rfl : c = c' := Shape.leaf.inj (Option.some.inj (hcond.symm.trans hchosen.condition))
  obtain rfl : .leaf t = x := Option.some.inj (htrue.symm.trans hchosen.whenTrue)
  obtain rfl : .leaf m = z := Option.some.inj (hm.symm.trans hz)
  have hone : 0 < y.leaves.length := by
    rw [hall.right]
    decide
  obtain ⟨k, v, p, hk, hv, hp, hnumber⟩ :=
    hall.leaf 0 t _ m rfl (List.getElem?_eq_getElem hone) rfl
  obtain rfl := Option.some.inj (hc.symm.trans hk)
  obtain rfl := Option.some.inj (ht.symm.trans hp)
  -- the number comes back
  obtain ⟨n', u', p', q, hn', hu', hp', hq, -, hraw⟩ := hrestores h₁ h₂ (hs₂.trans hs₁.symm)
  obtain rfl : n = n' := Shape.leaf.inj (Option.some.inj (hn₁.symm.trans hn'))
  obtain rfl : u = u' := Shape.leaf.inj (Option.some.inj (hu.symm.trans hu'))
  obtain rfl := Option.some.inj (hn.symm.trans hp')
  exact ⟨T, r, r₁, r₂, before, after, before₁, after₁, before₂, after₂, t, m, s, u, _, v, q,
    ⟨h, htrue, hm, ht, hv⟩, ⟨rfl, rfl, by decide, hnumber⟩, h₁, h₂, hs₁, hu, hq, hraw⟩

end Circuitry
