/-
  Arithmetic and comparisons are exact from end to end.

  A description calls an operator on two variables, and an evaluation of its circuit has come to rest.
  Then the two operands and the result have values in it, and the result stands for the integer that the
  operator promises of the integers of its operands (`Binary.integer?`): sums, differences and products
  that may grow are exact, those that keep their width are reduced to it, quotients are truncated toward
  zero, and division by zero gives zero.

  No width is a hypothesis.  A node of more than 128 bits keeps an evaluation from starting, so in a
  trial there is none.
-/
import Circuitry.Proofs.Meaning.Operators

namespace Circuitry

namespace Script.Binary

/-- Arithmetic and comparisons, in contrast to operators on bits. -/
def isArithmetic : Binary → Bool
  | .addWide | .add | .subWide | .sub | .mul | .div | .rem => true
  | .lt | .leq | .gt | .geq | .eq | .neq => true
  | .and | .or | .xor | .logicAnd | .logicOr | .concat | .shiftLeftBy | .shiftRightBy => false

/-- What arithmetic promises is an integer. -/
theorem law_iff_of_isArithmetic {op : Binary} (hop : op.isArithmetic = true) {p q v : Value} :
    op.Law p q v ↔ op.integer? p.signed p.width q.width p.number q.number = some v.number := by
  cases op with
  | and | or | xor | logicAnd | logicOr | concat | shiftLeftBy | shiftRightBy => cases hop
  | _ => exact Iff.rfl

end Script.Binary

/-- **Arithmetic and comparisons are exact.**  Wherever a description calls one of these operators, in
    every evaluation of the circuit that has come to rest, the result stands for the integer that the
    operator promises of the two operands. -/
theorem Trial.Calls.arithmetic_exact {T : Trial} {op : Script.Binary} {a b : String}
    {r : Script.Answer × Option Draft.Bundle} {before after : Script.World}
    (hop : op.isArithmetic = true) (h : T.Calls (.binary op a b) r before after) :
    ∃ x y z p q v,
      before.values.lookup a = some (.leaf x) ∧ before.values.lookup b = some (.leaf y) ∧
      r.2 = some (.leaf z) ∧
      T.value? x = some p ∧ T.value? y = some q ∧ T.value? z = some v ∧
      op.integer? p.signed p.width q.width p.number q.number = some v.number := by
  obtain ⟨x, y, z, p, q, v, hx, hy, hz, hp, hq, hv, hlaw⟩ := h.binary
  exact ⟨x, y, z, p, q, v, hx, hy, hz, hp.value, hq.value, hv.value,
    (Script.Binary.law_iff_of_isArithmetic hop).1 hlaw⟩

/-- The quotient of two inputs of three and two bits, both with a sign. -/
def Script.quotient : Script :=
  let input (name : String) (width : UInt32) (rest : Script) : Script :=
    .call ⟨"", false, some name⟩
      (.declare (.port .input) name (.leaf (.template .sint (.known width)))) rest
  input "a" 3 <| input "b" 2 <| .call ⟨"", false, some "r"⟩ (.binary .div "a" "b") .done

/-- Minus four by minus one would be four, which is minus four in three bits. -/
theorem Trial.quotient_exact : ∃ (T : Trial) (r : Script.Answer × Option Draft.Bundle)
    (before after : Script.World) (x y z : Signal) (p q v : Value),
    T.Calls (.binary .div "a" "b") r before after ∧
    before.values.lookup "a" = some (.leaf x) ∧ before.values.lookup "b" = some (.leaf y) ∧
    r.2 = some (.leaf z) ∧ T.value? x = some p ∧ T.value? y = some q ∧ T.value? z = some v ∧
    p.number = -4 ∧ q.number = -1 ∧ v.number = -4 := by
  let x : Signal := ⟨0, .sint, .known 3, none⟩
  let y : Signal := ⟨1, .sint, .known 2, none⟩
  let gs : List Bench.Setting := [.input "a" 4, .input "b" 3]
  have hplace : Script.quotient.signals? 2 (Script.Memory.empty.world "t" .default) "a" "b" =
      some (x, y, ⟨2, .sint, .known 3, none⟩) := by
    decide +kernel
  have hvalues : Trial.tryValue? Script.quotient gs x = some ⟨4, 3, true⟩ ∧
      Trial.tryValue? Script.quotient gs y = some ⟨3, 2, true⟩ := by
    decide +kernel
  obtain ⟨T, htries⟩ : ∃ T : Trial, T.Tries Script.quotient gs :=
    Trial.exists_tries (by decide +kernel)
  obtain ⟨r, before, after, h, hx, hy, -⟩ := htries.calls rfl hplace
  obtain ⟨x₁, y₁, z, p, q, v, hx₁, hy₁, hz, hp, hq, hv, hnumber⟩ :=
    Trial.Calls.arithmetic_exact rfl h
  obtain rfl : x = x₁ := Shape.leaf.inj (Option.some.inj (hx.symm.trans hx₁))
  obtain rfl : y = y₁ := Shape.leaf.inj (Option.some.inj (hy.symm.trans hy₁))
  obtain rfl := Option.some.inj (hvalues.1.symm.trans ((htries.value?_eq x).symm.trans hp))
  obtain rfl := Option.some.inj (hvalues.2.symm.trans ((htries.value?_eq y).symm.trans hq))
  exact ⟨T, r, before, after, x, y, z, _, _, v, h, hx, hy, hz, hp, hq, hv, by decide, by decide,
    (Option.some.inj hnumber).symm⟩

end Circuitry
