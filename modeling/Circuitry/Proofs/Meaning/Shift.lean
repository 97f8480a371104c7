/-
  Shifts by signals: what they lose.

  A left shift by a signal has room for the largest amount that the signal can hold.  The bits that are
  shifted are the raw bits of the operand, so with a smaller amount the room above them is filled with
  zeros, whatever the sign.

  1. Without a sign, and for integers that are not negative, the result is the exact product.
  2. Negative integers come out exact for the largest amount only.  For every other one their raw bits
     are read as if there were no sign (`number_shifted`).
  3. The shift back is exact in the same cases, and gives the raw bits in the others
     (`Trial.Calls.shift_number`).
-/
import Circuitry.Proofs.Meaning.Operators

namespace Circuitry

namespace Script

variable {p q v u : Value}

/-- What is shifted by a value: the integer for the largest amount, and the raw bits for all others. -/
def shiftedNumber (p q : Value) : Int := if q.raw = 2 ^ q.width - 1 then p.number else p.raw

/-- Only the sign can make a difference. -/
theorem shiftedNumber_eq_iff (hp : p.Fits) :
    shiftedNumber p q = p.number ↔ 0 ≤ p.number ∨ q.raw = 2 ^ q.width - 1 := by
  unfold shiftedNumber
  split
  · next hmax => simp [hmax]
  · next hmax =>
    constructor
    · intro hraw
      exact Or.inl (hraw ▸ Int.natCast_nonneg p.raw)
    · rintro (hpos | hraw)
      · -- an integer that is not negative is the one that its bits are without a sign
        have hcut := cast_cut p.width p.number
        have hlt : p.number < 2 ^ p.width := by
          have hspan := hp.inSpan
          unfold InSpan at hspan
          split at hspan <;> omega
        rw [hp.cut_number, Int.emod_eq_of_lt hpos hlt] at hcut
        exact hcut
      · exact absurd hraw hmax

/-- Below the largest amount the top bit of the result is free. -/
theorem inSpan_shifted (hp : p.Fits) (signed : Bool) {n : Nat} (hn : q.raw < n) :
    InSpan signed (p.width + n) ((p.raw * 2 ^ q.raw : Nat) : Int) := by
  have hlt : 2 * (p.raw * 2 ^ q.raw) < 2 ^ (p.width + n) :=
    calc 2 * (p.raw * 2 ^ q.raw)
        = p.raw * 2 ^ (q.raw + 1) := by rw [Nat.pow_succ]; ring
      _ < 2 ^ p.width * 2 ^ (q.raw + 1) :=
        Nat.mul_lt_mul_of_pos_right hp.raw_lt (Nat.two_pow_pos _)
      _ = 2 ^ (p.width + (q.raw + 1)) := (Nat.pow_add ..).symm
      _ ≤ 2 ^ (p.width + n) := Nat.pow_le_pow_right (by decide) (Nat.add_le_add_left hn _)
  have hpos := two_pow_pos (p.width + n)
  have hcast : 2 * ((p.raw * 2 ^ q.raw : Nat) : Int) < 2 ^ (p.width + n) := by exact_mod_cast hlt
  cases signed with
  | true =>
    constructor <;> omega
  | false =>
    constructor <;> omega

/-- **What a left shift by a value comes to.** -/
theorem number_shifted (hp : p.Fits) (hq : q.Fits) (hv : v.Fits)
    (hlaw : Binary.Law .shiftLeftBy p q v) : v.number = shiftedNumber p q * 2 ^ q.raw := by
  obtain ⟨hsigned, hwidth, hraw⟩ := hlaw
  rw [hv.number_eq_fit, hsigned, hwidth, hraw, shiftedNumber]
  split
  · next hmax =>
    have hmod : ((p.raw * 2 ^ q.raw : Nat) : Int) ≡ p.number * 2 ^ q.raw
        [ZMOD 2 ^ (p.width + q.raw)] := by
      have hshift := hp.raw_modEq.mul_right' (c := 2 ^ q.raw)
      rw [pow_add]
      exact_mod_cast hshift
    rw [← hmax, ← Value.number_cut, cut, hmod, ← cut, Value.number_cut,
      fit_of_inSpan (hp.inSpan.shift q.raw)]
  · next hmax =>
    have hlt : q.raw < 2 ^ q.width - 1 := by
      have := hq.raw_lt
      omega
    rw [fit_of_inSpan (inSpan_shifted hp _ hlt)]
    exact_mod_cast rfl

/-- And shifted back. -/
theorem number_shiftedBack (hp : p.Fits) (hq : q.Fits) (hv : v.Fits)
    (hlaw : Binary.Law .shiftLeftBy p q v) (hback : Binary.Law .shiftRightBy v q u) :
    u.number = shiftedNumber p q := by
  rw [hback.2, number_shifted hp hq hv hlaw]
  exact Int.mul_ediv_cancel _ (Int.ne_of_gt (two_pow_pos q.raw))

end Script

/-- **What shifts by signals lose.**  In every evaluation that has come to rest, a left shift by a signal
    gives the exact product if and only if the operand is not negative or the amount is the largest one;
    otherwise the raw bits of the operand are shifted.  A shift of the result back to the right gives what
    has been shifted. -/
theorem Trial.Calls.shift_number {T : Trial} {a n : String} {r : Script.Answer × Option Draft.Bundle}
    {before after : Script.World} (h : T.Calls (.binary .shiftLeftBy a n) r before after) :
    ∃ x y z p q v,
      before.values.lookup a = some (.leaf x) ∧ before.values.lookup n = some (.leaf y) ∧
      r.2 = some (.leaf z) ∧
      T.value? x = some p ∧ T.value? y = some q ∧ T.value? z = some v ∧
      v.number = (if q.raw = 2 ^ q.width - 1 then p.number else p.raw) * 2 ^ q.raw ∧
      (v.number = p.number * 2 ^ q.raw ↔ 0 ≤ p.number ∨ q.raw = 2 ^ q.width - 1) ∧
      ∀ {a' n' : String} {r' : Script.Answer × Option Draft.Bundle} {before' after' : Script.World},
        T.Calls (.binary .shiftRightBy a' n') r' before' after' →
        before'.values.lookup a' = some (.leaf z) → before'.values.lookup n' = some (.leaf y) →
        ∃ z' u, r'.2 = some (.leaf z') ∧ T.value? z' = some u ∧
          u.number = (if q.raw = 2 ^ q.width - 1 then p.number else p.raw) ∧
          (u.number = p.number ↔ 0 ≤ p.number ∨ q.raw = 2 ^ q.width - 1) := by
  obtain ⟨x, y, z, p, q, v, hx, hy, hz, hp, hq, hv, hlaw⟩ := h.binary
  have hnumber := Script.number_shifted hp.fits hq.fits hv.fits hlaw
  refine ⟨x, y, z, p, q, v, hx, hy, hz, hp.value, hq.value, hv.value, hnumber, ?_, ?_⟩
  · rw [hnumber, Int.mul_eq_mul_right_iff (Int.ne_of_gt (two_pow_pos q.raw))]
    exact Script.shiftedNumber_eq_iff hp.fits
  · intro a' n' r' before' after' hback hz' hy'
    obtain ⟨x', y', z', p', q', u, hx', hn', hr', hp', hq', hu, hlaw'⟩ := hback.binary
    obtain rfl : z = x' := Shape.leaf.inj (Option.some.inj (hz'.symm.trans hx'))
    obtain rfl : y = y' := Shape.leaf.inj (Option.some.inj (hy'.symm.trans hn'))
    obtain rfl := hp'.unique hv
    obtain rfl := hq'.unique hq
    have hback := Script.number_shiftedBack hp.fits hq.fits hv.fits hlaw hlaw'
    refine ⟨z', u, hr', hu.value, hback, ?_⟩
    rw [hback]
    exact Script.shiftedNumber_eq_iff hp.fits

/-! ## A sign that is lost -/

/-- An input of four bits with a sign, shifted to the left by another input of two bits, and back. -/
def Script.thereAndBack : Script :=
  let input (name : String) (kind : Kind) (width : UInt32) (rest : Script) : Script :=
    .call ⟨"", false, some name⟩
      (.declare (.port .input) name (.leaf (.template kind (.known width)))) rest
  input "a" .sint 4 <| input "n" .uint 2 <|
    .call ⟨"", false, some "r"⟩ (.binary .shiftLeftBy "a" "n") <|
    .call ⟨"", false, some "s"⟩ (.binary .shiftRightBy "r" "n") .done

namespace Trial

/-- Minus one by one place, there and back. -/
theorem thereAndBack_tried : ∃ (T : Trial) (r r' : Script.Answer × Option Draft.Bundle)
    (before after before' after' : Script.World) (x y z z' : Signal),
    T.Calls (.binary .shiftLeftBy "a" "n") r before after ∧
    (before.values.lookup "a" = some (.leaf x) ∧ before.values.lookup "n" = some (.leaf y) ∧
      r.2 = some (.leaf z)) ∧
    T.Calls (.binary .shiftRightBy "r" "n") r' before' after' ∧
    (before'.values.lookup "r" = some (.leaf z) ∧ before'.values.lookup "n" = some (.leaf y) ∧
      r'.2 = some (.leaf z')) ∧
    T.value? x = some ⟨15, 4, true⟩ ∧ T.value? y = some ⟨1, 2, false⟩ ∧
    T.value? z = some ⟨30, 7, true⟩ ∧ T.value? z' = some ⟨15, 7, true⟩ := by
  let w := Script.Memory.empty.world "t" .default
  let x : Signal := ⟨0, .sint, .known 4, none⟩
  let y : Signal := ⟨1, .uint, .known 2, none⟩
  let z : Signal := ⟨2, .sint, .known 7, none⟩
  let z' : Signal := ⟨3, .sint, .known 7, none⟩
  let gs : List Bench.Setting := [.input "a" 15, .input "n" 1]
  have hthere : Script.thereAndBack.signals? 2 w "a" "n" = some (x, y, z) := by decide +kernel
  have hback : Script.thereAndBack.signals? 3 w "r" "n" = some (z, y, z') := by decide +kernel
  obtain ⟨T, htries⟩ : ∃ T : Trial, T.Tries Script.thereAndBack gs :=
    exists_tries (by decide +kernel)
  obtain ⟨r, before, after, hcalls, hoperands⟩ := htries.calls rfl hthere
  obtain ⟨r', before', after', hcalls', hoperands'⟩ := htries.calls rfl hback
  refine ⟨T, r, r', before, after, before', after', x, y, z, z', hcalls, hoperands, hcalls',
    hoperands', ?_⟩
  simp only [htries.value?_eq]
  decide +kernel

/-- Minus one is shifted like fifteen, and comes back as fifteen. -/
theorem shiftedMinusOne_number : ∃ (T : Trial) (r : Script.Answer × Option Draft.Bundle)
    (before after : Script.World) (x z : Signal) (p v : Value),
    T.Calls (.binary .shiftLeftBy "a" "n") r before after ∧
    before.values.lookup "a" = some (.leaf x) ∧ r.2 = some (.leaf z) ∧
    T.value? x = some p ∧ T.value? z = some v ∧ p.number = -1 ∧ v.number = 15 * 2 ∧
    ∃ r' before' after' z' u, T.Calls (.binary .shiftRightBy "r" "n") r' before' after' ∧
      r'.2 = some (.leaf z') ∧ T.value? z' = some u ∧ u.number = 15 := by
  obtain ⟨T, r, r', before, after, before', after', x, y, z, z', h, ⟨hx, hy, hz⟩, hback,
    ⟨hx', hy', hz'⟩, hp, hq, -, -⟩ := thereAndBack_tried
  obtain ⟨x₁, y₁, z₁, p, q, v, hx₁, hy₁, hz₁, hp₁, hq₁, hv, hnumber, -, hreturns⟩ :=
    Calls.shift_number h
  obtain rfl : x = x₁ := Shape.leaf.inj (Option.some.inj (hx.symm.trans hx₁))
  obtain rfl : y = y₁ := Shape.leaf.inj (Option.some.inj (hy.symm.trans hy₁))
  obtain rfl : z = z₁ := Shape.leaf.inj (Option.some.inj (hz.symm.trans hz₁))
  obtain rfl := Option.some.inj (hp.symm.trans hp₁)
  obtain rfl := Option.some.inj (hq.symm.trans hq₁)
  obtain ⟨z₂, u, hz₂, hu, hreturn, -⟩ := hreturns hback hx' hy'
  exact ⟨T, r, before, after, x, z, _, v, h, hx, hz, hp, hv, by decide, hnumber, r', before', after',
    z₂, u, hback, hz₂, hu, hreturn⟩

/-- **A sign that is lost.**  The value of a left shift by a signal need not be the product, and the
    shift back need not restore the operand. -/
theorem shift_inexact : ∃ (T : Trial) (r r' : Script.Answer × Option Draft.Bundle)
    (before after before' after' : Script.World) (x y z z' : Signal) (p q v u : Value),
    T.Calls (.binary .shiftLeftBy "a" "n") r before after ∧
    (before.values.lookup "a" = some (.leaf x) ∧ before.values.lookup "n" = some (.leaf y) ∧
      r.2 = some (.leaf z)) ∧
    T.Calls (.binary .shiftRightBy "r" "n") r' before' after' ∧
    (before'.values.lookup "r" = some (.leaf z) ∧ before'.values.lookup "n" = some (.leaf y) ∧
      r'.2 = some (.leaf z')) ∧
    (T.value? x = some p ∧ T.value? y = some q ∧ T.value? z = some v ∧ T.value? z' = some u) ∧
    v.number ≠ p.number * 2 ^ q.raw ∧ u.number ≠ p.number := by
  obtain ⟨T, r, r', before, after, before', after', x, y, z, z', h, hoperands, hback, hoperands',
    hvalues⟩ := thereAndBack_tried
  exact ⟨T, r, r', before, after, before', after', x, y, z, z', _, _, _, _, h, hoperands, hback,
    hoperands', hvalues, by decide, by decide⟩

end Trial

end Circuitry
