/-
  A selection between aggregates is one between their leaves.

  A selection between two aggregates is a single operator with lists for operands, and its result is a row
  of field nodes that the evaluator writes one after the other.  A selection between ground signals is an
  operator of three operands with a node of its own.  For all that, each leaf of the first is what the
  second makes of the leaves in its place.

  1. It has the same kind and the same width, in every description (`muxFields_leafwise`): where two
     aggregates agree the leaves are equally wide, so the wider of two is either of them.
  2. In a run that has come to rest it has the value that the operator has on the values of the condition
     and of both leaves (`Passed.muxOf_leaf`).  The evaluator reads one branch only, but the leaves of the
     other one have values as well (`Passed.has_of_reads`).
  3. So wherever the description selects between these very leaves, the result is the same
     (`ValuedAsMux.same`).

  No leaf is special in this: it may be a literal, a flag beside a number, or a field of an earlier
  selection.
-/
import Circuitry.Proofs.Meaning.Selection

namespace Circuitry

open Draft (Session freshSignals)
open Draft.Session (Step Proper)

/-- The wider of two equal widths. -/
theorem Width.max_self (a : Width) : a.max a = a := by
  cases a with
  | unknown => rfl
  | known u =>
    have hu := u.toNat_lt
    refine congrArg Width.known (UInt32.toNat_inj.1 ?_)
    rw [toNat_saturate]
    simp only [limit]
    show min (Nat.max u.toNat u.toNat) (2 ^ 32 - 1) = u.toNat
    rw [show Nat.max u.toNat u.toNat = u.toNat from Nat.max_self _]
    omega

/-! ## Kinds and widths -/

namespace Draft

variable {w w' : Session}

/-- Signals that can be operands are read in order. -/
theorem run_operands {ss : List Signal} {as : List Operand} (h : List.Forall₂ w.Reads ss as) :
    operands ss w = .ok as w := by
  induction h with
  | nil => rfl
  | cons ha _ ih =>
    unfold operands
    rw [bind_of_ok (run_operand ha), bind_of_ok ih]
    rfl

/-- A selection between ground signals whose kinds go together. -/
theorem run_mux {c a b : Signal} {args : List Operand}
    (hreads : List.Forall₂ w.Reads [c, a, b] args) {kind : Kind}
    (hkind : mergeKinds? a.kind b.kind = some kind) :
    mux c a b w = .ok (w.resultSignal kind (a.width.max b.width))
      (w.defined .mux args kind (a.width.max b.width)) := by
  unfold mux
  rw [bind_of_ok (run_operands hreads), hkind]
  rfl

/-- Leaf by leaf, the kinds and widths are those of what `mux` makes. -/
structure MuxedLeafwise (w : Session) (c : Signal) (ts fs zs : List Signal) : Prop where
  left : ts.length = zs.length
  right : fs.length = zs.length
  leaf : ∀ (k : Nat) a b u, ts[k]? = some a → fs[k]? = some b → zs[k]? = some u →
    ∃ m w', mux c a b w = .ok m w' ∧ m.kind = u.kind ∧ m.width = u.width

theorem muxFields_leafwise {c : Signal} {t f fields : Shape.Fields Signal}
    (h : muxFields c t f w = .ok fields w') :
    MuxedLeafwise w c (Shape.fieldLeaves t) (Shape.fieldLeaves f) (Shape.fieldLeaves fields) := by
  obtain ⟨x, as, bs, types, hcond, htrue, hfalse, hmerges, hfields, -⟩ := muxFields_eq_ok h
  have hlen : (Shape.fieldLeaves fields).length = (Shape.fieldLeaves types).length := by
    rw [hfields, length_freshSignals]
  refine ⟨hmerges.left.trans hlen.symm, hmerges.right.trans hlen.symm, fun k a b u ha hb hu => ?_⟩
  obtain ⟨y, -, hy⟩ := exists_of_forall₂ htrue ha
  obtain ⟨z, -, hz⟩ := exists_of_forall₂ hfalse hb
  rw [hfields, getElem?_freshSignals] at hu
  obtain ⟨type, htype, rfl⟩ := Option.map_eq_some_iff.1 hu
  obtain ⟨hkind, hsame, heq⟩ := hmerges.leaf k a b type ha hb htype
  refine ⟨_, _, run_mux (.cons hcond (.cons hy (.cons hz .nil))) hkind, rfl, ?_⟩
  -- both leaves are equally wide
  show Signals.groundWidth type.1 (a.width.max b.width) = Signals.groundWidth type.1 type.2
  rw [← hsame, Width.max_self, show type.2 = _ from congrArg Prod.snd heq]
  exact (Signals.groundWidth_groundWidth _ _).symm

end Draft

/-- A call that makes a selection, of ground values or of aggregates. -/
theorem Script.selection_eq_ok {use : Call} {cond t f : String} {w w' : World}
    {r : Answer × Option Draft.Bundle} {c : Signal} {x y : Draft.Bundle}
    (huse : use = .mux cond t f ∨ use = .muxBundle cond t f) (hchosen : Chosen w cond t f c x y)
    (h : meaning use w = .ok r w') :
    ∃ z v, Draft.muxBundle c x y w.session = .ok z v ∧ r.2 = some z ∧
      w' = { w with session := v } := by
  obtain ⟨c', x', y', z, v, hchosen', hrun, hr, hw'⟩ : ∃ c x y z v, Chosen w cond t f c x y ∧
      Draft.muxBundle c x y w.session = .ok z v ∧ r.2 = some z ∧ w' = { w with session := v } := by
    rcases huse with rfl | rfl
    · exact meaning_mux_eq_ok h
    · exact meaning_muxBundle_eq_ok h
  obtain rfl : c = c' :=
    Shape.leaf.inj (Option.some.inj (hchosen.condition.symm.trans hchosen'.condition))
  obtain rfl : x = x' := Option.some.inj (hchosen.whenTrue.symm.trans hchosen'.whenTrue)
  obtain rfl : y = y' := Option.some.inj (hchosen.whenFalse.symm.trans hchosen'.whenFalse)
  exact ⟨z, v, hrun, hr, hw'⟩

/-! ## Values -/

namespace Trial

variable {T : Trial}

/-- The signal `u` is as the operator makes one of `a` and `b`: it has the merged kind and the wider
    width, and the value that the operator has on the values of `c`, `a` and `b`. -/
structure MuxOf (T : Trial) (c a b u : Signal) : Prop where
  kind : Draft.mergeKinds? a.kind b.kind = some u.kind
  width : u.width = a.width.max b.width
  value : ∃ q p v W, T.Has c q ∧ T.Has a p ∧ T.Has b v ∧ u.width = .known W ∧
    T.value? u = some ⟨Operator.apply .mux [q, p, v] W.toNat, W.toNat, u.kind.isSigned⟩

/-- There is one way only to be so. -/
theorem MuxOf.same {c a b u m : Signal} (h : T.MuxOf c a b u) (hm : T.MuxOf c a b m) :
    m.kind = u.kind ∧ m.width = u.width ∧ T.value? m = T.value? u := by
  obtain ⟨hkind, hwidth, q, p, v, W, hq, hp, hv, hW, hvalue⟩ := h
  obtain ⟨hkind', hwidth', q', p', v', W', hq', hp', hv', hW', hvalue'⟩ := hm
  have hk : m.kind = u.kind := Option.some.inj (hkind'.symm.trans hkind)
  obtain rfl := hq.unique hq'
  obtain rfl := hp.unique hp'
  obtain rfl := hv.unique hv'
  obtain rfl : W' = W := Width.known.inj (hW'.symm.trans (hwidth'.trans (hwidth.symm.trans hW)))
  exact ⟨hk, hW'.trans hW.symm, by rw [hvalue', hvalue, hk]⟩

/-- The signal `u` is as the operator makes it, and so is whatever the description makes of the same
    signals with a selection. -/
structure ValuedAsMux (T : Trial) (c a b u : Signal) : Prop where
  made : T.MuxOf c a b u
  same : ∀ {use : Script.Call} {cond t f : String} {r before after m},
    use = .mux cond t f ∨ use = .muxBundle cond t f → T.Calls use r before after →
    Script.Chosen before cond t f c (.leaf a) (.leaf b) → r.2 = some (.leaf m) →
    m.kind = u.kind ∧ m.width = u.width ∧ T.value? m = T.value? u

namespace Passed

variable {L : List Signal} {w w' : Session}

/-- A signal that can be an operand has a value, whether or not anything reads it. -/
theorem has_of_reads (h : T.Passed w) (hw : w.Proper L) {s : Signal} (hs : s ∈ L) {x : Operand}
    (hx : w.Reads s x) {W : UInt32} (hwidth : s.width = .known W) (hle : W.toNat ≤ Value.maxWidth) :
    ∃ v, T.Has s v := by
  cases hx with
  | @literal b hb =>
    have hsuits := (hw.suited.signals s hs).payload b hb
    rw [hwidth] at hsuits
    refine ⟨_, value?_of_literal hb, ?_, ?_⟩
    · rw [hwidth]
      exact hsuits.value_lt
    · rw [hwidth]
      exact hle
  | @node b hb hc =>
    obtain ⟨n, hn, -, hty⟩ := (h.consistent hw).bound s hs b hb hc
    have hW : T.bench.width b.id = .ok W.toNat :=
      Bench.width_eq_ok.2 ⟨n, s.kind, W, h.node? hn, by rw [hty, Signal.ty, hwidth], rfl⟩
    exact ⟨_, h.reads hw hs (.node hb hc) (Bench.value?_node.2 ⟨n, _, h.node? hn, hW, rfl⟩)⟩

/-- **A leaf of a selection** between aggregates is as the operator makes it of the leaves in its
    place. -/
theorem muxOf_leaf {c : Signal} {t f fields : Shape.Fields Signal} (h : T.Passed w')
    (hw : w.Proper L) (known : c :: (Shape.fieldLeaves t ++ Shape.fieldLeaves f) ⊆ L)
    (hrun : Draft.muxFields c t f w = .ok fields w') {k : Nat} {a b u : Signal}
    (ha : (Shape.fieldLeaves t)[k]? = some a) (hb : (Shape.fieldLeaves f)[k]? = some b)
    (hu : (Shape.fieldLeaves fields)[k]? = some u) :
    T.MuxOf c a b u := by
  obtain ⟨x, as, bs, types, hcond, htrue, hfalse, hmerges, hfields, rfl⟩ := Draft.muxFields_eq_ok hrun
  have hpassed : T.Passed w := by
    refine h.back_step (.select c _ _ x as bs types hcond htrue hfalse
      (hmerges.left.trans hmerges.right.symm) hmerges.left.symm hmerges.grounded known) hw
  obtain ⟨hc, hbranches⟩ := List.cons_subset.1 known
  obtain ⟨hts, hfs⟩ := List.append_subset.1 hbranches
  have haL := hts (List.mem_of_getElem? ha)
  have hbL := hfs (List.mem_of_getElem? hb)
  obtain ⟨q, va, vb, W, hq, hva, hvb, hwidth, hle, hvalue⟩ :=
    h.selectedLeaf hw hpassed known hcond htrue hfalse ha hb (hfields ▸ hu)
  -- both leaves are as wide as the result, so both have values
  obtain ⟨hkind, hwa, hwb⟩ := hmerges.fresh ha hb (hfields ▸ hu) (hw.suited.signals a haL).grounded
    (hw.suited.signals b hbL).grounded
  have hmax : u.width = a.width.max b.width := by rw [hwa, hwb, Width.max_self]
  obtain ⟨y, -, hy⟩ := Draft.exists_of_forall₂ htrue ha
  obtain ⟨z, -, hz⟩ := Draft.exists_of_forall₂ hfalse hb
  obtain ⟨p, hp⟩ := hpassed.has_of_reads hw haL hy (hwa.trans hwidth) hle
  obtain ⟨v, hv⟩ := hpassed.has_of_reads hw hbL hz (hwb.trans hwidth) hle
  refine ⟨hkind, hmax, q, p, v, W, hq, hp, hv, hwidth, ?_⟩
  rw [hvalue, Operator.apply_mux hle, Operator.apply_mux hle]
  cases htrue : q.isTrue with
  | true => rw [(hva htrue).unique hp]; rfl
  | false => rw [(hvb htrue).unique hv]; rfl

end Passed

namespace Calls

variable {use : Script.Call} {r : Script.Answer × Option Draft.Bundle}
  {before after : Script.World} {cond t f : String}

/-- A call that selects between ground signals makes what the operator makes. -/
theorem muxOf (h : T.Calls use r before after)
    (huse : use = .mux cond t f ∨ use = .muxBundle cond t f) {c a b m : Signal}
    (hchosen : Script.Chosen before cond t f c (.leaf a) (.leaf b)) (hm : r.2 = some (.leaf m)) :
    T.MuxOf c a b m := by
  obtain ⟨z, v, hrun, hr, rfl⟩ := Script.selection_eq_ok huse hchosen h.call
  obtain ⟨u, w₁, hu, hret⟩ := bind_eq_ok.1 hrun
  obtain ⟨rfl, rfl⟩ := EStateM.Result.ok.inj hret
  obtain rfl : u = m := Shape.leaf.inj (Option.some.inj (hr.symm.trans hm))
  obtain ⟨hkind, hwidth, q, p, v, W, hq, hp, hv, hground, -, hvalue⟩ :=
    Passed.mux_value h.passed h.proper hchosen.known hu
  exact ⟨hkind, hwidth, q, p, v, W, hq, hp, hv, hground, hvalue⟩

end Calls

end Trial

/-- **Selections between aggregates are leaf by leaf.**  If a call selects between two aggregates, the
    leaves of its result have the kinds and widths of what `mux` makes of the leaves in their places; and
    in every run that has come to rest, of every circuit in whose description the call is, they have the
    values of what `mux` makes of these leaves. -/
theorem Script.selections_leafwise {use : Call} {cond t f : String} {w w' : World}
    {r : Answer × Option Draft.Bundle} {c : Signal} {ts fs : Shape.Fields Signal}
    (huse : use = .mux cond t f ∨ use = .muxBundle cond t f)
    (hchosen : Chosen w cond t f c (.group ts) (.group fs)) (h : meaning use w = .ok r w') :
    ∃ zs, r.2 = some (.group zs) ∧
      Draft.MuxedLeafwise w.session c (Shape.fieldLeaves ts) (Shape.fieldLeaves fs)
        (Shape.fieldLeaves zs) ∧
      ∀ T : Trial, T.Calls use r w w' → ∀ (k : Nat) a b u, (Shape.fieldLeaves ts)[k]? = some a →
        (Shape.fieldLeaves fs)[k]? = some b → (Shape.fieldLeaves zs)[k]? = some u →
          T.ValuedAsMux c a b u := by
  obtain ⟨z, v, hrun, hr, rfl⟩ := selection_eq_ok huse hchosen h
  obtain ⟨zs, w₁, hfields, hret⟩ := bind_eq_ok.1 hrun
  obtain ⟨rfl, rfl⟩ := EStateM.Result.ok.inj hret
  refine ⟨zs, hr, Draft.muxFields_leafwise hfields, fun T hcalls k a b u ha hb hu => ?_⟩
  have hmade : T.MuxOf c a b u :=
    Trial.Passed.muxOf_leaf hcalls.passed hcalls.proper hchosen.known hfields ha hb hu
  constructor
  · exact hmade
  · intro use' cond' t' f' r' before after m huse' hcalls' hchosen' hm
    exact hmade.same (hcalls'.muxOf huse' hchosen' hm)

/-! ## A literal through two selections -/

namespace Script

/-- The condition and the leaves of both branches at a call between aggregates, and the leaves of what
    the call makes. -/
def selection? (n : Nat) (s : Script) (w : World) (cond t f : String) :
    Option (Signal × List Signal × List Signal × List Signal) := do
  let (r, before, _) ← made? n s w
  match before.values.lookup cond, before.values.lookup t, before.values.lookup f, r.2 with
  | some (.leaf c), some (.group ts), some (.group fs), some (.group zs) =>
    return (c, Shape.fieldLeaves ts, Shape.fieldLeaves fs, Shape.fieldLeaves zs)
  | _, _, _, _ => none

theorem made_of_selection? {n : Nat} {s : Script} {w : World} {cond t f : String} {c : Signal}
    {xs ys zs : List Signal} (h : selection? n s w cond t f = some (c, xs, ys, zs)) :
    ∃ r before after ts fs z, made? n s w = some (r, before, after) ∧
      Chosen before cond t f c (.group ts) (.group fs) ∧ r.2 = some (.group z) ∧
      Shape.fieldLeaves ts = xs ∧ Shape.fieldLeaves fs = ys ∧ Shape.fieldLeaves z = zs := by
  obtain ⟨⟨r, before, after⟩, hmade, h⟩ := Option.bind_eq_some_iff.1 h
  simp only at h
  split at h
  · next c' ts fs z hc ht hf hr =>
    cases h
    exact ⟨r, before, after, ts, fs, z, hmade, ⟨hc, ht, hf⟩, hr, rfl, rfl, rfl⟩
  · cases h

/-- A flag beside a number of one bit, and a number beside a literal inside an aggregate; then the second
    leaf of what is selected, beside the number again, as an aggregate and on its own. -/
def twofold : Script :=
  let call (name : String) (use : Call) (rest : Script) : Script := .call ⟨"", false, some name⟩ use rest
  let input (name : String) (kind : Kind) (width : UInt32) (rest : Script) : Script :=
    call name (.declare (.port .input) name (.leaf (.template kind (.known width)))) rest
  let had (name : String) : Shape Leaf := .leaf (.variable name)
  input "c" .bool 1 <| input "p" .bool 1 <| input "n" .uint 1 <| input "u" .uint 3 <|
    call "five" (.literalUInt 5 (.known 3)) <|
    call "t" (.aggregate (.group [("flag", had "p"), ("rest", .group [("num", had "u")])])) <|
    call "f" (.aggregate
      (.group [("flag", had "n"), ("rest", .group [("num", had "five")])])) <|
    call "m" (.mux "c" "t" "f") <|
    call "e" (.leaf "m" 1) <|
    call "t2" (.aggregate (.group [("x", .group [("y", had "u")])])) <|
    call "f2" (.aggregate (.group [("x", .group [("y", had "e")])])) <|
    call "d" (.muxBundle "c" "t2" "f2") <|
    call "g" (.mux "c" "u" "e") .done

end Script

/-- Where the condition does not hold, the literal goes through both selections, and the selection between
    ground signals has it as well. -/
theorem Trial.twofold_leafwise : ∃ (T : Trial) (c p n u five flag num z g : Signal)
    (r : Script.Answer × Option Draft.Bundle) (before after : Script.World),
    (p.kind = .bool ∧ n.kind = .uint ∧ flag.kind = .uint ∧ five.literal = some (.ofNat 3 5)) ∧
    T.ValuedAsMux c p n flag ∧ T.ValuedAsMux c u five num ∧ T.ValuedAsMux c u num z ∧
    (T.Calls (.mux "c" "u" "e") r before after ∧ r.2 = some (.leaf g)) ∧
    T.value? z = some ⟨5, 3, false⟩ ∧ T.value? g = T.value? z := by
  let w := Script.Memory.empty.world "t" .default
  let c : Signal := ⟨0, .bool, .known 1, none⟩
  let p : Signal := ⟨1, .bool, .known 1, none⟩
  let n : Signal := ⟨2, .uint, .known 1, none⟩
  let u : Signal := ⟨3, .uint, .known 3, none⟩
  let five : Signal := ⟨4, .uint, .known 3, some (.ofNat 3 5)⟩
  let flag : Signal := ⟨5, .uint, .known 1, none⟩
  let num : Signal := ⟨6, .uint, .known 3, none⟩
  let z : Signal := ⟨7, .uint, .known 3, none⟩
  let g : Signal := ⟨8, .uint, .known 3, none⟩
  let gs : List Bench.Setting := [.input "c" 0, .input "p" 1, .input "n" 0, .input "u" 2]
  have hfirst : Script.selection? 7 .twofold w "c" "t" "f" =
      some (c, [p, u], [n, five], [flag, num]) := by
    decide +kernel
  have hsecond : Script.selection? 11 .twofold w "c" "t2" "f2" = some (c, [u], [num], [z]) := by
    decide +kernel
  have hground : Script.signals? 12 .twofold w "u" "e" = some (u, num, g) := by decide +kernel
  have hcond : Script.signals? 12 .twofold w "c" "e" = some (c, num, g) := by decide +kernel
  have hvalue : Trial.tryValue? .twofold gs z = some ⟨5, 3, false⟩ := by decide +kernel
  obtain ⟨T, htries⟩ : ∃ T : Trial, T.Tries .twofold gs := Trial.exists_tries (by decide +kernel)
  rw [← htries.value?_eq] at hvalue
  -- the first selection takes the literal, from beside the number
  obtain ⟨r₁, before₁, after₁, ts₁, fs₁, zs₁, hmade₁, hchosen₁, hr₁, hts₁, hfs₁, hzs₁⟩ :=
    Script.made_of_selection? hfirst
  have h₁ : T.Calls (.mux "c" "t" "f") r₁ before₁ after₁ := htries.made rfl hmade₁
  obtain ⟨zs, hzs, -, hleaf₁⟩ := Script.selections_leafwise (.inl rfl) hchosen₁ h₁.call
  obtain rfl : zs₁ = zs := Shape.group.inj (Option.some.inj (hr₁.symm.trans hzs))
  have hleaves₁ := hleaf₁ T h₁
  rw [hts₁, hfs₁, hzs₁] at hleaves₁
  -- the second one takes the field with it
  obtain ⟨r₂, before₂, after₂, ts₂, fs₂, zs₂, hmade₂, hchosen₂, hr₂, hts₂, hfs₂, hzs₂⟩ :=
    Script.made_of_selection? hsecond
  have h₂ : T.Calls (.muxBundle "c" "t2" "f2") r₂ before₂ after₂ := htries.made rfl hmade₂
  obtain ⟨zs, hzs, -, hleaf₂⟩ := Script.selections_leafwise (.inr rfl) hchosen₂ h₂.call
  obtain rfl : zs₂ = zs := Shape.group.inj (Option.some.inj (hr₂.symm.trans hzs))
  have hleaves₂ := hleaf₂ T h₂
  rw [hts₂, hfs₂, hzs₂] at hleaves₂
  have hz : T.ValuedAsMux c u num z := hleaves₂ 0 u num z rfl rfl rfl
  -- and so does the third, on its own
  obtain ⟨r, before, after, hmade, hu, hnum, hg⟩ := Script.made_of_signals? hground
  obtain ⟨r', before', after', hmade', hc, -, -⟩ := Script.made_of_signals? hcond
  obtain ⟨rfl, rfl, rfl⟩ : r = r' ∧ before = before' ∧ after = after' := by
    simpa using hmade.symm.trans hmade'
  have h : T.Calls (.mux "c" "u" "e") r before after := htries.made rfl hmade
  obtain ⟨-, -, hsame⟩ := hz.same (.inl rfl) h ⟨hc, hu, hnum⟩ hg
  exact ⟨T, c, p, n, u, five, flag, num, z, g, r, before, after, ⟨rfl, rfl, rfl, rfl⟩,
    hleaves₁ 0 p n flag rfl rfl rfl, hleaves₁ 1 u five num rfl rfl rfl, hz, ⟨h, hg⟩, hvalue, hsame⟩

end Circuitry
