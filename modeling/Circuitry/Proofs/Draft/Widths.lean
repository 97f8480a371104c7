/-
  Widths that are inferred.

  Widths have 32 bits, and every step of a computation with them is held at the largest one.  Here the
  width of each result is compared with a formula in whole numbers (`Binary.bits?`, `Unary.bits?`), which
  is open where a width that it uses is open, and is held once, when it has been worked out.

  1. What an operator makes is bound to an entry of the node table that has its kind and its width
     (`Draft.Made`).  So the width on the handle and the one in the table are the same, and there is one
     width to speak of.
  2. That width is put together from widths by a few rules (`Binary.inferred`, `Unary.inferred`), each of
     which is exact up to the largest width (`Width.count?_map`, `Width.count?_map₂`).  Held in the middle
     or at the end comes to the same for growing operators, since nothing is taken off again.
  3. A sum or difference that keeps its width grows by one bit and drops it.  Where there is no room to
     grow, a bit is dropped all the same, and the result is one bit short (`Binary.LosesBit`).  There is
     no other exception (`widths_inferred`).
-/
import Circuitry.Proofs.Meaning.Aggregates

namespace Circuitry

open Draft (Session Build Bundle idAt Silent)

/-! ## Whole numbers of bits -/

namespace Width

/-- The number of bits, where it is known. -/
def count? (w : Width) : Option Nat := w.get?.map UInt32.toNat

/-- A number of bits, held at the largest there is. -/
def held (bits : Option Nat) : Option Nat := bits.map (min · limit)

@[simp] theorem count?_unknown : unknown.count? = none := rfl

@[simp] theorem count?_known (u : UInt32) : (known u).count? = some u.toNat := rfl

theorem le_limit (u : UInt32) : u.toNat ≤ limit := Nat.le_pred_of_lt u.toNat_lt

theorem held_count? (a : Width) : held a.count? = a.count? := by
  cases a with
  | unknown => rfl
  | known u => exact congrArg some (Nat.min_eq_left (le_limit u))

theorem count?_map (f : Nat → Nat) (a : Width) : (a.map f).count? = held (a.count?.map f) := by
  cases a with
  | unknown => rfl
  | known u => exact congrArg some (toNat_saturate _)

theorem count?_map₂ (f : Nat → Nat → Nat) (a b : Width) :
    (map₂ f a b).count? = held (Option.map₂ f a.count? b.count?) := by
  cases a <;> cases b <;> first | rfl | exact congrArg some (toNat_saturate _)

/-- Growing what has been held gives what growing and holding gives. -/
theorem count?_max_grow (a b : Width) :
    ((a.max b).grow 1).count? = held (Option.map₂ (fun m n => Max.max m n + 1) a.count? b.count?) := by
  rw [grow, max, count?_map, count?_map₂]
  cases a <;> cases b <;> try rfl
  next u v =>
    refine congrArg some ?_
    show min (min (Max.max u.toNat v.toNat) limit + 1) limit = min (Max.max u.toNat v.toNat + 1) limit
    omega

/-- One bit more and one bit less is nothing, unless there was no room for the bit. -/
theorem count?_max_grow_shrink (a b : Width) :
    (((a.max b).grow 1).shrink 1).count? =
      (Option.map₂ Max.max a.count? b.count?).map fun n => if n = limit then limit - 1 else n := by
  rw [shrink, count?_map, count?_max_grow]
  cases a <;> cases b <;> try rfl
  next u v =>
    have hu := le_limit u
    have hv := le_limit v
    refine congrArg some ?_
    show min (min (Max.max u.toNat v.toNat + 1) limit - 1) limit =
      if Max.max u.toNat v.toNat = limit then limit - 1 else Max.max u.toNat v.toNat
    split <;> omega

/-- Amounts of 32 bits reach the largest width, as their own formula does. -/
theorem count?_growBy (a b : Width) :
    (a.growBy b).count? = held (Option.map₂ (fun m n => m + 2 ^ n - 1) a.count? b.count?) := by
  rw [growBy, count?_map₂]
  cases a <;> cases b <;> try rfl
  next u v =>
    refine congrArg some ?_
    show min (if v.toNat < 32 then u.toNat + (2 ^ v.toNat - 1) else limit) limit =
      min (u.toNat + 2 ^ v.toNat - 1) limit
    have hpos := Nat.two_pow_pos v.toNat
    split
    · omega
    · next hlarge =>
      have hpow : 2 ^ 32 ≤ 2 ^ v.toNat := Nat.pow_le_pow_right (by decide) (Nat.le_of_not_lt hlarge)
      simp only [limit]
      omega

end Width

/-- The signal has a width that its kind allows.  Signals are made so. -/
def Signal.Grounded (s : Signal) : Prop := Signals.groundWidth s.kind s.width = s.width

/-! ## What an operator makes -/

namespace Draft

variable {w w₁ w' : Session} {op : Operator} {kind : Kind} {width : Width} {x y z : Signal}

/-- The signal has this width, and is bound to a new entry of the node table, of its own kind and
    width. -/
structure Made (w w' : Session) (z : Signal) (width : Width) : Prop where
  width_eq : z.width = width
  recorded : ∃ i n, w.draft.nodes.length ≤ i ∧ w'.draft.nodes[i]? = some n ∧
    n.ty = .element z.kind width ∧ w'.signals.standing z = .bound ⟨.result, w'.draft.context, idAt i⟩

theorem Made.later (h : Made w₁ w' z width) (hle : w.draft.nodes.length ≤ w₁.draft.nodes.length) :
    Made w w' z width := by
  obtain ⟨hwidth, i, n, hi, hn⟩ := h
  exact ⟨hwidth, i, n, Nat.le_trans hle hi, hn⟩

theorem made_apply {ss : List Signal} (h : apply op ss kind w = .ok z w')
    (hground : Signals.groundWidth kind (op.resultWidth (ss.map (·.width))) = width) :
    Made w w' z width ∧ w.draft.nodes.length ≤ w'.draft.nodes.length := by
  obtain ⟨args, -, rfl, rfl⟩ := applyAt_eq_ok h
  refine ⟨⟨hground, w.draft.nodes.length, _, Nat.le_refl _, List.getElem?_concat_length, ?_, ?_⟩, ?_⟩
  · exact congrArg (Ty.element kind) hground
  · exact Signals.standing_bind _ _ _ rfl
  · show _ ≤ (w.draft.nodes ++ [_]).length
    rw [List.length_append]
    exact Nat.le_add_right _ _

/-- The low bits of a wide result have its width less one, whether they are read with a sign or not. -/
theorem made_wrapping (h : wrapping op x y w = .ok z w') (hnumeric : Script.isNumeric x.kind = true) :
    Made w w' z ((op.resultWidth [x.width, y.width]).shrink 1) := by
  obtain ⟨wide, w₁, low, w₂, hwide, hlow, hlast⟩ := wrapping_eq_ok h
  obtain ⟨hmade₁, hle₁⟩ := made_apply hwide (Signals.groundWidth_of_numeric hnumeric _)
  obtain ⟨hmade₂, hle₂⟩ := made_apply hlow rfl
  rw [show (Operator.tail 1).resultWidth ([wide].map (·.width)) = wide.width.shrink 1 from rfl,
    hmade₁.width_eq] at hmade₂
  split at hlast
  · obtain ⟨hmade₃, -⟩ := made_apply hlast rfl
    rw [show Operator.asSInt.resultWidth ([low].map (·.width)) = low.width from rfl,
      hmade₂.width_eq] at hmade₃
    exact hmade₃.later (Nat.le_trans hle₁ hle₂)
  · obtain ⟨rfl, rfl⟩ := hlast
    exact hmade₂.later hle₁

/-- The number of bits that a result has, on the handle and in the node table. -/
def Records (w w' : Session) (z : Signal) (bits : Option Nat) : Prop :=
  ∃ width, Made w w' z width ∧ width.count? = bits

/-! ## Shifts by a signal -/

/-- The amount of a shift is wider than the settings allow. -/
def Session.TooWide (w : Session) (amount : Signal) : Prop :=
  ∃ n, amount.width.count? = some n ∧ w.draft.settings.dynamicShiftLimit.toNat < n

theorem filter_of_tooWide (h : w.TooWide y) :
    ∃ u, y.width.get?.filter (w.draft.settings.dynamicShiftLimit < ·) = some u := by
  obtain ⟨n, hn, hlt⟩ := h
  obtain ⟨u, hu, rfl⟩ := Option.map_eq_some_iff.1 hn
  exact ⟨u, by rw [hu]; exact Option.filter_some_pos (decide_eq_true hlt)⟩

theorem filter_of_not_tooWide (h : ¬ w.TooWide y) :
    y.width.get?.filter (w.draft.settings.dynamicShiftLimit < ·) = none := by
  refine Option.filter_eq_none_iff.2 fun u hu hlt => h ⟨u.toNat, ?_, of_decide_eq_true hlt⟩
  exact Option.map_eq_some_iff.2 ⟨u, hu, rfl⟩

/-- A shift by an amount within the limit is an operator. -/
theorem shiftLeftBy_eq (h : ¬ w.TooWide y) :
    shiftLeftBy x y w = apply .dshl [x, y] x.kind w := by
  have hget : (get : Build Session) w = .ok w w := rfl
  unfold shiftLeftBy
  rw [bind_of_ok hget, filter_of_not_tooWide h]

/-- Beyond the limit a zero stands in, as wide as what was to be shifted. -/
theorem shiftLeftBy_standIn (h : w.TooWide y) (hrun : shiftLeftBy x y w = .ok z w') :
    z.literal = some (.zero 1) ∧ z.width = Signals.groundWidth x.kind x.width := by
  have hget : (get : Build Session) w = .ok w w := rfl
  obtain ⟨u, hu⟩ := filter_of_tooWide h
  unfold shiftLeftBy at hrun
  rw [bind_of_ok hget, hu] at hrun
  obtain ⟨⟨⟩, w₁, -, hrest⟩ := bind_eq_ok.1 hrun
  obtain ⟨⟨⟩, w₂, -, hzero⟩ := bind_eq_ok.1 hrest
  obtain ⟨rfl, -⟩ := EStateM.Result.ok.inj hzero
  exact ⟨rfl, rfl⟩

/-! ## Going through -/

/-- An operator on signals that can be operands goes through. -/
theorem silent_apply {ss : List Signal} (h : ∀ s ∈ ss, w.Ready s) : Silent (apply op ss kind) w := by
  obtain ⟨args, hargs⟩ : ∃ args, List.Forall₂ w.Reads ss args := by
    induction ss with
    | nil => exact ⟨[], .nil⟩
    | cons s rest ih =>
      obtain ⟨⟨a, ha⟩, hrest⟩ := List.forall_mem_cons.1 h
      obtain ⟨as, has⟩ := ih hrest
      exact ⟨a :: as, .cons ha has⟩
  have hrun : apply op ss kind w = define op args kind _ w := bind_of_ok (run_operands hargs)
  unfold Silent
  rw [hrun]
  exact silent_define ..

theorem silent_wrapping (hx : w.Ready x) (hy : w.Ready y) : Silent (wrapping op x y) w := by
  have happly : Silent (apply op [x, y] x.kind) w := silent_apply (by simp [hx, hy])
  obtain ⟨wide, w₁, hwide, -⟩ := happly
  obtain ⟨hready, hsink⟩ := (applyAt_readies op [x, y] x.kind _).of_ok rfl hwide
  obtain ⟨z, w', hz, hsink'⟩ := silent_narrow hready x.kind.isSigned
  exact ⟨z, w', (bind_of_ok hwide).trans hz, hsink'.trans hsink⟩

theorem silent_compare (hkind : x.kind = y.kind) (hx : w.Ready x) (hy : w.Ready y) :
    Silent (compare op x y) w := by
  unfold compare
  rw [if_neg (not_not_intro hkind)]
  exact silent_apply (by simp [hx, hy])

end Draft

/-! ## Operators on two signals -/

namespace Script

namespace Binary

/-- The number of bits that the result is to have; nothing where a width that it depends on is open. -/
def bits? (op : Binary) (m n : Option Nat) : Option Nat :=
  match op with
  | .addWide | .subWide => Option.map₂ (fun m n => max m n + 1) m n
  | .add | .sub | .and | .or | .xor | .logicAnd | .logicOr => Option.map₂ max m n
  | .mul | .concat => Option.map₂ (· + ·) m n
  | .div | .rem | .shiftRightBy => m
  | .shiftLeftBy => Option.map₂ (fun m n => m + 2 ^ n - 1) m n
  | .lt | .leq | .gt | .geq | .eq | .neq => some 1

/-- The width that is inferred, by the rules for widths. -/
def inferred (op : Binary) (a b : Width) : Width :=
  match op with
  | .addWide | .subWide => (a.max b).grow 1
  | .add | .sub => ((a.max b).grow 1).shrink 1
  | .and | .or | .xor | .logicAnd | .logicOr => a.max b
  | .mul | .concat => a.add b
  | .div | .rem | .shiftRightBy => a
  | .shiftLeftBy => a.growBy b
  | .lt | .leq | .gt | .geq | .eq | .neq => .known 1

/-- A sum or difference that is to keep its width has an operand of the largest width, so there is no room
    for the bit that is dropped at the end. -/
def LosesBit (op : Binary) (a b : Width) : Prop :=
  (op = .add ∨ op = .sub) ∧ ∃ m n, a.count? = some m ∧ b.count? = some n ∧ max m n = Width.limit

variable {op : Binary} {a b : Width}

theorem count?_inferred (h : ¬ op.LosesBit a b) :
    (op.inferred a b).count? = Width.held (op.bits? a.count? b.count?) := by
  have hkept : op = .add ∨ op = .sub → (((a.max b).grow 1).shrink 1).count? =
      Width.held (Option.map₂ max a.count? b.count?) := by
    intro hop
    rw [Width.count?_max_grow_shrink]
    cases a <;> cases b <;> try rfl
    next u v =>
      have hroom : max u.toNat v.toNat ≠ Width.limit := fun heq => h ⟨hop, _, _, rfl, rfl, heq⟩
      have hu := Width.le_limit u
      have hv := Width.le_limit v
      refine congrArg some ((if_neg hroom).trans ?_)
      exact (Nat.min_eq_left (by omega)).symm
  cases op with
  | addWide | subWide => exact Width.count?_max_grow a b
  | add => exact hkept (.inl rfl)
  | sub => exact hkept (.inr rfl)
  | mul | concat => exact Width.count?_map₂ _ a b
  | and | or | xor | logicAnd | logicOr => exact Width.count?_map₂ _ a b
  | div | rem | shiftRightBy => exact (Width.held_count? a).symm
  | shiftLeftBy => exact Width.count?_growBy a b
  | lt | leq | gt | geq | eq | neq => rfl

theorem count?_inferred_of_losesBit (h : op.LosesBit a b) :
    (op.inferred a b).count? = some (Width.limit - 1) := by
  obtain ⟨hop, m, n, hm, hn, hmax⟩ := h
  have hshort := Width.count?_max_grow_shrink a b
  rw [hm, hn, Option.map₂_some_some, Option.map_some, if_pos hmax] at hshort
  rcases hop with rfl | rfl <;> exact hshort

end Binary

variable {w w' : Session} {x y z : Signal}

/-- What goes through is as wide as inferred, on the handle and in the node table. -/
theorem made_binary (op : Binary) (haccepts : op.accepts x.kind y.kind = true) (hx : x.Grounded)
    (hy : y.Grounded) (hlimit : op = .shiftLeftBy → ¬ w.TooWide y)
    (h : op.build x y w = .ok z w') : Draft.Made w w' z (op.inferred x.width y.width) := by
  have hnumbers : (isNumeric x.kind && decide (x.kind = y.kind)) = true →
      ∀ width, Signals.groundWidth x.kind width = width := fun h =>
    Signals.groundWidth_of_numeric (Bool.and_eq_true_iff.1 h).1
  have halike : x.kind = y.kind →
      Signals.groundWidth x.kind (x.width.max y.width) = x.width.max y.width := fun hkind =>
    Signals.groundWidth_max hx (hkind ▸ hy)
  cases op with
  | addWide | subWide | mul | div | rem => exact (Draft.made_apply h (hnumbers haccepts _)).1
  | add | sub => exact Draft.made_wrapping h (Bool.and_eq_true_iff.1 haccepts).1
  | lt | leq | gt | geq | eq | neq => exact (Draft.made_apply (Draft.compare_eq_ok h).2 rfl).1
  | and | or | xor => exact (Draft.made_apply h (halike (of_decide_eq_true haccepts))).1
  | logicAnd | logicOr => exact (Draft.made_apply h (halike (kind_eq_of_logicAnd haccepts))).1
  | concat => exact (Draft.made_apply h rfl).1
  | shiftLeftBy =>
    have hnumeric := Signals.groundWidth_of_numeric (Bool.and_eq_true_iff.1 haccepts).1
    rw [Binary.build, Draft.shiftLeftBy_eq (hlimit rfl)] at h
    exact (Draft.made_apply h (hnumeric _)).1
  | shiftRightBy =>
    have hnumeric := Signals.groundWidth_of_numeric (Bool.and_eq_true_iff.1 haccepts).1
    exact (Draft.made_apply h (hnumeric _)).1

theorem silent_binary (op : Binary) (haccepts : op.accepts x.kind y.kind = true)
    (hlimit : op = .shiftLeftBy → ¬ w.TooWide y) (hkinds : op = .eq ∨ op = .neq → x.kind = y.kind)
    (hx : w.Ready x) (hy : w.Ready y) : Silent (op.build x y) w := by
  have hready : ∀ s ∈ [x, y], w.Ready s := by simp [hx, hy]
  cases op with
  | add | sub => exact Draft.silent_wrapping hx hy
  | lt | leq | gt | geq =>
    have hkind : x.kind = y.kind := of_decide_eq_true (Bool.and_eq_true_iff.1 haccepts).2
    exact Draft.silent_compare hkind hx hy
  | eq => exact Draft.silent_compare (hkinds (.inl rfl)) hx hy
  | neq => exact Draft.silent_compare (hkinds (.inr rfl)) hx hy
  | shiftLeftBy =>
    unfold Silent
    rw [Binary.build, Draft.shiftLeftBy_eq (hlimit rfl)]
    exact Draft.silent_apply hready
  | _ => exact Draft.silent_apply hready

/-! ## Operators on one signal -/

namespace Unary

/-- The number of bits that the result is to have. -/
def bits? (op : Unary) (m : Option Nat) : Option Nat :=
  match op with
  | .not | .asSInt | .asUInt => m
  | .asBool | .andReduce | .orReduce | .xorReduce => some 1
  | .shl n => m.map (· + n.toNat)
  | .shr n => m.map (· - n.toNat)
  | .pad n => m.map (max · n.toNat)

/-- The width that is inferred, by the rules for widths. -/
def inferred (op : Unary) (a : Width) : Width :=
  match op with
  | .not | .asSInt | .asUInt => a
  | .asBool | .andReduce | .orReduce | .xorReduce => .known 1
  | .shl n => a.grow n
  | .shr n => a.shrink n
  | .pad n => a.max (.known n)

theorem count?_inferred (op : Unary) (a : Width) :
    (op.inferred a).count? = Width.held (op.bits? a.count?) := by
  cases op with
  | not | asSInt | asUInt => exact (Width.held_count? a).symm
  | asBool | andReduce | orReduce | xorReduce => rfl
  | shl n => exact Width.count?_map (· + n.toNat) a
  | shr n => exact Width.count?_map (· - n.toNat) a
  | pad n =>
    cases a with
    | unknown => rfl
    | known u => exact Width.count?_map₂ Nat.max (.known u) (.known n)

end Unary

theorem made_unary (op : Unary) (haccepts : op.accepts x.kind = true) (hx : x.Grounded)
    (h : op.build x w = .ok z w') : Draft.Made w w' z (op.inferred x.width) := by
  cases op with
  | not => exact (Draft.made_apply h hx).1
  | asSInt | asUInt | andReduce | orReduce | xorReduce => exact (Draft.made_apply h rfl).1
  | asBool => exact (Draft.made_apply (Draft.asBool_eq_ok h) rfl).1
  | shl n | shr n | pad n =>
    exact (Draft.made_apply h (Signals.groundWidth_of_numeric haccepts _)).1

theorem silent_unary (op : Unary) (hbit : op = .asBool → x.width = .unknown ∨ x.width = .known 1)
    (hx : w.Ready x) : Silent (op.build x) w := by
  have hready : ∀ s ∈ [x], w.Ready s := by simp [hx]
  cases op with
  | asBool =>
    rw [Unary.build, Draft.asBool]
    rcases hbit rfl with hwidth | hwidth <;> rw [hwidth] <;> exact Draft.silent_apply hready
  | _ => exact Draft.silent_apply hready

/-! ## Selections -/

/-- Leaf by leaf, a selection is as wide as the wider branch. -/
structure WiderLeafwise (w w' : Session) (t f z : Bundle) : Prop where
  left : t.leaves.length = z.leaves.length
  right : f.leaves.length = z.leaves.length
  leaf : ∀ (k : Nat) a b u, t.leaves[k]? = some a → f.leaves[k]? = some b → z.leaves[k]? = some u →
    Draft.Records w w' u (Width.held (Option.map₂ max a.width.count? b.width.count?))

theorem records_mux {c : Signal} (hx : x.Grounded) (hy : y.Grounded)
    (h : Draft.mux c x y w = .ok z w') :
    Draft.Records w w' z (Width.held (Option.map₂ max x.width.count? y.width.count?)) := by
  obtain ⟨kind, hkind, happly⟩ := Draft.mux_eq_ok h
  obtain ⟨hgx, hgy⟩ := Draft.groundWidth_of_mergeKinds? hkind hx hy
  exact ⟨_, (Draft.made_apply happly (Signals.groundWidth_max hgx hgy)).1, Width.count?_map₂ _ _ _⟩

/-- A selection between signals whose kinds go together goes through. -/
theorem silent_mux {c : Signal} (hc : w.Ready c) (hx : w.Ready x) (hy : w.Ready y)
    (hkinds : Draft.mergeKinds? x.kind y.kind ≠ none) : Silent (Draft.mux c x y) w := by
  obtain ⟨kind, hkind⟩ := Option.ne_none_iff_exists'.1 hkinds
  obtain ⟨⟨p, hp⟩, ⟨q, hq⟩, r, hr⟩ := hc, hx, hy
  exact ⟨_, _, Draft.run_mux (.cons hp (.cons hq (.cons hr .nil))) hkind, rfl⟩

theorem widerLeafwise_muxFields {c : Signal} {t f fields : Shape.Fields Signal}
    (ht : ∀ s ∈ Shape.fieldLeaves t, s.Grounded) (hf : ∀ s ∈ Shape.fieldLeaves f, s.Grounded)
    (h : Draft.muxFields c t f w = .ok fields w') :
    WiderLeafwise w w' (.group t) (.group f) (.group fields) := by
  obtain ⟨x, as, bs, types, -, -, -, hmerges, hfields, rfl⟩ := Draft.muxFields_eq_ok h
  have hlen : (Shape.fieldLeaves fields).length = (Shape.fieldLeaves types).length := by
    rw [hfields, Draft.length_freshSignals]
  refine ⟨hmerges.left.trans hlen.symm, hmerges.right.trans hlen.symm, fun k a b u ha hb hu => ?_⟩
  rw [Shape.leaves, hfields] at hu
  obtain ⟨-, hwa, hwb⟩ := hmerges.fresh ha hb hu (ht a (List.mem_of_getElem? ha))
    (hf b (List.mem_of_getElem? hb))
  obtain ⟨hstanding, hentry⟩ := Session.leaf_selected (c := x) (t := as) (f := bs) hu
  -- aggregates that agree have leaves of the same widths, so the wider of two is either of them
  have hmax : a.width.max b.width = u.width := by rw [hwa, hwb, Width.max_self]
  refine ⟨u.width, ⟨rfl, _, _, ?_, hentry, rfl, ?_⟩, ?_⟩
  · omega
  · rw [hstanding, Session.context_selected]
  · rw [← hmax]
    exact Width.count?_map₂ _ _ _

theorem widerLeafwise_muxBundle {c : Signal} {t f r : Bundle}
    (ht : ∀ s ∈ t.leaves, s.Grounded) (hf : ∀ s ∈ f.leaves, s.Grounded)
    (h : Draft.muxBundle c t f w = .ok r w') : WiderLeafwise w w' t f r := by
  unfold Draft.muxBundle at h
  split at h
  · next a b =>
    obtain ⟨z, w₁, hz, hret⟩ := bind_eq_ok.1 h
    obtain ⟨rfl, rfl⟩ := EStateM.Result.ok.inj hret
    have hwider := records_mux (ht a (List.mem_singleton_self a)) (hf b (List.mem_singleton_self b)) hz
    refine ⟨rfl, rfl, fun k a' b' u ha hb hu => ?_⟩
    cases k with
    | zero =>
      obtain rfl := Option.some.inj ha
      obtain rfl := Option.some.inj hb
      obtain rfl := Option.some.inj hu
      exact hwider
    | succ k => cases ha
  · obtain ⟨fields, w₁, hfields, hret⟩ := bind_eq_ok.1 h
    obtain ⟨rfl, rfl⟩ := EStateM.Result.ok.inj hret
    exact widerLeafwise_muxFields ht hf hfields
  · cases h

/-! ## All operators -/

/-- What an operator on two signals comes to. -/
structure Binary.Infers (op : Binary) (w : Session) (x y : Signal) : Prop where
  /-- It goes through, without a report, if both signals can be operands. -/
  goes : w.Ready x → w.Ready y → (op = .eq ∨ op = .neq → x.kind = y.kind) →
    Silent (op.build x y) w
  /-- The result is as wide as the formula says. -/
  records : ∀ {z w'}, op.build x y w = .ok z w' → ¬ op.LosesBit x.width y.width →
    Draft.Records w w' z (Width.held (op.bits? x.width.count? y.width.count?))
  /-- Where there is no room to grow it is one bit short. -/
  short : ∀ {z w'}, op.build x y w = .ok z w' → op.LosesBit x.width y.width →
    Draft.Records w w' z (some (Width.limit - 1))

/-- What an operator on one signal comes to. -/
structure Unary.Infers (op : Unary) (w : Session) (x : Signal) : Prop where
  goes : w.Ready x → (op = .asBool → x.width = .unknown ∨ x.width = .known 1) →
    Silent (op.build x) w
  records : ∀ {z w'}, op.build x w = .ok z w' →
    Draft.Records w w' z (Width.held (op.bits? x.width.count?))

/-- **Inferred widths.**  For every operator and all widths of its operands, what is made is as wide as
    the formula says, held at the largest width, both on the handle and in the node table; and it is open
    where the formula is.  A sum or difference that is to keep the largest width is one bit short, and a
    shift by an amount beyond the limit makes nothing but a stand-in. -/
theorem widths_inferred (w : Session) :
    (∀ (op : Binary) (x y : Signal), x.Grounded → y.Grounded → op.accepts x.kind y.kind = true →
      (op = .shiftLeftBy → ¬ w.TooWide y) → op.Infers w x y) ∧
    (∀ (x y z : Signal) (w' : Session), x.Grounded → w.TooWide y →
      Draft.shiftLeftBy x y w = .ok z w' → z.literal = some (.zero 1) ∧ z.width = x.width) ∧
    (∀ (op : Unary) (x : Signal), x.Grounded → op.accepts x.kind = true → op.Infers w x) ∧
    (∀ c x y : Signal, w.Ready c → w.Ready x → w.Ready y →
      Draft.mergeKinds? x.kind y.kind ≠ none → Silent (Draft.mux c x y) w) ∧
    ∀ (c : Signal) (t f r : Bundle) (w' : Session), (∀ s ∈ t.leaves, s.Grounded) →
      (∀ s ∈ f.leaves, s.Grounded) → Draft.muxBundle c t f w = .ok r w' →
      WiderLeafwise w w' t f r := by
  refine ⟨fun op x y hx hy haccepts hlimit => ?_, fun x y z w' hx hwide hrun => ?_,
    fun op x hx haccepts => ?_, fun c x y => silent_mux, fun c t f r w' => widerLeafwise_muxBundle⟩
  · have hmade : ∀ {z w'}, op.build x y w = .ok z w' → Draft.Made w w' z (op.inferred x.width y.width) :=
      made_binary op haccepts hx hy hlimit
    exact {
      goes := fun hrx hry hkinds => silent_binary op haccepts hlimit hkinds hrx hry
      records := fun hrun hkept => ⟨_, hmade hrun, Binary.count?_inferred hkept⟩
      short := fun hrun hlost => ⟨_, hmade hrun, Binary.count?_inferred_of_losesBit hlost⟩ }
  · obtain ⟨hliteral, hwidth⟩ := Draft.shiftLeftBy_standIn hwide hrun
    exact ⟨hliteral, hwidth.trans hx⟩
  · exact {
      goes := fun hready hbit => silent_unary op hbit hready
      records := fun hrun => ⟨_, made_unary op haccepts hx hrun, Unary.count?_inferred op x.width⟩ }

/-- A literal of a kind and width. -/
def literalOf (serial : Nat) (kind : Kind) (width : UInt32) : Signal :=
  ⟨serial, kind, .known width, some (.zero 1)⟩

/-- A shift that comes close to the largest width and is held there, one by too wide an amount, one that
    leaves no bits, and a selection between widths of different size. -/
theorem nearlyWidest_inferred :
    let w : Session := ⟨⟨4, []⟩, .empty 0 "t" .default⟩
    let x := literalOf 0 .uint 4294000000
    let y := literalOf 1 .uint 20
    let c := literalOf 2 .bool 1
    (∃ z w', Draft.shiftLeftBy x y w = .ok z w' ∧ Draft.Records w w' z (some 4294967295)) ∧
    (∃ z w', Draft.shiftLeftBy x (literalOf 3 .uint 21) w = .ok z w' ∧ z.width = .known 4294000000) ∧
    (∃ z w', Draft.unary (.shr 4294967295) x w = .ok z w' ∧ Draft.Records w w' z (some 0)) ∧
    ∃ z w', Draft.muxBundle c (.leaf y) (.leaf x) w = .ok (.leaf z) w' ∧
      Draft.Records w w' z (some 4294000000) := by
  intro w x y c
  obtain ⟨hbinary, hstandIn, hunary, hmux, hbundle⟩ := widths_inferred w
  have hready : ∀ serial kind width, w.Ready (literalOf serial kind width) :=
    fun _ _ _ => ⟨_, .literal rfl⟩
  have hwithin : ¬ w.TooWide y := by
    rintro ⟨n, hn, hlt⟩
    obtain rfl := Option.some.inj hn
    exact absurd hlt (by decide)
  have hbeyond : w.TooWide (literalOf 3 .uint 21) := ⟨21, rfl, by decide⟩
  have hshift := hbinary .shiftLeftBy x y rfl rfl rfl fun _ => hwithin
  have hshr := hunary (.shr 4294967295) x rfl rfl
  obtain ⟨z, w₁, hz, -⟩ := hshift.goes (hready ..) (hready ..) (by rintro (h | h) <;> cases h)
  obtain ⟨u, w₂, hu, -⟩ := hshr.goes (hready ..) nofun
  obtain ⟨m, w₃, hm, -⟩ := hmux c y x (hready ..) (hready ..) (hready ..) (by decide)
  have hm' : Draft.muxBundle c (.leaf y) (.leaf x) w = .ok (.leaf m) w₃ := bind_of_ok hm
  have hwider := hbundle c (.leaf y) (.leaf x) (.leaf m) w₃ (List.forall_mem_singleton.2 rfl)
    (List.forall_mem_singleton.2 rfl) hm'
  refine ⟨⟨z, w₁, hz, hshift.records hz ?_⟩, ⟨_, _, rfl, ?_⟩, ⟨u, w₂, hu, hshr.records hu⟩,
    m, w₃, hm', hwider.leaf 0 y x m rfl rfl rfl⟩
  · rintro ⟨h | h, -⟩ <;> cases h
  · exact (hstandIn x _ _ _ rfl hbeyond rfl).2

/-- Two inputs of the largest width. -/
def widestInputs : Build (Signal × Signal) := do
  let x ← Draft.template .uint (.known 4294967295)
  let y ← Draft.template .uint (.known 4294967295)
  Draft.declare (.port .input) "x" x
  Draft.declare (.port .input) "y" y
  return (x, y)

/-- The sum of two inputs of the largest width is to be as wide as they are, and is one bit short. -/
theorem widestSum_short : ∃ x y w z w',
    widestInputs ⟨.empty, .empty 0 "t" .default⟩ = .ok (x, y) w ∧ Draft.add x y w = .ok z w' ∧
      Width.held (Binary.bits? .add x.width.count? y.width.count?) = some 4294967295 ∧
      z.width.count? = some 4294967294 ∧ w'.draft.sink.errorCount = 0 :=
  ⟨_, _, _, _, _, rfl, rfl, rfl, rfl, rfl⟩

end Script

end Circuitry
