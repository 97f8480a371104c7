/-
  A selection keeps the value of the branch that it takes.

  A selection between ground signals is an operator.  One between aggregates is a single operator too, but
  its result has no value of its own: each of its fields takes the leaf in its place, and the evaluator
  needs a value only for the leaves of the branch that is taken.

  1. Branches that agree have leaves of the same widths, and the kinds of the leaves are merged one by one;
     the leaves of the result have these kinds and widths (`muxFields_eq_ok`).
  2. The fields of the result are bound to the entries behind that of the aggregate, in order
     (`standing_fielded_freshSignals`), and these entries are its field nodes (`Row.fieldNode?`).
  3. What is cut to the width of the result keeps its value, since the result is as wide as either branch
     and its kind has their sign (`selects_of_apply`).  `Calls.mux` and `Calls.muxBundle` say it of calls.
-/
import Circuitry.Proofs.Draft.WellFormed
import Circuitry.Proofs.Meaning.Operators

namespace Circuitry

open Draft (Session freshSignals)
open Draft.Session (Step Proper)

/-! ## Merged kinds -/

namespace Draft

/-- The kind of a selection has the sign of both branches. -/
theorem isSigned_of_mergeKinds? {a b kind : Kind} (h : mergeKinds? a b = some kind) :
    a.isSigned = kind.isSigned ∧ b.isSigned = kind.isSigned := by
  cases a <;> cases b <;> simp [mergeKinds?] at h <;> subst h <;> exact ⟨rfl, rfl⟩

/-- The kind of a selection allows what the kinds of both branches allow. -/
theorem groundWidth_of_mergeKinds? {a b kind : Kind} {u v : Width} (h : mergeKinds? a b = some kind)
    (hu : Signals.groundWidth a u = u) (hv : Signals.groundWidth b v = v) :
    Signals.groundWidth kind u = u ∧ Signals.groundWidth kind v = v := by
  cases kind with
  | uint | sint => exact ⟨rfl, rfl⟩
  | bool =>
    -- only two booleans make a boolean
    obtain ⟨rfl, rfl⟩ : a = .bool ∧ b = .bool := by
      cases a <;> cases b <;> simp [mergeKinds?] at h ⊢
    exact ⟨hu, hv⟩

/-! ## Selections taken apart -/

variable {w w' : Session}

theorem mux_eq_ok {c t f z : Signal} (h : mux c t f w = .ok z w') :
    ∃ kind, mergeKinds? t.kind f.kind = some kind ∧
      applyAt .mux [c, t, f] kind (t.width.max f.width) w = .ok z w' := by
  obtain ⟨args, w₁, hargs, hrest⟩ := bind_eq_ok.1 h
  cases hkind : mergeKinds? t.kind f.kind with
  | none =>
    rw [hkind] at hrest
    cases hrest
  | some kind =>
    rw [hkind] at hrest
    exact ⟨kind, rfl, bind_eq_ok.2 ⟨args, w₁, hargs, hrest⟩⟩

theorem widths_of_widthIssue? : ∀ {as bs : List (String × Signal)}, widthIssue? as bs = none →
    as.length = bs.length → as.map (fun e => e.2.width) = bs.map fun e => e.2.width
  | [], [], _, _ => rfl
  | [], _ :: _, _, hlen => by cases hlen
  | _ :: _, [], _, hlen => by cases hlen
  | (_, a) :: as, (_, b) :: bs, h, hlen => by
    rw [widthIssue?] at h
    split at h
    · next hwidth =>
      rw [List.map_cons, List.map_cons, widths_of_widthIssue? h (Nat.succ.inj hlen), hwidth]
    · cases h

/-- Aggregates that agree have leaves of the same widths. -/
theorem checkShape_eq_ok {context : String} {a b : Shape.Fields Signal}
    (h : checkShape context a b w = .ok () w') :
    (Shape.fieldLeaves a).map Signal.width = (Shape.fieldLeaves b).map Signal.width ∧ w' = w := by
  have hsame : w' = w := (looks_checkShape context a b w).of_ok rfl h
  refine ⟨?_, hsame⟩
  unfold checkShape at h
  dsimp only at h
  split at h
  · cases h
  · next hlen =>
    cases hissue : widthIssue? (Shape.fieldPaths "" a) (Shape.fieldPaths "" b) with
    | some issue =>
      rw [hissue] at h
      cases h
    | none =>
      have hwidths := widths_of_widthIssue? hissue (Decidable.not_not.1 hlen)
      rw [← Shape.map_snd_fieldPaths "" a, ← Shape.map_snd_fieldPaths "" b, List.map_map, List.map_map]
      exact hwidths

theorem mergeAll_eq_ok : ∀ {pairs : List (Signal × Signal)} {kinds : List Kind},
    mergeAll pairs w = .ok kinds w' →
      pairs.map (fun e => mergeKinds? e.1.kind e.2.kind) = kinds.map some ∧ w' = w := by
  intro pairs
  induction pairs generalizing w w' with
  | nil =>
    intro kinds h
    obtain ⟨rfl, rfl⟩ := EStateM.Result.ok.inj h
    exact ⟨rfl, rfl⟩
  | cons pair rest ih =>
    intro kinds h
    obtain ⟨a, b⟩ := pair
    rw [mergeAll] at h
    cases hkind : mergeKinds? a.kind b.kind with
    | none =>
      rw [hkind] at h
      cases h
    | some kind =>
      rw [hkind] at h
      obtain ⟨more, w₁, hmore, hret⟩ := bind_eq_ok.1 h
      obtain ⟨rfl, rfl⟩ := EStateM.Result.ok.inj hret
      obtain ⟨hkinds, hsame⟩ := ih hmore
      exact ⟨by rw [List.map_cons, List.map_cons, hkinds, hkind], hsame⟩

/-- The type of a leaf with another kind. -/
def retyped (kind : Kind) (s : Signal) : Kind × Width := (kind, Signals.groundWidth kind s.width)

end Draft

namespace Shape

open Draft (retype retyped)

mutual

/-- With a kind for each leaf, the leaves get these kinds in order. -/
theorem leaves_retype : ∀ (s : Shape Signal) {kinds : List Kind} (more : List Kind),
    kinds.length = s.leaves.length →
      (s.mapAccum retype (kinds ++ more)).1.leaves = List.zipWith retyped kinds s.leaves ∧
        (s.mapAccum retype (kinds ++ more)).2 = more
  | .leaf s, kinds, more, h => by
    obtain ⟨k, rfl⟩ := List.length_eq_one_iff.1 h
    exact ⟨rfl, rfl⟩
  | .group fs, kinds, more, h => fieldLeaves_retype fs more h

theorem fieldLeaves_retype : ∀ (fs : Shape.Fields Signal) {kinds : List Kind} (more : List Kind),
    kinds.length = (fieldLeaves fs).length →
      fieldLeaves (mapAccumFields retype (kinds ++ more) fs).1 =
          List.zipWith retyped kinds (fieldLeaves fs) ∧
        (mapAccumFields retype (kinds ++ more) fs).2 = more
  | [], kinds, more, h => by
    obtain rfl := List.eq_nil_of_length_eq_zero h
    exact ⟨rfl, rfl⟩
  | (n, s) :: fs, kinds, more, h => by
    rw [fieldLeaves, List.length_append] at h
    -- the first kinds are those of the first field
    obtain ⟨front, back, rfl, hfront⟩ : ∃ front back, kinds = front ++ back ∧
        front.length = s.leaves.length :=
      ⟨_, _, (List.take_append_drop s.leaves.length kinds).symm, by
        rw [List.length_take]
        omega⟩
    have hback : back.length = (fieldLeaves fs).length := by
      rw [List.length_append] at h
      omega
    obtain ⟨hleaves, hstate⟩ := leaves_retype s (back ++ more) hfront
    obtain ⟨hfields, hrest⟩ := fieldLeaves_retype fs more hback
    rw [← List.append_assoc] at hleaves hstate
    simp only [mapAccumFields, fieldLeaves, hleaves, hstate, hfields, hrest,
      List.zipWith_append hfront, and_self]

end

end Shape

namespace Draft

variable {w w' : Session}

/-- The types are those of a selection between the leaves: the kinds are merged, and the widths agree. -/
structure Merges (ts fs : List Signal) (types : List (Kind × Width)) : Prop where
  left : ts.length = types.length
  right : fs.length = types.length
  leaf : ∀ (k : Nat) x y u, ts[k]? = some x → fs[k]? = some y → types[k]? = some u →
    mergeKinds? x.kind y.kind = some u.1 ∧ x.width = y.width ∧ u = retyped u.1 x

/-- The types of a selection are types of signals. -/
theorem Merges.grounded {ts fs : List Signal} {types : List (Kind × Width)} (h : Merges ts fs types) :
    ∀ u ∈ types, Signals.groundWidth u.1 u.2 = u.2 := by
  intro u hu
  obtain ⟨k, hk⟩ := List.mem_iff_getElem?.1 hu
  have hlt := (List.getElem?_eq_some_iff.1 hk).1
  obtain ⟨-, -, heq⟩ := h.leaf k _ _ u (List.getElem?_eq_getElem (h.left ▸ hlt))
    (List.getElem?_eq_getElem (h.right ▸ hlt)) hk
  rw [heq]
  exact Signals.groundWidth_groundWidth _ _

theorem merges_zipWith {ts fs : List Signal} {kinds : List Kind}
    (hwidths : ts.map Signal.width = fs.map Signal.width)
    (hkinds : (ts.zip fs).map (fun e => mergeKinds? e.1.kind e.2.kind) = kinds.map some) :
    kinds.length = ts.length ∧ Merges ts fs (List.zipWith retyped kinds ts) := by
  have hf := congrArg List.length hwidths
  have hk := congrArg List.length hkinds
  simp only [List.length_map, List.length_zip] at hf hk
  have hlen : kinds.length = ts.length := by omega
  refine ⟨hlen, by rw [List.length_zipWith]; omega, by rw [List.length_zipWith]; omega, ?_⟩
  intro k x y u hx hy hu
  have hwidth : some x.width = some y.width := by
    simpa [hx, hy] using congrArg (fun l => l[k]?) hwidths
  obtain ⟨kind, x', hkind, hx', rfl⟩ := List.getElem?_zipWith_eq_some.1 hu
  obtain rfl := Option.some.inj (hx.symm.trans hx')
  have hzip : (ts.zip fs)[k]? = some (x, y) := List.getElem?_zip_eq_some.2 ⟨hx, hy⟩
  have hmerge : some (mergeKinds? x.kind y.kind) = some (some kind) := by
    simpa [hzip, hkind] using congrArg (fun l => l[k]?) hkinds
  exact ⟨Option.some.inj hmerge, Option.some.inj hwidth, rfl⟩

/-- A selection between aggregates that goes through. -/
theorem muxFields_eq_ok {c : Signal} {t f fields : Shape.Fields Signal}
    (h : muxFields c t f w = .ok fields w') :
    ∃ a as bs types, w.Reads c a ∧ List.Forall₂ w.Reads (Shape.fieldLeaves t) as ∧
      List.Forall₂ w.Reads (Shape.fieldLeaves f) bs ∧
      Merges (Shape.fieldLeaves t) (Shape.fieldLeaves f) (Shape.fieldLeaves types) ∧
      Shape.fieldLeaves fields = freshSignals w.signals.next (Shape.fieldLeaves types) ∧
      w' = w.selected a as bs types := by
  obtain ⟨⟨⟩, w₁, hshape, hrest⟩ := bind_eq_ok.1 h
  obtain ⟨hwidths, rfl⟩ := checkShape_eq_ok hshape
  obtain ⟨kinds, w₂, hmerge, hrest₁⟩ := bind_eq_ok.1 hrest
  obtain ⟨hkinds, rfl⟩ := mergeAll_eq_ok hmerge
  obtain ⟨a, w₃, ha, hrest₂⟩ := bind_eq_ok.1 hrest₁
  obtain ⟨hcond, rfl⟩ := (operand_reads (I := fun v => v = w₂) c).of_ok rfl ha
  obtain ⟨as, w₄, has, hrest₃⟩ := bind_eq_ok.1 hrest₂
  obtain ⟨htrue, rfl⟩ := (operands_read (I := fun v => v = w₃) (Shape.fieldLeaves t)).of_ok rfl has
  obtain ⟨bs, w₅, hbs, hselect⟩ := bind_eq_ok.1 hrest₃
  obtain ⟨hfalse, rfl⟩ := (operands_read (I := fun v => v = w₄) (Shape.fieldLeaves f)).of_ok rfl hbs
  obtain ⟨hlen, hmerges⟩ := merges_zipWith hwidths hkinds
  have htypes := (Shape.fieldLeaves_retype t [] hlen).1
  rw [List.append_nil] at htypes
  rw [← htypes] at hmerges
  cases hretype : Shape.mapAccumFields retype kinds t with
  | mk types left =>
    rw [hretype] at hmerges hselect
    dsimp only at hselect
    rw [run_select] at hselect
    obtain ⟨rfl, rfl⟩ := EStateM.Result.ok.inj hselect
    exact ⟨a, as, bs, types, hcond, htrue, hfalse, hmerges,
      (Shape.mapAccumFields_freshSignal types _).1, rfl⟩

/-! ## Fields of a selection -/

theorem getElem?_freshSignals (types : List (Kind × Width)) : ∀ next k : Nat,
    (freshSignals next types)[k]? =
      types[k]?.map fun u => ⟨next + k, u.1, Signals.groundWidth u.1 u.2, none⟩ := by
  induction types with
  | nil => intros; rfl
  | cons u rest ih =>
    intro next k
    cases k with
    | zero => rfl
    | succ k =>
      rw [freshSignals, List.getElem?_cons_succ, ih, List.getElem?_cons_succ, Nat.add_assoc,
        Nat.add_comm 1]

/-- A leaf of a selection has the kind of both branches, and their width. -/
theorem Merges.fresh {ts fs : List Signal} {types : List (Kind × Width)} (h : Merges ts fs types)
    {k next : Nat} {x y z : Signal} (hx : ts[k]? = some x) (hy : fs[k]? = some y)
    (hz : (freshSignals next types)[k]? = some z)
    (hgx : Signals.groundWidth x.kind x.width = x.width)
    (hgy : Signals.groundWidth y.kind y.width = y.width) :
    mergeKinds? x.kind y.kind = some z.kind ∧ x.width = z.width ∧ y.width = z.width := by
  rw [getElem?_freshSignals] at hz
  obtain ⟨u, hu, rfl⟩ := Option.map_eq_some_iff.1 hz
  obtain ⟨hkind, hsame, heq⟩ := h.leaf k x y u hx hy hu
  have hground := (groundWidth_of_mergeKinds? hkind hgx hgy).1
  have hwidth : x.width = Signals.groundWidth u.1 u.2 := by
    rw [show u.2 = x.width from (congrArg Prod.snd heq).trans hground, hground]
  exact ⟨hkind, hwidth, hsame ▸ hwidth⟩

namespace Session

/-- Binding some signals leaves every other one as it was. -/
theorem standing_fielded_of_ne {s : Signal} (parent : NodeId) : ∀ (ss : List Signal) (index : Nat)
    (w : Session), (∀ r ∈ ss, s.serial ≠ r.serial) →
      (fielded parent index ss w).signals.standing s = w.signals.standing s
  | [], _, _, _ => rfl
  | r :: rest, index, w, h => by
    rw [List.forall_mem_cons] at h
    rw [fielded, standing_fielded_of_ne parent rest _ _ h.2]
    exact Signals.standing_bind_of_ne _ _ h.1

/-- New signals that are made into fields are bound to consecutive entries. -/
theorem standing_fielded_freshSignals (parent : NodeId) (types : List (Kind × Width)) :
    ∀ (index next : Nat) (w : Session) {k : Nat} {s : Signal}, (freshSignals next types)[k]? = some s →
      (fielded parent index (freshSignals next types) w).signals.standing s =
        .bound ⟨.result, w.draft.context, idAt (w.draft.nodes.length + k)⟩ := by
  induction types with
  | nil =>
    intro index next w k s hs
    cases hs
  | cons u rest ih =>
    intro index next w k s hs
    cases k with
    | zero =>
      obtain rfl := Option.some.inj hs
      rw [freshSignals, fielded, standing_fielded_of_ne]
      · exact Signals.standing_bind _ _ _ rfl
      · -- the others have later numbers
        intro r hr
        exact Nat.ne_of_lt (le_serial_freshSignals rest (next + 1) r hr)
    | succ k =>
      rw [freshSignals, List.getElem?_cons_succ] at hs
      rw [freshSignals, fielded, ih _ _ _ hs, nodes_placed, context_placed, List.length_append,
        List.length_singleton, Nat.add_assoc, Nat.add_comm 1]

/-- The place and the entry of a leaf of a selection. -/
theorem leaf_selected {w : Session} {c : Operand} {t f : List Operand}
    {types : Shape.Fields (Kind × Width)} {k : Nat} {s : Signal}
    (hs : (freshSignals w.signals.next (Shape.fieldLeaves types))[k]? = some s) :
    (w.selected c t f types).signals.standing s =
        .bound ⟨.result, w.draft.context, idAt (w.draft.nodes.length + 1 + k)⟩ ∧
      (w.selected c t f types).draft.nodes[w.draft.nodes.length + 1 + k]? =
        some (resultNode s (.field w.draft.nextId (UInt32.ofNat k))) := by
  constructor
  · rw [selected, standing_fielded_freshSignals _ _ _ _ _ hs]
    simp [withNode, withCommand]
  · rw [nodes_selected, List.getElem?_append_right (by omega)]
    have hindex : w.draft.nodes.length + 1 + k - w.draft.nodes.length = k + 1 := by omega
    rw [hindex, List.getElem?_cons_succ, getElem?_fieldNodes, hs, Nat.zero_add]
    rfl

end Session

/-- The fields that stand in a row behind a node are its field nodes, in this order. -/
theorem Row.fieldNode? {c : Circuit} {id : NodeId} {ty : Ty} (h : Row c.nodes id ty.leaves)
    (hlen : c.nodes.length ≤ 2 ^ 32) {k : Nat} (hk : k < ty.leaves.length) :
    (c.fieldNodes id)[k]? = some (idAt (id.index.toNat + 1 + k)) := by
  rw [(h.hasFields hlen).listed, fieldEntries_eq_fieldsFrom, h.entries, List.map_map,
    List.getElem?_map, List.getElem?_range hk]
  rfl

/-- What stands beside an element. -/
theorem exists_of_forall₂ {α β : Type} {R : α → β → Prop} {xs : List α} {ys : List β}
    (h : List.Forall₂ R xs ys) : ∀ {k : Nat} {x : α}, xs[k]? = some x → ∃ y, ys[k]? = some y ∧ R x y := by
  induction h with
  | nil => exact nofun
  | @cons a b as bs hab _ ih =>
    intro k x hx
    cases k with
    | zero =>
      obtain rfl := Option.some.inj hx
      exact ⟨b, rfl, hab⟩
    | succ k => exact ih hx

end Draft

/-! ## Selections in a trial -/

namespace Trial

variable {T : Trial}

/-- The signal `z` keeps the value of `x` where the condition holds, and that of `y` where it does
    not. -/
def Selects (T : Trial) (c x y z : Signal) : Prop :=
  ∃ k v p, T.value? c = some k ∧ T.value? z = some v ∧
    T.value? (if k.isTrue then x else y) = some p ∧ v.number = p.number

/-- Leaf by leaf, `z` keeps the value of `x` or that of `y`. -/
structure SelectsAll (T : Trial) (c : Signal) (x y z : Draft.Bundle) : Prop where
  left : x.leaves.length = z.leaves.length
  right : y.leaves.length = z.leaves.length
  leaf : ∀ (k : Nat) r s u, x.leaves[k]? = some r → y.leaves[k]? = some s → z.leaves[k]? = some u →
    T.Selects c r s u

/-- What a branch has to be like for a result of this width and sign to have room for it. -/
structure Branch (T : Trial) (s : Signal) (v : Value) (width : Nat) (signed : Bool) : Prop where
  has : T.Has s v
  width_le : v.width ≤ width
  signed_eq : v.signed = signed

/-- A branch is not changed by being cut to the width of the result. -/
theorem Branch.number_eq {s : Signal} {v : Value} {width : Nat} {signed : Bool}
    (h : T.Branch s v width signed) : Value.number ⟨cut width v.number, width, signed⟩ = v.number := by
  rw [Value.number_cut, ← h.signed_eq, fit_of_inSpan (h.has.fits.inSpan.mono h.width_le)]

/-- Only the branch that is taken needs to have a value. -/
theorem selects_of_apply {c x y z : Signal} {k p q : Value} {width : Nat} {signed : Bool}
    (hle : width ≤ Value.maxWidth) (hc : T.Has c k)
    (hx : k.isTrue = true → T.Branch x p width signed)
    (hy : k.isTrue = false → T.Branch y q width signed)
    (hz : T.value? z = some ⟨Operator.apply .mux [k, p, q] width, width, signed⟩) :
    T.Selects c x y z := by
  rw [Operator.apply_mux hle] at hz
  cases htrue : k.isTrue with
  | true =>
    rw [htrue] at hz
    have hbranch := hx htrue
    exact ⟨k, _, p, hc.value, hz, by rw [htrue]; exact hbranch.has.value, hbranch.number_eq⟩
  | false =>
    rw [htrue] at hz
    have hbranch := hy htrue
    exact ⟨k, _, q, hc.value, hz, by rw [htrue]; exact hbranch.has.value, hbranch.number_eq⟩

/-- A single leaf is selected leaf by leaf. -/
theorem Selects.all {c x y z : Signal} (h : T.Selects c x y z) :
    T.SelectsAll c (.leaf x) (.leaf y) (.leaf z) where
  left := rfl
  right := rfl
  leaf k r s u hr hs hu := by
    cases k with
    | zero =>
      obtain rfl := Option.some.inj hr
      obtain rfl := Option.some.inj hs
      obtain rfl := Option.some.inj hu
      exact h
    | succ k => cases hr

namespace Passed

variable {L : List Signal} {w w' : Session}

/-- What a selection between ground signals makes: its kind, its width and its value. -/
theorem mux_value {c x y z : Signal} (h : T.Passed w') (hw : w.Proper L) (known : [c, x, y] ⊆ L)
    (hrun : Draft.mux c x y w = .ok z w') :
    Draft.mergeKinds? x.kind y.kind = some z.kind ∧ z.width = x.width.max y.width ∧
      ∃ k p q W, T.Has c k ∧ T.Has x p ∧ T.Has y q ∧ z.width = .known W ∧
        W.toNat ≤ Value.maxWidth ∧
        T.value? z = some ⟨Operator.apply .mux [k, p, q] W.toNat, W.toNat, z.kind.isSigned⟩ := by
  obtain ⟨kind, hkind, happly⟩ := Draft.mux_eq_ok hrun
  obtain ⟨args, hreads, rfl, rfl⟩ := Draft.applyAt_eq_ok happly
  obtain ⟨-, hx, hy⟩ : c ∈ L ∧ x ∈ L ∧ y ∈ L := by simpa using known
  obtain ⟨vs, W, hvs, hground, hle, hz⟩ := h.result hw known hreads rfl
  obtain ⟨hgx, hgy⟩ := Draft.groundWidth_of_mergeKinds? hkind (hw.suited.signals x hx).grounded
    (hw.suited.signals y hy).grounded
  obtain _ | ⟨hk, _ | ⟨hp, _ | ⟨hq, hnil⟩⟩⟩ := hvs
  cases hnil
  exact ⟨hkind, Signals.groundWidth_max hgx hgy, _, _, _, W, hk, hp, hq, hground, hle, hz⟩

/-- A selection between ground signals. -/
theorem mux {c x y z : Signal} (h : T.Passed w') (hw : w.Proper L) (known : [c, x, y] ⊆ L)
    (hrun : Draft.mux c x y w = .ok z w') : T.Selects c x y z := by
  obtain ⟨hkind, hwidth, k, p, q, W, hk, hp, hq, hground, hle, hz⟩ := h.mux_value hw known hrun
  obtain ⟨hsx, hsy⟩ := Draft.isSigned_of_mergeKinds? hkind
  have hW := Width.eq_max hp.measures hle hq.measures (hwidth.symm.trans hground)
  refine selects_of_apply hle hk (fun _ => ⟨hp, ?_, hp.signed.trans hsx⟩)
    (fun _ => ⟨hq, ?_, hq.signed.trans hsy⟩) hz
  · exact hW ▸ Nat.le_max_left _ _
  · exact hW ▸ Nat.le_max_right _ _

/-- The evaluator has made every field of a selection. -/
theorem fieldHolds {a : Operand} {as bs : List Operand} {types : Shape.Fields (Kind × Width)}
    (h : T.Passed (w.selected a as bs types)) :
    ∃ q, T.bench.value? T.settled.values a = some q ∧
      ∀ (k : Nat) x y, k < (Shape.fieldLeaves types).length → as[k]? = some x → bs[k]? = some y →
        T.bench.FieldHolds T.settled.values q (Draft.idAt (w.draft.nodes.length + 1 + k)) x y := by
  have hsize : w.draft.nodes.length < 2 ^ 32 := by
    have hle := Nat.le_trans h.nodes.length_le T.size
    rw [Session.nodes_selected, List.length_append, List.length_cons] at hle
    omega
  have hparentAt : w.draft.nextId.index.toNat = w.draft.nodes.length := Draft.toNat_idAt hsize
  have hparent : T.bench.circuit.node? w.draft.nextId = some (Session.selectionNode types) := by
    refine h.node? ?_
    rw [Session.nodes_selected, hparentAt]
    simp
  have hcommand : T.bench.circuit.commands[w.draft.commands.length]? = some (.defPrim w.draft.nextId
      .mux (Session.selectionArgs a as bs)) := h.command? (by simp)
  have hholds := T.solution.solves.operators _ _ _ _ hcommand
  rw [Bench.operatorHolds_fields hparent (Node.not_isGround rfl)] at hholds
  obtain ⟨cond, t, f, q, -, hargs, hq, -, -, hfields⟩ := hholds
  obtain ⟨rfl, rfl, rfl⟩ : a = cond ∧ as = t ∧ bs = f := by simpa [Session.selectionArgs] using hargs
  refine ⟨q, hq, fun k x y hk hx hy => hfields k _ x y ?_ hx hy⟩
  -- the fields stand in a row behind the aggregate
  obtain ⟨-, -, hrow⟩ := T.elaborated.grown.aggregate T.size hparent rfl
  have hfield := hrow.fieldNode? T.size (k := k)
  rw [Session.selectionNode, Ty.leaves, Shape.fieldLeaves_fieldsToTy, hparentAt] at hfield
  exact hfield hk

/-- **A leaf of a selection** is the selection between the leaves in its place. -/
theorem selectedLeaf {c : Signal} {ts fs : List Signal} {a : Operand} {as bs : List Operand}
    {types : Shape.Fields (Kind × Width)} (h : T.Passed (w.selected a as bs types)) (hw : w.Proper L)
    (hpassed : T.Passed w) (known : c :: (ts ++ fs) ⊆ L)
    (hcond : w.Reads c a) (htrue : List.Forall₂ w.Reads ts as) (hfalse : List.Forall₂ w.Reads fs bs)
    {k : Nat} {x y z : Signal} (hx : ts[k]? = some x) (hy : fs[k]? = some y)
    (hz : (freshSignals w.signals.next (Shape.fieldLeaves types))[k]? = some z) :
    ∃ q vx vy W, T.Has c q ∧ (q.isTrue = true → T.Has x vx) ∧ (q.isTrue = false → T.Has y vy) ∧
      z.width = .known W ∧ W.toNat ≤ Value.maxWidth ∧
      T.value? z =
        some ⟨Operator.apply .mux [q, vx, vy] W.toNat, W.toNat, z.kind.isSigned⟩ := by
  obtain ⟨hc, hbranches⟩ := List.cons_subset.1 known
  obtain ⟨hts, hfs⟩ := List.append_subset.1 hbranches
  obtain ⟨ax, hax, hreadsx⟩ := Draft.exists_of_forall₂ htrue hx
  obtain ⟨ay, hay, hreadsy⟩ := Draft.exists_of_forall₂ hfalse hy
  have hk : k < (Shape.fieldLeaves types).length := by
    have hlt := (List.getElem?_eq_some_iff.1 hz).1
    rwa [Draft.length_freshSignals] at hlt
  obtain ⟨q, hq, hfields⟩ := h.fieldHolds
  obtain ⟨W, vx, vy, hW, hvx, hvy, hvalue⟩ := hfields k ax ay hk hax hay
  -- the leaf is bound to the field
  obtain ⟨hbound, hentry⟩ := Session.leaf_selected (c := a) (t := as) (f := bs) hz
  have hsize : w.draft.nodes.length + 1 + k < 2 ^ 32 :=
    Nat.lt_of_lt_of_le (List.getElem?_eq_some_iff.1 hentry).1 (Nat.le_trans h.nodes.length_le T.size)
  rw [← Draft.toNat_idAt hsize] at hentry
  obtain ⟨u, hwidth, rfl, hle, hvz⟩ :=
    h.value?_computed hbound (Session.context_selected ..).symm hentry rfl hW hvalue
  exact ⟨q, vx, vy, u, hpassed.reads hw hc hcond hq,
    fun ht => hpassed.reads hw (hts (List.mem_of_getElem? hx)) hreadsx (hvx ht),
    fun hf => hpassed.reads hw (hfs (List.mem_of_getElem? hy)) hreadsy (hvy hf), hwidth, hle, hvz⟩

/-- A selection between aggregates. -/
theorem muxFields {c : Signal} {t f fields : Shape.Fields Signal} (h : T.Passed w') (hw : w.Proper L)
    (known : c :: (Shape.fieldLeaves t ++ Shape.fieldLeaves f) ⊆ L)
    (hrun : Draft.muxFields c t f w = .ok fields w') :
    T.SelectsAll c (.group t) (.group f) (.group fields) := by
  obtain ⟨a, as, bs, types, hcond, htrue, hfalse, hmerges, hfields, rfl⟩ := Draft.muxFields_eq_ok hrun
  have hlen : (Shape.fieldLeaves fields).length = (Shape.fieldLeaves types).length := by
    rw [hfields, Draft.length_freshSignals]
  have hpassed : T.Passed w := by
    refine h.back_step (.select c _ _ a as bs types hcond htrue hfalse
      (hmerges.left.trans hmerges.right.symm) hmerges.left.symm (fun u hu => ?_) known) hw
    exact hmerges.grounded u hu
  refine ⟨hmerges.left.trans hlen.symm, hmerges.right.trans hlen.symm, fun k x y z hx hy hz => ?_⟩
  have hfresh : (freshSignals w.signals.next (Shape.fieldLeaves types))[k]? = some z := hfields ▸ hz
  obtain ⟨q, vx, vy, W, hq, hvx, hvy, hwidth, hle, hvz⟩ :=
    h.selectedLeaf hw hpassed known hcond htrue hfalse hx hy hfresh
  -- the leaf is as wide as both branches, and has their sign
  obtain ⟨-, hbranches⟩ := List.cons_subset.1 known
  obtain ⟨ht, hf⟩ := List.append_subset.1 hbranches
  have hgx := (hw.suited.signals x (ht (List.mem_of_getElem? hx))).grounded
  have hgy := (hw.suited.signals y (hf (List.mem_of_getElem? hy))).grounded
  obtain ⟨hkind, hwx, hwy⟩ := hmerges.fresh hx hy hfresh hgx hgy
  obtain ⟨hsx, hsy⟩ := Draft.isSigned_of_mergeKinds? hkind
  refine selects_of_apply hle hq (fun hp => ⟨hvx hp, ?_, (hvx hp).signed.trans hsx⟩)
    (fun hp => ⟨hvy hp, ?_, (hvy hp).signed.trans hsy⟩) hvz
  · exact Nat.le_of_eq ((hvx hp).measures W (hwx.trans hwidth))
  · exact Nat.le_of_eq ((hvy hp).measures W (hwy.trans hwidth))

theorem muxBundle {c : Signal} {x y z : Draft.Bundle} (h : T.Passed w') (hw : w.Proper L)
    (known : c :: (x.leaves ++ y.leaves) ⊆ L) (hrun : Draft.muxBundle c x y w = .ok z w') :
    T.SelectsAll c x y z := by
  cases x with
  | leaf a =>
    cases y with
    | leaf b =>
      obtain ⟨u, w₁, hu, hret⟩ := bind_eq_ok.1 hrun
      obtain ⟨rfl, rfl⟩ := EStateM.Result.ok.inj hret
      exact (h.mux hw known hu).all
    | group fs => cases hrun
  | group ts =>
    cases y with
    | leaf b => cases hrun
    | group fs =>
      obtain ⟨fields, w₁, hfields, hret⟩ := bind_eq_ok.1 hrun
      obtain ⟨rfl, rfl⟩ := EStateM.Result.ok.inj hret
      exact h.muxFields hw known hfields

end Passed

end Trial

/-! ## Calls -/

namespace Script

variable {w w' : World} {r : Answer × Option Draft.Bundle} {c t f : String}

/-- What a selection has been made of. -/
structure Chosen (w : World) (c t f : String) (s : Signal) (x y : Draft.Bundle) : Prop where
  condition : w.values.lookup c = some (.leaf s)
  whenTrue : w.values.lookup t = some x
  whenFalse : w.values.lookup f = some y

theorem Chosen.known {s : Signal} {x y : Draft.Bundle} (h : Chosen w c t f s x y) :
    s :: (x.leaves ++ y.leaves) ⊆ w.around :=
  List.cons_subset.2 ⟨mem_around h.condition,
    List.append_subset.2 ⟨leaves_of_lookup h.whenTrue, leaves_of_lookup h.whenFalse⟩⟩

theorem chosen_eq_ok {α : Type} {g : Signal → Draft.Bundle → Draft.Bundle → Run α} {a : α}
    (h : (boolean c >>= fun s => bundle t >>= fun x => bundle f >>= g s x) w = .ok a w') :
    ∃ s x y, Chosen w c t f s x y ∧ g s x y w = .ok a w' := by
  obtain ⟨s, w₁, hcond, hrest⟩ := bind_eq_ok.1 h
  obtain ⟨hs, rfl⟩ := (boolean_looksUp c).of_ok rfl hcond
  obtain ⟨x, w₂, htrue, hrest₁⟩ := bind_eq_ok.1 hrest
  obtain ⟨hx, rfl⟩ := (bundle_looksUp t).of_ok rfl htrue
  obtain ⟨y, w₃, hfalse, hrest₂⟩ := bind_eq_ok.1 hrest₁
  obtain ⟨hy, rfl⟩ := (bundle_looksUp f).of_ok rfl hfalse
  exact ⟨s, x, y, ⟨hs, hx, hy⟩, hrest₂⟩

/-- Ground values and aggregates alike are selected as bundles. -/
theorem meaning_mux_eq_ok (h : meaning (.mux c t f) w = .ok r w') :
    ∃ s x y z v, Chosen w c t f s x y ∧ Draft.muxBundle s x y w.session = .ok z v ∧ r.2 = some z ∧
      w' = { w with session := v } := by
  obtain ⟨s, x, y, hchosen, hrest⟩ := chosen_eq_ok h
  cases x with
  | leaf a =>
    cases y with
    | leaf b =>
      obtain ⟨u, v, hu, hr, rfl⟩ := answerSignal_eq_ok hrest
      exact ⟨s, _, _, _, v, hchosen, bind_eq_ok.2 ⟨u, v, hu, rfl⟩, hr, rfl⟩
    | group fs => cases hrest
  | group ts =>
    cases y with
    | leaf b => cases hrest
    | group fs =>
      obtain ⟨fields, w₁, hmux, hanswer⟩ := bind_eq_ok.1 hrest
      obtain ⟨v, hz, rfl⟩ := liftBuild_eq_ok hmux
      obtain ⟨hr, rfl⟩ := answerValue_eq_ok hanswer
      exact ⟨s, _, _, _, v, hchosen, bind_eq_ok.2 ⟨fields, v, hz, rfl⟩, hr, rfl⟩

theorem meaning_muxBundle_eq_ok (h : meaning (.muxBundle c t f) w = .ok r w') :
    ∃ s x y z v, Chosen w c t f s x y ∧ Draft.muxBundle s x y w.session = .ok z v ∧ r.2 = some z ∧
      w' = { w with session := v } := by
  obtain ⟨s, x, y, hchosen, hrest⟩ := chosen_eq_ok h
  obtain ⟨z, w₁, hmux, hanswer⟩ := bind_eq_ok.1 hrest
  obtain ⟨v, hrun, rfl⟩ := liftBuild_eq_ok hmux
  obtain ⟨hr, rfl⟩ := answerValue_eq_ok hanswer
  exact ⟨s, x, y, z, v, hchosen, hrun, hr, rfl⟩

end Script

namespace Trial.Calls

variable {T : Trial} {r : Script.Answer × Option Draft.Bundle} {before after : Script.World}
  {c t f : String}

/-- What `mux` comes to, for ground values and for aggregates. -/
theorem mux (h : T.Calls (.mux c t f) r before after) :
    ∃ s x y z, Script.Chosen before c t f s x y ∧ r.2 = some z ∧ T.SelectsAll s x y z := by
  obtain ⟨s, x, y, z, v, hchosen, hrun, hr, rfl⟩ := Script.meaning_mux_eq_ok h.call
  exact ⟨s, x, y, z, hchosen, hr, Passed.muxBundle h.passed h.proper hchosen.known hrun⟩

theorem muxBundle (h : T.Calls (.muxBundle c t f) r before after) :
    ∃ s x y z, Script.Chosen before c t f s x y ∧ r.2 = some z ∧ T.SelectsAll s x y z := by
  obtain ⟨s, x, y, z, v, hchosen, hrun, hr, rfl⟩ := Script.meaning_muxBundle_eq_ok h.call
  exact ⟨s, x, y, z, hchosen, hr, Passed.muxBundle h.passed h.proper hchosen.known hrun⟩

end Trial.Calls

end Circuitry
