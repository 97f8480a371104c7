/-
  Values of what is left.

  Two benches whose circuits have grown side by side, each with an assignment that satisfies its
  operators.  If the assignments agree on declared nodes, they agree on everything: a result that is
  left has the value of the node in its place, and a result that is gone has the value of the literal
  in its place (`Twin.shows`).  The first part is one command at a time (`result_image`,
  `field_image`); the second is what `Constant.folded_eq_iff` is for, and holds as long as no bits are
  taken of a negative literal above its payload (`Circuit.StaysWithin`).

  The order of the commands carries the proof: an operator takes results of earlier commands only.
-/
import Circuitry.Proofs.Bench.Dependency
import Circuitry.Proofs.Folding.Folds
import Circuitry.Proofs.Folding.Guards

namespace Circuitry

/-- The command does not take bits of a negative literal above its payload. -/
def Command.StaysWithin : Command → Prop
  | .defPrim _ (.bits hi _) [.constant k] => ¬ k.Overreaches hi
  | _ => True

instance : DecidablePred Command.StaysWithin := fun cmd => by
  unfold Command.StaysWithin
  split <;> infer_instance

/-- No command takes bits of a negative literal above its payload. -/
def Circuit.StaysWithin (c : Circuit) : Prop := ∀ cmd ∈ c.commands, cmd.StaysWithin

instance : DecidablePred Circuit.StaysWithin :=
  fun c => inferInstanceAs (Decidable (∀ cmd ∈ c.commands, cmd.StaysWithin))

namespace Bench

/-- Two benches whose circuits have grown side by side. -/
structure Twin (im : List Operand) (b b' : Bench) : Prop where
  left : b.Elaborated
  right : b'.Elaborated
  folds : Folds b.circuit b'.circuit im
  width : ∀ id n, b.circuit.node? id = some n → n.IsGround →
    ∃ w, b.width id = .ok w ∧ w ≤ Value.maxWidth
  within : b.circuit.StaysWithin

/-- The value of what stands in the place of a node. -/
def imageValue? (im : List Operand) (values' : List Nat) (id : NodeId) : Option Nat :=
  match (Operand.node id).image im with
  | .node id' => nodeValue? values' id'
  | .constant k => some k.value.value
  | .aggregate _ => none

/-- A node has the value of what stands in its place. -/
def Shows (im : List Operand) (U U' : List Nat) (id : NodeId) : Prop :=
  nodeValue? U id = imageValue? im U' id

variable {im : List Operand} {b b' : Bench} {U U' : List Nat}

theorem image_of_getElem? {id : NodeId} {a : Operand} (h : im[id.index.toNat]? = some a) :
    (Operand.node id).image im = a := by
  rw [Operand.image, List.getD_eq_getElem?_getD, h, Option.getD_some]

theorem imageValue?_node {id id' : NodeId} (h : im[id.index.toNat]? = some (.node id')) :
    imageValue? im U' id = nodeValue? U' id' := by
  rw [imageValue?, image_of_getElem? h]

theorem imageValue?_constant {id : NodeId} {k : Constant}
    (h : im[id.index.toNat]? = some (.constant k)) :
    imageValue? im U' id = some k.value.value := by
  rw [imageValue?, image_of_getElem? h]

namespace Twin

/-! ## Operands -/

/-- What stands in the place of a node that there is. -/
theorem place_cases (h : Twin im b b') {id : NodeId} {n : Node} (hn : b.circuit.node? id = some n) :
    (∃ id', im[id.index.toNat]? = some (.node id') ∧
      b'.circuit.node? id' = some (n.image im) ∧ ∀ w, b.width id = .ok w → b'.width id' = .ok w) ∨
    ∃ k, im[id.index.toNat]? = some (.constant k) := by
  have hlt := (List.getElem?_eq_some_iff.1 hn).1
  rw [← h.folds.length] at hlt
  have hget := List.getElem?_eq_getElem hlt
  rcases h.folds.place_cases _ (List.getElem_mem hlt) with ⟨id', hid⟩ | ⟨k, hk⟩
  · rw [hid] at hget
    have hn' := h.folds.node?_image h.left.size hn hget
    refine .inl ⟨id', hget, hn', fun w hw => ?_⟩
    have hty : (n.image im).ty = n.ty := rfl
    simp only [Bench.width, hn, hn', Option.bind_some, hty] at hw ⊢
    split at hw
    · exact hw
    · cases hw
  · exact .inr ⟨k, hget.trans (congrArg some hk)⟩

/-- The place of a node that is not a ground result is a node. -/
theorem exists_place (h : Twin im b b') {id : NodeId} {n : Node} (hn : b.circuit.node? id = some n)
    (hrole : n.role ≠ .result ∨ n.origin ≠ .defined ∨ ¬ n.IsGround) :
    ∃ id', im[id.index.toNat]? = some (.node id') ∧
      b'.circuit.node? id' = some (n.image im) ∧
      ∀ w, b.width id = .ok w → b'.width id' = .ok w := by
  rcases h.place_cases hn with hplace | ⟨k, hk⟩
  · exact hplace
  · obtain ⟨id', hid⟩ := h.folds.exists_image h.left.size hn hrole
    rw [hid] at hk
    cases hk

/-- The width of a result that is gone is that of the range. -/
theorem width_gone {n : Node} {hi lo : UInt32} {a : Operand} {k : Constant}
    (htaken : Taken im n hi lo a k) {id : NodeId} {w : Nat}
    (hn : b.circuit.node? id = some n) (hw : b.width id = .ok w) : w = (hi - lo + 1).toNat := by
  simp only [Bench.width, hn, Option.bind_some, htaken.ty, Ty.width?, htaken.width] at hw
  exact (Except.ok.inj hw).symm

/-- A literal that stands for a result is unsigned, and its value is its payload. -/
theorem constant_gone (h : Twin im b b') {id : NodeId} {n : Node} {k : Constant} {w : Nat}
    (hn : b.circuit.node? id = some n) (hk : im[id.index.toNat]? = some (.constant k))
    (hw : b.width id = .ok w) (hle : w ≤ Value.maxWidth) :
    Bench.constant k = .ok ⟨k.value.value, w, false⟩ ∧ n.ty = .element k.kind k.width ∧
      k.kind.isSigned = false := by
  obtain ⟨m, hi, lo, a, j, hm, -, htaken⟩ := (h.folds.gone_of_constant h.left.size hk).operator
  obtain rfl := Option.some.inj (hn.symm.trans hm)
  have hwidth := width_gone htaken hn hw
  obtain ⟨k₀, -, -, hvalue⟩ := htaken.source
  refine ⟨?_, htaken.ty, htaken.unsigned⟩
  have hlt : k.value.value < 2 ^ w := by
    rw [hvalue, hwidth]
    exact Bits.value_lt _
  have hbits : k.value.significantBits ≤ 128 := by
    have hwords : Words.toNat k.value.words = k.value.value := by
      rw [hvalue, Constant.folded, Bits.slice, Bits.toNat_words_ofNat, Bits.value_ofNat]
    rw [Bits.significantBits, Words.bitLength_le_iff, hwords]
    exact Nat.lt_of_lt_of_le hlt (Nat.pow_le_pow_right (by decide) hle)
  have hnot : ¬ Value.maxWidth < (hi - lo + 1).toNat := by omega
  unfold Bench.constant
  simp only [htaken.width, Width.get?, Option.getD_some, if_neg hnot, Bits.toUnsigned?, if_pos hbits,
    cut_natCast, htaken.unsigned]
  rw [← hwidth, Nat.mod_eq_of_lt hlt]

/-- The node can have a value, and shows that of what stands in its place. -/
def Seen (im : List Operand) (b : Bench) (U U' : List Nat) (id : NodeId) : Prop :=
  ∃ n, b.circuit.node? id = some n ∧ n.IsGround ∧ Shows im U U' id

theorem value?_node {id : NodeId} {n : Node} {w : Nat} (hn : b.circuit.node? id = some n)
    (hw : b.width id = .ok w) : b.value? U (.node id) =
      some ⟨(nodeValue? U id).getD 0, w, n.ty.kind? = some .sint⟩ := by
  rw [value?, operand, hn, ← List.getD_eq_getElem?_getD]
  dsimp only
  rw [hw]
  rfl

/-- An operand has the value of what stands in its place. -/
theorem value?_image (h : Twin im b b') {a : Operand} (ha : ∀ id ∈ a.nodes, Seen im b U U' id) :
    b'.value? U' (a.image im) = b.value? U a := by
  cases a with
  | node id =>
    obtain ⟨n, hn, hground, hshows⟩ := ha id (List.mem_singleton_self _)
    obtain ⟨w, hw, hle⟩ := h.width id n hn hground
    rw [value?_node hn hw, hshows]
    rcases h.place_cases hn with ⟨id', hid, hn', hw'⟩ | ⟨k, hk⟩
    · rw [image_of_getElem? hid, value?_node hn' (hw' w hw), imageValue?_node hid]
      rfl
    · -- the result is gone, and its literal has its width and is unsigned as well
      obtain ⟨hconstant, hty, hunsigned⟩ := h.constant_gone hn hk hw hle
      have hsign : decide (n.ty.kind? = some .sint) = false := by
        rw [hty, decide_eq_false_iff_not]
        intro hsint
        rw [Option.some.inj hsint] at hunsigned
        cases hunsigned
      rw [image_of_getElem? hk, imageValue?_constant hk, value?, operand, hconstant, hsign]
      rfl
  | constant c => rfl
  | aggregate xs => rfl

theorem mapM_value?_image (h : Twin im b b') : ∀ {args : List Operand},
    (∀ id ∈ operandsNodes args, Seen im b U U' id) →
      (operandsImage im args).mapM (b'.value? U') = args.mapM (b.value? U)
  | [], _ => rfl
  | a :: args, ha => by
    have hfirst := h.value?_image fun id hid => ha id (List.mem_append_left _ hid)
    have hrest := mapM_value?_image h fun id hid => ha id (List.mem_append_right _ hid)
    rw [operandsImage, List.mapM_cons, List.mapM_cons, hfirst, hrest]

/-! ## Results that are left -/

/-- What is left of a command is in the stream. -/
theorem exists_command (h : Twin im b b') {j : Nat} {cmd cmd' : Command}
    (hcmd : b.circuit.commands[j]? = some cmd) (himage : cmd.image im = some cmd') :
    ∃ i : Nat, b'.circuit.commands[i]? = some cmd' := by
  refine List.mem_iff_getElem?.1 ?_
  rw [h.folds.commands h.left.size]
  exact List.mem_filterMap.2 ⟨cmd, List.mem_of_getElem? hcmd, himage⟩

/-- What is left of an operator computes its result. -/
theorem operatorHolds_image (h : Twin im b b') (hU' : b'.OperatorsHold U') {j : Nat}
    {result id' : NodeId} {op : Operator} {args : List Operand}
    (hcmd : b.circuit.commands[j]? = some (.defPrim result op args))
    (hid : im[result.index.toNat]? = some (.node id')) :
    b'.OperatorHolds U' id' op (operandsImage im args) := by
  have himage : (Command.defPrim result op args).image im =
      some (.defPrim id' op (operandsImage im args)) := by
    rw [Command.image, image_of_getElem? hid]
  obtain ⟨i, hi⟩ := h.exists_command hcmd himage
  exact hU' i _ _ _ hi

/-- A ground result that is left. -/
theorem result_image (h : Twin im b b') (hU : b.OperatorsHold U) (hU' : b'.OperatorsHold U')
    {j : Nat} {result id' : NodeId} {op : Operator} {args : List Operand} {n : Node}
    (hcmd : b.circuit.commands[j]? = some (.defPrim result op args))
    (hn : b.circuit.node? result = some n) (hground : n.IsGround)
    (hid : im[result.index.toNat]? = some (.node id'))
    (hargs : ∀ id ∈ operandsNodes args, Seen im b U U' id) : Shows im U U' result := by
  have hn' := h.folds.node?_image h.left.size hn hid
  have hground' : (n.image im).IsGround := hground
  obtain ⟨w, vs, hw, hvs, hval⟩ := (operatorHolds_ground hn hground).1 (hU j _ op args hcmd)
  obtain ⟨w', vs', hw', hvs', hval'⟩ :=
    (operatorHolds_ground hn' hground').1 (h.operatorHolds_image hU' hcmd hid)
  rw [h.mapM_value?_image hargs, hvs] at hvs'
  obtain rfl := Option.some.inj hvs'
  rcases h.place_cases hn with ⟨id'', hid', -, hwidth⟩ | ⟨k, hk⟩
  · obtain rfl := Operand.node.inj (Option.some.inj (hid.symm.trans hid'))
    obtain rfl := Except.ok.inj ((hwidth w hw).symm.trans hw')
    rw [Shows, imageValue?_node hid, hval, hval']
  · rw [hid] at hk
    cases hk

/-! ## Fields that are left -/

theorem idImage_of_getElem? {id id' : NodeId} (h : im[id.index.toNat]? = some (.node id')) :
    id.image im = id' := by
  rw [NodeId.image, image_of_getElem? h]

/-- The leaves of what stands in the place of an aggregate. -/
theorem fieldEntries_image (h : Twin im b b') {parent parent' : NodeId}
    (hparent : im[parent.index.toNat]? = some (.node parent')) :
    b'.circuit.fieldEntries parent' =
      (b.circuit.fieldEntries parent).map fun e => (e.1, e.2.image im) := by
  rw [Circuit.fieldEntries, Circuit.fieldEntries, h.folds.numbered h.left.size,
    List.filterMap_filterMap, List.map_filterMap]
  refine List.filterMap_congr fun e hmem => ?_
  obtain ⟨id, n⟩ := e
  have hn := (Circuit.mem_numbered h.left.size).1 hmem
  dsimp only
  cases horigin : n.origin with
  | defined =>
    have hdefined : (n.image im).origin = .defined := by rw [Node.image, horigin]; rfl
    rcases h.place_cases hn with ⟨id', hid, -, -⟩ | ⟨k, hk⟩
    · rw [entryImage, image_of_getElem? hid]
      simp [hdefined]
    · rw [entryImage, image_of_getElem? hk]
      rfl
  | field p index =>
    have hne : n.origin ≠ .defined := by rw [horigin]; intro h; cases h
    obtain ⟨id', hid, -, -⟩ := h.exists_place hn (.inr (.inl hne))
    have hfield : (n.image im).origin = .field (p.image im) index := by rw [Node.image, horigin]; rfl
    -- the parent is an aggregate, so a node stands in its place
    obtain ⟨p', hp'⟩ : ∃ p', im[p.index.toNat]? = some (.node p') := by
      cases h.left.grown.node_cases h.left.size n (List.mem_of_getElem? hn) with
      | declared _ origin _ => exact absurd origin hne
      | result _ origin => exact absurd origin hne
      | field q _ _ origin _ entry =>
        obtain ⟨rfl, -⟩ := Origin.field.inj (horigin.symm.trans origin)
        obtain ⟨m, hm, hfields⟩ := entry
        obtain ⟨p', hp', -, -⟩ := h.exists_place hm (.inr (.inr hfields))
        exact ⟨p', hp'⟩
    have hiff : p' = parent' ↔ p = parent := by
      constructor
      · rintro rfl
        exact h.folds.image_injective h.left.size hp' hparent
      · rintro rfl
        exact Operand.node.inj (Option.some.inj (hp'.symm.trans hparent))
    rw [entryImage, image_of_getElem? hid]
    simp only [Option.bind_some, hfield, idImage_of_getElem? hp']
    by_cases hp : p = parent
    · rw [if_pos (hiff.2 hp), if_pos hp, Option.map_some, idImage_of_getElem? hid]
    · rw [if_neg (mt hiff.1 hp), if_neg hp]
      rfl

theorem fieldNodes_image (h : Twin im b b') {parent parent' : NodeId}
    (hparent : im[parent.index.toNat]? = some (.node parent')) :
    b'.circuit.fieldNodes parent' = (b.circuit.fieldNodes parent).map (NodeId.image im) := by
  rw [Circuit.fieldNodes, Circuit.fieldNodes, h.fieldEntries_image hparent,
    Circuit.sortEntries_eq_mergeSort, Circuit.sortEntries_eq_mergeSort,
    ← List.map_mergeSort (r := fun x y => decide (x.1 ≤ y.1)) fun _ _ _ _ => rfl, List.map_map,
    List.map_map]
  rfl

/-- A field of a selection that is left. -/
theorem field_image (h : Twin im b b') (hU : b.OperatorsHold U) (hU' : b'.OperatorsHold U') {j : Nat}
    {parent leaf : NodeId} {op : Operator} {args : List Operand} {m : Node}
    (hcmd : b.circuit.commands[j]? = some (.defPrim parent op args))
    (hm : b.circuit.node? parent = some m) (hfields : ¬ m.IsGround)
    (hleaf : leaf ∈ b.circuit.fieldNodes parent)
    (hargs : ∀ id ∈ operandsNodes args, Seen im b U U' id) : Shows im U U' leaf := by
  obtain ⟨parent', hparent, hm', -⟩ := h.exists_place hm (.inr (.inr hfields))
  obtain ⟨n, index, hn, horigin⟩ := (Circuit.mem_fieldNodes h.left.size).1 hleaf
  obtain ⟨leaf', hleaf', -, hwidth⟩ :=
    h.exists_place hn (.inr (.inl (by rw [horigin]; exact nofun)))
  have hfields' : ¬ (m.image im).IsGround := hfields
  obtain ⟨cond, t, f, c, rfl, rfl, hc, ht, hf, hleaves⟩ :=
    (operatorHolds_fields hm hfields).1 (hU j _ op args hcmd)
  obtain ⟨cond', t', f', c', -, himage, hc', -, -, hleaves'⟩ :=
    (operatorHolds_fields hm' hfields').1 (h.operatorHolds_image hU' hcmd hparent)
  simp only [operandsImage, Operand.image, operandsImage_eq_map, List.cons.injEq,
    Operand.aggregate.injEq, and_true] at himage
  obtain ⟨rfl, rfl, rfl⟩ := himage
  have hcond : ∀ id ∈ cond.nodes, Seen im b U U' id :=
    fun id hid => hargs id (List.mem_append_left _ hid)
  rw [h.value?_image hcond, hc] at hc'
  obtain rfl := Option.some.inj hc'
  -- the leaf has the same place among the leaves on both sides
  obtain ⟨k, hk⟩ := List.mem_iff_getElem?.1 hleaf
  have hk' : (b'.circuit.fieldNodes parent')[k]? = some leaf' := by
    rw [h.fieldNodes_image hparent, List.getElem?_map, hk, Option.map_some,
      idImage_of_getElem? hleaf']
  have hlt := (List.getElem?_eq_some_iff.1 hk).1
  have hx : t[k]? = some t[k] := List.getElem?_eq_getElem (ht ▸ hlt)
  have hy : f[k]? = some f[k] := List.getElem?_eq_getElem (hf ▸ hlt)
  have hx' : (t.map (Operand.image im))[k]? = some (t[k].image im) := by
    rw [List.getElem?_map, hx, Option.map_some]
  have hy' : (f.map (Operand.image im))[k]? = some (f[k].image im) := by
    rw [List.getElem?_map, hy, Option.map_some]
  have htrue : ∀ id ∈ t[k].nodes, Seen im b U U' id := fun id hid => hargs id <| by
    simp only [operandsNodes, Operand.nodes, List.mem_append, mem_operandsNodes]
    exact .inr (.inl ⟨_, List.getElem_mem _, hid⟩)
  have hfalse : ∀ id ∈ f[k].nodes, Seen im b U U' id := fun id hid => hargs id <| by
    simp only [operandsNodes, Operand.nodes, List.mem_append, mem_operandsNodes]
    exact .inr (.inr (.inl ⟨_, List.getElem_mem _, hid⟩))
  rw [Shows, imageValue?_node hleaf']
  exact (hleaves k leaf _ _ hk hx hy).congr (hleaves' k leaf' _ _ hk' hx' hy') hwidth
    (h.value?_image htrue).symm (h.value?_image hfalse).symm

/-! ## Results that are gone -/

/-- No bits are taken above the payload of a negative literal, also where a literal stands in the
    place of a result. -/
theorem not_overreaches (h : Twin im b b') {id : NodeId} {hi lo : UInt32} {a : Operand}
    (hcmd : .defPrim id (.bits hi lo) [a] ∈ b.circuit.commands)
    (hsource : ∀ source ∈ a.nodes, Seen im b U U' source) {k₀ : Constant}
    (ha : a.image im = .constant k₀) : ¬ k₀.Overreaches hi := by
  cases a with
  | constant c =>
    obtain rfl := Operand.constant.inj ha
    exact h.within _ hcmd
  | node source =>
    obtain ⟨m, hm, hmground, -⟩ := hsource source (List.mem_singleton_self _)
    obtain ⟨v, hv, hvle⟩ := h.width source m hm hmground
    rcases h.place_cases hm with ⟨id', hid, -, -⟩ | ⟨k', hk'⟩
    · rw [image_of_getElem? hid] at ha
      cases ha
    · -- a literal that stands for a result is unsigned
      rw [image_of_getElem? hk'] at ha
      obtain rfl := Operand.constant.inj ha
      obtain ⟨-, -, hunsigned⟩ := h.constant_gone hm hk' hv hvle
      rintro ⟨hsigned, -⟩
      rw [hunsigned] at hsigned
      cases hsigned
  | aggregate xs => cases ha

/-- **A result that is gone.**  Its literal has been computed from the literal that stands for its
    operand, and the operator makes the same of that. -/
theorem gone_image (h : Twin im b b') (hU : b.OperatorsHold U) {id : NodeId} {n : Node}
    {k : Constant} (hn : b.circuit.node? id = some n) (hk : im[id.index.toNat]? = some (.constant k))
    {j : Nat} {op : Operator} {args : List Operand}
    (hcmd : b.circuit.commands[j]? = some (.defPrim id op args))
    (hargs : ∀ source ∈ operandsNodes args, Seen im b U U' source) : Shows im U U' id := by
  obtain ⟨m, hi, lo, a, j', hm, hcmd', htaken⟩ :=
    (h.folds.gone_of_constant h.left.size hk).operator
  obtain rfl := Option.some.inj (hn.symm.trans hm)
  have hground : n.IsGround := ⟨_, _, htaken.ty⟩
  obtain ⟨w, hw, -⟩ := h.width id n hn hground
  have hwidth := width_gone htaken hn hw
  -- it is this very operator, since an operator makes each result
  rw [Draft.idAt_toNat] at hcmd'
  obtain rfl := h.left.grown.defPrim_injective h.left.size hcmd hcmd'
  rw [hcmd] at hcmd'
  obtain ⟨-, rfl, rfl⟩ := Command.defPrim.inj (Option.some.inj hcmd')
  obtain ⟨w', vs, hw', hvs, hval⟩ := (operatorHolds_ground hn hground).1 (hU j _ _ _ hcmd)
  obtain rfl := Except.ok.inj (hw.symm.trans hw')
  obtain ⟨k₀, ha, hfits, hvalue⟩ := htaken.source
  have hsource : ∀ source ∈ a.nodes, Seen im b U U' source :=
    fun source hmem => hargs source (List.mem_append_left _ hmem)
  have hoperand := h.value?_image hsource
  rw [ha] at hoperand
  have hover := h.not_overreaches (List.mem_of_getElem? hcmd) hsource ha
  -- the operator holds, so the literal had a value to take bits of
  cases hx : Bench.constant k₀ with
  | error f =>
    have hnone : b.value? U a = none := by
      rw [← hoperand, value?, operand, hx]
    rw [List.mapM_cons, hnone] at hvs
    cases hvs
  | ok x =>
    have hsome : b.value? U a = some x := by
      rw [← hoperand, value?, operand, hx]
    rw [List.mapM_cons, hsome] at hvs
    obtain rfl := Option.some.inj hvs
    rw [Shows, imageValue?_constant hk, hval, hvalue, hwidth]
    exact congrArg some
      ((Constant.folded_eq_iff hx htaken.range hfits htaken.reach).2 hover).symm

/-! ## All results -/

/-- **All values are left.**  Where operators hold on both sides and declared nodes show the values of
    the nodes in their places, so does every node that can have a value. -/
theorem shows (h : Twin im b b') (hU : b.OperatorsHold U) (hU' : b'.OperatorsHold U')
    (hdeclared : ∀ id n, b.circuit.node? id = some n → n.role ≠ .result → Shows im U U' id) :
    ∀ id n, b.circuit.node? id = some n → n.IsGround → Shows im U U' id := by
  -- by the position of the command that makes the result
  have hmade : ∀ k id n, b.circuit.node? id = some n → n.IsGround → n.role = .result →
      Draft.MadeBefore b.circuit.commands k id n → Shows im U U' id := by
    intro k
    induction k using Nat.strongRecOn with
    | ind k ih =>
      intro id n hn hground hrole hmade
      obtain ⟨j, hj, op, args, hcmd⟩ := hmade
      have hargs : ∀ source ∈ operandsNodes args, Seen im b U U' source := by
        intro source hsource
        obtain ⟨m, hm, hmground, hearlier⟩ := h.left.grown.reads_known h.left.size hcmd source hsource
        by_cases hresult : m.role = .result
        · exact ⟨m, hm, hmground, ih j hj source m hm hmground hresult (hearlier hresult)⟩
        · exact ⟨m, hm, hmground, hdeclared source m hm hresult⟩
      obtain hhome | ⟨parent, index, m, horigin, hhome, hm, hfields⟩ :=
        h.left.grown.result_cases h.left.size hn hrole
      · rw [hhome] at hcmd
        rcases h.place_cases hn with ⟨id', hid, -, -⟩ | ⟨k', hk'⟩
        · exact h.result_image hU hU' hcmd hn hground hid hargs
        · exact h.gone_image hU hn hk' hcmd hargs
      · rw [hhome] at hcmd
        have hleaf := (Circuit.mem_fieldNodes h.left.size).2 ⟨n, index, hn, horigin⟩
        exact h.field_image hU hU' hcmd hm hfields hleaf hargs
  intro id n hn hground
  by_cases hrole : n.role = .result
  · exact hmade _ id n hn hground hrole (h.left.grown.made h.left.size hn hrole)
  · exact hdeclared id n hn hrole

end Twin

end Bench

end Circuitry
