/-
  Single assignment.

  A grown circuit is well formed, which is said here about the circuit as a whole, without its history:

  1. commands define each node that is not a field exactly once, in the order of the ids, by a command
     of the sort that goes with its role;
  2. a command uses only ground values that are defined before it, by themselves or as fields of an
     aggregate;
  3. a node of aggregate type is the result of a selection, and its fields stand in a row behind it,
     one for each leaf of its type (`Row`);
  4. the list of ports is that of the port definitions;
  5. operators have as many operands as they take, connections drive what can be driven by a source of
     its kind, and predicates are booleans.
-/
import Circuitry.Proofs.Draft.Growth

namespace Circuitry

/-! ## Well-formed circuits -/

/-- The port that the command defines. -/
def Command.port? : Command → Option Port
  | .defPort node direction name => some ⟨name, direction, node⟩
  | _ => none

namespace Circuit

/-- The node has one field for each leaf of the type.  The table lists them by their indices in the
    order of the leaves, and they have the types of the leaves. -/
structure HasFields (c : Circuit) (id : NodeId) (ty : Ty) : Prop where
  indices : (c.fieldEntries id).map (·.1) = (List.range ty.leaves.length).map UInt32.ofNat
  listed : c.fieldNodes id = (c.fieldEntries id).map (·.2)
  types : (c.fieldNodes id).map (fun leaf => (c.node? leaf).map Node.ty) =
    ty.leaves.map fun u => some (.element u.1 u.2)

theorem HasFields.length {c : Circuit} {id : NodeId} {ty : Ty} (h : c.HasFields id ty) :
    (c.fieldNodes id).length = ty.leaves.length := by
  simpa using congrArg List.length h.types

/-- Single assignment, and definition before use. -/
structure WellFormed (c : Circuit) : Prop where
  /-- A node that is not a field is defined by exactly one command, -/
  defined_once : ∀ id n, c.node? id = some n → n.origin = .defined →
    ∃! p : Nat, ∃ cmd : Command, c.commands[p]? = some cmd ∧ cmd.defines? = some id
  /-- which is of the sort that goes with its role. -/
  introduces : ∀ cmd ∈ c.commands, ∀ id, cmd.defines? = some id →
    ∃ n, c.node? id = some n ∧ n.origin = .defined ∧ cmd.Introduces n
  /-- Nodes are defined in the order of their ids. -/
  increasing : (c.commands.filterMap Command.defines?).Pairwise fun a b => a.index < b.index
  /-- What a command uses is a ground value, and defined before it, or a field of what is. -/
  used : ∀ p cmd, c.commands[p]? = some cmd → ∀ id ∈ cmd.uses,
    ∃ n, c.node? id = some n ∧ n.IsGround ∧ Draft.DefinedBefore c.commands p (Draft.home id n)
  /-- An aggregate is the result of a selection, -/
  aggregates : ∀ id n fields, c.node? id = some n → n.ty = .aggregate fields →
    n.origin = .defined ∧ (∃ args, .defPrim id .mux args ∈ c.commands) ∧ c.HasFields id n.ty
  /-- and only aggregates have fields. -/
  fields : ∀ id n parent index, c.node? id = some n → n.origin = .field parent index →
    ∃ m fields, c.node? parent = some m ∧ m.ty = .aggregate fields
  ports : c.ports = c.commands.filterMap Command.port?
  arity : ∀ result op args, .defPrim result op args ∈ c.commands → args.length = op.arity
  /-- A port, wire or register is driven by a source of its own kind. -/
  connections : ∀ target source, .connect target source ∈ c.commands → ∃ n kind width,
    c.node? target = some n ∧ n.role.isAssignable = true ∧ n.ty = .element kind width ∧
      Draft.OfKind c.nodes kind source
  predicates : ∀ pred depth, .whenBegin pred depth ∈ c.commands → Draft.OfKind c.nodes .bool pred

end Circuit

namespace Draft

/-! ## One step of growth -/

section Step

variable {ns nodes : List Node} {cmd : Command} {ports : List Port}

theorem Grows.arity (h : Grows ns cmd nodes ports) {result : NodeId} {op : Operator}
    {args : List Operand} (hcmd : cmd = .defPrim result op args) : args.length = op.arity := by
  cases h with
  | define op' args' arity _ _ =>
    obtain ⟨-, rfl, rfl⟩ := Command.defPrim.inj hcmd
    exact arity
  | select c t f _ _ _ _ _ _ =>
    obtain ⟨-, rfl, rfl⟩ := Command.defPrim.inj hcmd
    rfl
  | declare r name s => cases r <;> cases hcmd
  | connect target a _ _ _ => cases hcmd
  | mark _ control _ =>
    subst hcmd
    cases control

theorem Grows.connection (h : Grows ns cmd nodes ports) {target : NodeId} {source : Operand}
    (hcmd : cmd = .connect target source) : ∃ n kind width, ns[target.index.toNat]? = some n ∧
      n.role.isAssignable = true ∧ n.ty = .element kind width ∧ OfKind ns kind source := by
  cases h with
  | connect target' source' kind driven source =>
    obtain ⟨rfl, rfl⟩ := Command.connect.inj hcmd
    obtain ⟨n, width, hn, hrole, hty⟩ := driven
    exact ⟨n, kind, width, hn, hrole, hty, source⟩
  | declare r name s => cases r <;> cases hcmd
  | define _ _ _ _ _ => cases hcmd
  | select _ _ _ _ _ _ _ _ _ => cases hcmd
  | mark _ control _ =>
    subst hcmd
    cases control

theorem Grows.predicate (h : Grows ns cmd nodes ports) {pred : Operand} {depth : UInt32}
    (hcmd : cmd = .whenBegin pred depth) : OfKind ns .bool pred := by
  cases h with
  | mark _ _ boolean => exact boolean pred depth hcmd
  | declare r name s => cases r <;> cases hcmd
  | define _ _ _ _ _ => cases hcmd
  | select _ _ _ _ _ _ _ _ _ => cases hcmd
  | connect _ _ _ _ _ => cases hcmd

/-- Operands keep their kinds as the table gets longer. -/
theorem OfKind.append {kind : Kind} {a : Operand} (h : OfKind ns kind a) (more : List Node) :
    OfKind (ns ++ more) kind a := by
  cases a with
  | node id =>
    obtain ⟨n, width, hn, hty⟩ := h
    exact ⟨n, width, getElem?_append_of_eq_some more hn, hty⟩
  | constant c => exact h
  | aggregate as => exact h

theorem Grows.ports_eq (h : Grows ns cmd nodes ports) : ports = cmd.port?.toList := by
  cases h with
  | declare r name s => cases r <;> rfl
  | mark cmd control _ => cases cmd <;> first | rfl | cases control
  | _ => rfl

/-- An aggregate is added by a selection, together with its fields. -/
theorem Grows.aggregate (h : Grows ns cmd nodes ports) {i : Nat} {n : Node}
    (hn : nodes[i]? = some n) {fields : List (String × Ty)} (hty : n.ty = .aggregate fields) :
    i = 0 ∧ (∃ args, cmd = .defPrim (idAt ns.length) .mux args) ∧ ∃ leaves : List Signal,
      nodes = n :: Session.fieldNodes (idAt ns.length) 0 leaves ∧
        leaves.map Signal.ty = n.ty.leaves.map fun u => .element u.1 u.2 := by
  cases h with
  | declare r name s =>
    rcases i with _ | i
    · obtain rfl : Session.declaredNode r name s = n := by simpa using hn
      cases hty
    · simp at hn
  | define op args _ _ s =>
    rcases i with _ | i
    · obtain rfl : Session.resultNode s .defined = n := by simpa using hn
      cases hty
    · simp at hn
  | select c t f _ types leaves typed _ _ =>
    rcases i with _ | i
    · obtain rfl : Session.selectionNode types = n := by simpa using hn
      refine ⟨rfl, ⟨_, rfl⟩, leaves, rfl, ?_⟩
      rw [typed, Session.selectionNode, Ty.leaves, Shape.fieldLeaves_fieldsToTy]
    · -- its fields are ground, and so no aggregates themselves
      have hmem : n ∈ Session.fieldNodes (idAt ns.length) 0 leaves :=
        List.mem_of_getElem? (by simpa using hn)
      obtain ⟨-, ⟨kind, width, hground⟩, -⟩ := mem_fieldNodes hmem
      rw [hty] at hground
      cases hground
  | connect target a _ _ _ => simp at hn
  | mark cmd control _ => simp at hn

end Step

/-! ## The fields of a node -/

/-- The place of a node among the fields of `parent`. -/
def fieldIndex? (parent : NodeId) (n : Node) : Option UInt32 :=
  match n.origin with
  | .field p index => if p = parent then some index else none
  | .defined => none

theorem fieldIndex?_of_ne {parent : NodeId} {n : Node} (h : ∀ k, n.origin ≠ .field parent k) :
    fieldIndex? parent n = none := by
  unfold fieldIndex?
  cases horigin : n.origin with
  | defined => rfl
  | field p k =>
    have hp : p ≠ parent := fun hp => h k (by rw [horigin, hp])
    simp [hp]

/-- The fields of a node among entries that stand from `start` on. -/
def fieldsFrom (parent : NodeId) : (start : Nat) → List Node → List (UInt32 × NodeId)
  | _, [] => []
  | start, n :: ns =>
    ((fieldIndex? parent n).map fun k => (k, idAt start)).toList ++ fieldsFrom parent (start + 1) ns

theorem fieldEntries_eq_fieldsFrom (c : Circuit) (parent : NodeId) :
    c.fieldEntries parent = fieldsFrom parent 0 c.nodes := by
  have hentries : c.fieldEntries parent =
      c.numbered.filterMap fun e => (fieldIndex? parent e.2).map fun k => (k, e.1) := by
    refine List.filterMap_congr fun e _ => ?_
    obtain ⟨id, n⟩ := e
    unfold fieldIndex?
    cases horigin : n.origin with
    | defined => simp [horigin]
    | field p index => by_cases hp : p = parent <;> simp [horigin, hp]
  -- by induction on the table, which shifts the position that it starts from
  have hfrom : ∀ (ns : List Node) (start : Nat),
      (ns.mapIdx fun i n => (idAt (start + i), n)).filterMap
        (fun e => (fieldIndex? parent e.2).map fun k => (k, e.1)) = fieldsFrom parent start ns := by
    intro ns
    induction ns with
    | nil => intro; rfl
    | cons n ns ih =>
      intro start
      have hshift : (fun i n => (idAt (start + (i + 1)), n)) =
          (fun i (n : Node) => (idAt (start + 1 + i), n)) := by
        funext i n
        rw [Nat.add_assoc, Nat.add_comm 1]
      rw [List.mapIdx_cons, List.filterMap_cons, hshift, ih, fieldsFrom]
      cases fieldIndex? parent n <;> rfl
  rw [hentries, ← hfrom c.nodes 0, Circuit.numbered]
  simp only [Nat.zero_add]

theorem fieldsFrom_append (parent : NodeId) (ns more : List Node) : ∀ start,
    fieldsFrom parent start (ns ++ more) =
      fieldsFrom parent start ns ++ fieldsFrom parent (start + ns.length) more := by
  induction ns with
  | nil => intro; rfl
  | cons n ns ih =>
    intro start
    rw [List.cons_append, fieldsFrom, fieldsFrom, ih, List.length_cons, Nat.add_assoc start 1,
      Nat.add_comm 1, List.append_assoc]

theorem fieldsFrom_eq_nil {parent : NodeId} {ns : List Node}
    (h : ∀ n ∈ ns, ∀ k, n.origin ≠ .field parent k) : ∀ start, fieldsFrom parent start ns = [] := by
  induction ns with
  | nil => intro; rfl
  | cons n ns ih =>
    intro start
    rw [List.forall_mem_cons] at h
    rw [fieldsFrom, fieldIndex?_of_ne h.1, ih h.2]
    rfl

/-- The fields of a selection stand in a row. -/
theorem fieldsFrom_fieldNodes (parent : NodeId) (leaves : List Signal) : ∀ start index,
    fieldsFrom parent start (Session.fieldNodes parent index leaves) =
      (List.range leaves.length).map fun k => (UInt32.ofNat (index + k), idAt (start + k)) := by
  induction leaves with
  | nil => intros; rfl
  | cons s rest ih =>
    intro start index
    have hindex : fieldIndex? parent (Session.resultNode s (.field parent (UInt32.ofNat index))) =
        some (UInt32.ofNat index) := by
      simp [fieldIndex?, Session.resultNode]
    rw [Session.fieldNodes, fieldsFrom, hindex, ih, List.length_cons, List.range_succ_eq_map,
      List.map_cons, List.map_map]
    refine congrArg _ (List.map_congr_left fun k _ => ?_)
    simp [Nat.add_assoc, Nat.add_comm 1]

theorem getElem?_fieldNodes (parent : NodeId) (leaves : List Signal) : ∀ index k,
    (Session.fieldNodes parent index leaves)[k]? =
      leaves[k]?.map fun s => Session.resultNode s (.field parent (UInt32.ofNat (index + k))) := by
  induction leaves with
  | nil => intros; rfl
  | cons s rest ih =>
    intro index k
    rcases k with _ | k
    · rfl
    · rw [Session.fieldNodes, List.getElem?_cons_succ, List.getElem?_cons_succ, ih,
        Nat.add_assoc, Nat.add_comm 1]

/-- The leaves of a type stand in a row behind an entry. -/
structure Row (ns : List Node) (id : NodeId) (leaves : List (Kind × Width)) : Prop where
  entries : fieldsFrom id 0 ns =
    (List.range leaves.length).map fun k => (UInt32.ofNat k, idAt (id.index.toNat + 1 + k))
  types : ∀ k u, leaves[k]? = some u →
    ∃ n, ns[id.index.toNat + 1 + k]? = some n ∧ n.ty = .element u.1 u.2

theorem Row.append {ns : List Node} {id : NodeId} {leaves : List (Kind × Width)}
    (h : Row ns id leaves) {more : List Node} (hmore : ∀ n ∈ more, ∀ k, n.origin ≠ .field id k) :
    Row (ns ++ more) id leaves where
  entries := by rw [fieldsFrom_append, fieldsFrom_eq_nil hmore, List.append_nil, h.entries]
  types k u hu := by
    obtain ⟨n, hn, hty⟩ := h.types k u hu
    exact ⟨n, getElem?_append_of_eq_some more hn, hty⟩

/-- A selection puts the fields of its result into a row. -/
theorem row_fieldNodes {ns : List Node} (n : Node) {leaves : List Signal}
    {types : List (Kind × Width)} (hlen : ns.length < 2 ^ 32)
    (hnone : ∀ m ∈ n :: ns, ∀ k, m.origin ≠ .field (idAt ns.length) k)
    (htypes : leaves.map Signal.ty = types.map fun u => .element u.1 u.2) :
    Row (ns ++ n :: Session.fieldNodes (idAt ns.length) 0 leaves) (idAt ns.length) types where
  entries := by
    have hlength : leaves.length = types.length := by
      simpa using congrArg List.length htypes
    have hrow := fieldsFrom_fieldNodes (idAt ns.length) leaves (ns ++ [n]).length 0
    rw [← List.singleton_append, ← List.append_assoc, fieldsFrom_append, Nat.zero_add, hrow,
      fieldsFrom_eq_nil, List.nil_append, hlength, toNat_idAt hlen]
    · simp
    · intro m hm
      exact hnone m (by simpa [or_comm] using hm)
  types k u hu := by
    have hleaf : (leaves.map Signal.ty)[k]? = some (.element u.1 u.2) := by
      rw [htypes, List.getElem?_map, hu]
      rfl
    obtain ⟨s, hs, hty⟩ := Option.map_eq_some_iff.1 ((List.getElem?_map ..).symm.trans hleaf)
    refine ⟨Session.resultNode s (.field (idAt ns.length) (UInt32.ofNat (0 + k))), ?_, hty⟩
    have hindex : ns.length + 1 + k - ns.length = k + 1 := by omega
    rw [toNat_idAt hlen, List.getElem?_append_right (by omega), hindex, List.getElem?_cons_succ,
      getElem?_fieldNodes, hs]
    rfl

/-! ## Grown circuits -/

namespace Grown

variable {ns : List Node} {ps : List Port} {cs : List Command}

theorem ports_eq (h : Grown ns ps cs) : ps = cs.filterMap Command.port? := by
  induction h with
  | nothing => rfl
  | @more ns ps cs cmd nodes ports grown grows ih =>
    rw [List.filterMap_append, ← ih, grows.ports_eq]
    refine congrArg _ ?_
    rw [List.filterMap_cons, List.filterMap_nil]
    cases cmd.port? <;> rfl

/-- A field is a field of an aggregate. -/
theorem field_parent (h : Grown ns ps cs) (hlen : ns.length ≤ 2 ^ 32) {n : Node} (hn : n ∈ ns)
    {parent : NodeId} {index : UInt32} (horigin : n.origin = .field parent index) :
    ∃ m fields, ns[parent.index.toNat]? = some m ∧ m.ty = .aggregate fields := by
  cases h.node_cases hlen n hn with
  | declared _ hdefined _ =>
    rw [horigin] at hdefined
    cases hdefined
  | result _ hdefined =>
    rw [horigin] at hdefined
    cases hdefined
  | field parent' index' _ horigin' _ entry =>
    obtain ⟨rfl, rfl⟩ := Origin.field.inj (horigin.symm.trans horigin')
    obtain ⟨m, hm, hnot⟩ := entry
    cases hty : m.ty with
    | element kind width => exact absurd ⟨kind, width, hty⟩ hnot
    | aggregate fields => exact ⟨m, fields, hm, hty⟩

/-- An aggregate is the result of a selection, and its fields stand in a row behind it. -/
theorem aggregate (h : Grown ns ps cs) : ns.length ≤ 2 ^ 32 → ∀ {id : NodeId} {n : Node}
    {fields : List (String × Ty)}, ns[id.index.toNat]? = some n → n.ty = .aggregate fields →
      n.origin = .defined ∧ (∃ args, .defPrim id .mux args ∈ cs) ∧ Row ns id n.ty.leaves := by
  induction h with
  | nothing => simp
  | @more ns ps cs cmd nodes ports grown grows ih =>
    intro hlen id n fields hn hty
    rw [List.length_append] at hlen
    obtain hold | ⟨k, hk, hnew⟩ := getElem?_append_cases hn
    · obtain ⟨horigin, ⟨args, hargs⟩, hrow⟩ := ih (by omega) hold hty
      refine ⟨horigin, ⟨args, List.mem_append_left _ hargs⟩, hrow.append ?_⟩
      intro m hm k hfield
      have hlt := (List.getElem?_eq_some_iff.1 hold).1
      have hpos := List.length_pos_of_mem hm
      rw [grows.field_origin hm hfield, toNat_idAt (by omega)] at hlt
      exact Nat.lt_irrefl _ hlt
    · obtain ⟨rfl, ⟨args, rfl⟩, leaves, rfl, htypes⟩ := grows.aggregate hnew hty
      rw [List.length_cons] at hlen
      obtain rfl : id = idAt ns.length := by rw [← idAt_toNat id, hk, Nat.add_zero]
      have horigin : n.origin = .defined := by
        cases grows.adds with
        | node _ _ _ origin _ _ => exact origin
      refine ⟨horigin, ⟨args, by simp⟩, row_fieldNodes n (by omega) ?_ htypes⟩
      -- nothing has been a field of the new node before it was there
      intro m hm k hfield
      rcases List.mem_cons.1 hm with rfl | hm
      · rw [horigin] at hfield
        cases hfield
      · obtain ⟨_, _, hparent, -⟩ := grown.field_parent (by omega) hm hfield
        rw [toNat_idAt (by omega)] at hparent
        simp at hparent

end Grown

/-- A row is all the fields of its node. -/
theorem Row.hasFields {c : Circuit} {id : NodeId} {ty : Ty} (h : Row c.nodes id ty.leaves)
    (hlen : c.nodes.length ≤ 2 ^ 32) : c.HasFields id ty := by
  have hentries : c.fieldEntries id = _ := (fieldEntries_eq_fieldsFrom c id).trans h.entries
  have hnode : ∀ {k : Nat} (hk : k < ty.leaves.length), id.index.toNat + 1 + k < 2 ^ 32 ∧
      (c.node? (idAt (id.index.toNat + 1 + k))).map Node.ty =
        some (.element ty.leaves[k].1 ty.leaves[k].2) := by
    intro k hk
    obtain ⟨n, hn, hty⟩ := h.types k _ (List.getElem?_eq_getElem hk)
    have hlt := (List.getElem?_eq_some_iff.1 hn).1
    have hbound : id.index.toNat + 1 + k < 2 ^ 32 := by omega
    rw [Circuit.node?, toNat_idAt hbound, hn]
    exact ⟨hbound, congrArg some hty⟩
  have hlisted : c.fieldNodes id = (c.fieldEntries id).map (·.2) := by
    have hsorted : (c.fieldEntries id).Pairwise fun a b => decide (a.1 ≤ b.1) = true := by
      rw [hentries, List.pairwise_map, List.pairwise_iff_getElem]
      intro i j hi hj hij
      simp only [List.length_range, List.getElem_range, decide_eq_true_eq] at hi hj ⊢
      have hjlt := (hnode hj).1
      rw [UInt32.le_iff_toNat_le, UInt32.toNat_ofNat', UInt32.toNat_ofNat',
        Nat.mod_eq_of_lt (by omega), Nat.mod_eq_of_lt (by omega)]
      exact Nat.le_of_lt hij
    rw [Circuit.fieldNodes, Circuit.sortEntries_eq_mergeSort, List.mergeSort_of_pairwise hsorted]
  refine ⟨?_, hlisted, ?_⟩
  · rw [hentries, List.map_map]
    rfl
  · rw [hlisted, hentries, List.map_map, List.map_map]
    refine List.ext_getElem (by simp) fun k hk _ => ?_
    rw [List.length_map, List.length_range] at hk
    simp only [List.getElem_map, List.getElem_range, Function.comp_apply]
    exact (hnode hk).2

/-- **Grown circuits are well formed.** -/
theorem Grown.wellFormed {c : Circuit} (h : Grown c.nodes c.ports c.commands)
    (hlen : c.nodes.length ≤ 2 ^ 32) : c.WellFormed where
  defined_once id n hn horigin := by
    obtain ⟨p, cmd, hcmd, hdefines⟩ := h.defined hn horigin
    refine ⟨p, ⟨cmd, hcmd, hdefines⟩, ?_⟩
    rintro q ⟨cmd', hcmd', hdefines'⟩
    exact h.defines_injective hlen hcmd' hcmd hdefines' hdefines
  introduces cmd hcmd id hid := h.introduces hlen hcmd hid
  increasing := h.increasing hlen
  used p cmd hcmd id hid := h.used hlen hcmd hid
  aggregates id n fields hn hty := by
    obtain ⟨horigin, hmade, hrow⟩ := h.aggregate hlen hn hty
    exact ⟨horigin, hmade, hrow.hasFields hlen⟩
  fields id n parent index hn horigin := h.field_parent hlen (List.mem_of_getElem? hn) horigin
  ports := h.ports_eq
  arity result op args hcmd := by
    obtain ⟨p, hp⟩ := List.mem_iff_getElem?.1 hcmd
    obtain ⟨before, past, nodes, ports, more, -, hgrows, -⟩ := h.split hp
    exact hgrows.arity rfl
  connections target source hcmd := by
    obtain ⟨p, hp⟩ := List.mem_iff_getElem?.1 hcmd
    obtain ⟨before, past, nodes, ports, more, -, hgrows, hnodes⟩ := h.split hp
    obtain ⟨n, kind, width, hn, hrole, hty, hsource⟩ := hgrows.connection rfl
    rw [Circuit.node?, hnodes, List.append_assoc]
    exact ⟨n, kind, width, getElem?_append_of_eq_some _ hn, hrole, hty, hsource.append _⟩
  predicates pred depth hcmd := by
    obtain ⟨p, hp⟩ := List.mem_iff_getElem?.1 hcmd
    obtain ⟨before, past, nodes, ports, more, -, hgrows, hnodes⟩ := h.split hp
    rw [hnodes, List.append_assoc]
    exact (hgrows.predicate rfl).append _

end Draft

end Circuitry
