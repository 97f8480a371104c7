/-
  How an elaborated circuit grows.

  A circuit under construction grows by one command at a time, together with the nodes and ports that
  the command brings into being.  `Grows` lists the ways; everything a command uses is there already
  when the command is appended, and of the kind that it has to be.  So a grown circuit is in
  single-assignment form and defines before it uses.  What is said of a command at one place is said of
  the circuit as it was when the command came (`Grown.split`), and stays true as the circuit grows:

  * `introduces`, `increasing`: commands define nodes of their own sort, in the order of the ids, so no
    two commands define the same node (`defines_injective`);
  * `used`: a node that a command uses is a ground node, and an earlier command defines it, or the
    aggregate that it is a field of (`home`);
  * `node_cases`: every node is a declared one, a result, or a field of a selection.

  Most nodes that matter later are results; `made`, `reads_known` and `defPrim_injective` say the same
  of them and of the operators that make them.

  Ids are 32 bits wide and are not checked when they are handed out, so all of this is for circuits of
  at most `2 ^ 32` nodes.
-/
import Circuitry.Proofs.Draft.Step

namespace Circuitry

/-! ## What commands refer to -/

mutual

/-- The nodes of an operand. -/
def Operand.nodes : Operand → List NodeId
  | .node id => [id]
  | .constant _ => []
  | .aggregate xs => operandsNodes xs

/-- The nodes of operands. -/
def operandsNodes : List Operand → List NodeId
  | [] => []
  | a :: as => a.nodes ++ operandsNodes as

end

theorem mem_operandsNodes {id : NodeId} {as : List Operand} :
    id ∈ operandsNodes as ↔ ∃ a ∈ as, id ∈ a.nodes := by
  induction as with
  | nil => simp [operandsNodes]
  | cons a as ih => simp [operandsNodes, ih]

/-- The nodes whose values a command takes. -/
def Command.reads : Command → List NodeId
  | .defPrim _ _ args => operandsNodes args
  | .connect _ source => source.nodes
  | .whenBegin pred _ => pred.nodes
  | _ => []

/-- The nodes that a command takes values from, or drives. -/
def Command.uses : Command → List NodeId
  | .connect target source => target :: source.nodes
  | cmd => cmd.reads

theorem Command.reads_subset_uses (cmd : Command) : cmd.reads ⊆ cmd.uses := by
  cases cmd with
  | connect target source => exact List.subset_cons_self _ _
  | _ => exact List.Subset.refl _

/-- The command is of the sort that defines such a node. -/
def Command.Introduces : Command → Node → Prop
  | .defPort _ direction name, n => n.role = .port direction ∧ n.name = some name
  | .defWire _, n => n.role = .wire
  | .defReg _, n => n.role = .register
  | .defPrim _ _ _, n => n.role = .result
  | _, _ => False

/-- Results are defined by operators. -/
theorem Command.Introduces.eq_defPrim {cmd : Command} {n : Node} (h : cmd.Introduces n)
    (hrole : n.role = .result) {id : NodeId} (hid : cmd.defines? = some id) :
    ∃ op args, cmd = .defPrim id op args := by
  cases cmd with
  | defPort node direction name =>
    obtain ⟨hport, -⟩ := h
    rw [hrole] at hport
    cases hport
  | defWire node =>
    have hwire : n.role = .wire := h
    rw [hrole] at hwire
    cases hwire
  | defReg node =>
    have hregister : n.role = .register := h
    rw [hrole] at hregister
    cases hregister
  | defPrim result op args =>
    obtain rfl := Option.some.inj hid
    exact ⟨op, args, rfl⟩
  | _ => cases h

theorem NodeId.ext_toNat {a b : NodeId} (h : a.index.toNat = b.index.toNat) : a = b := by
  cases a
  cases b
  simp only [NodeId.mk.injEq]
  exact UInt32.toNat_inj.1 h

/-- A node that can have a value. -/
def Node.IsGround (n : Node) : Prop := ∃ kind width, n.ty = .element kind width

theorem Node.not_isGround {n : Node} {fs : List (String × Ty)} (h : n.ty = .aggregate fs) :
    ¬ n.IsGround := by
  rintro ⟨kind, width, hty⟩
  rw [h] at hty
  cases hty

theorem Node.isGround_of_ne {n : Node}
    (h : ∀ fs role name origin loc, n ≠ ⟨.aggregate fs, role, name, origin, loc⟩) :
    n.IsGround := by
  obtain ⟨ty, role, name, origin, loc⟩ := n
  cases ty with
  | element kind width => exact ⟨kind, width, rfl⟩
  | aggregate fs => exact absurd rfl (h fs role name origin loc)

namespace Draft

/-- The ids of a table with so many entries. -/
abbrev idAt (i : Nat) : NodeId := ⟨UInt32.ofNat i⟩

theorem toNat_idAt {i : Nat} (h : i < 2 ^ 32) : (idAt i).index.toNat = i := by
  rw [UInt32.toNat_ofNat']
  exact Nat.mod_eq_of_lt h

theorem idAt_toNat (id : NodeId) : idAt id.index.toNat = id := by
  cases id
  simp [idAt]

/-- An operand of nodes that are there, and can have values. -/
def Known (ns : List Node) (a : Operand) : Prop :=
  ∀ id ∈ a.nodes, ∃ n, ns[id.index.toNat]? = some n ∧ n.IsGround

/-- An operand of one ground value of the kind. -/
def OfKind (ns : List Node) (kind : Kind) : Operand → Prop
  | .node id => ∃ n width, ns[id.index.toNat]? = some n ∧ n.ty = .element kind width
  | .constant c => c.kind = kind
  | .aggregate _ => False

theorem OfKind.known {ns : List Node} {kind : Kind} {a : Operand} (h : OfKind ns kind a) :
    Known ns a := by
  intro id hid
  cases a with
  | node id' =>
    obtain rfl := List.mem_singleton.1 hid
    obtain ⟨n, width, hn, hty⟩ := h
    exact ⟨n, hn, kind, width, hty⟩
  | constant c => cases hid
  | aggregate as => cases h

/-- An operand of one ground value. -/
def Ground (ns : List Node) (a : Operand) : Prop := ∃ kind, OfKind ns kind a

theorem Ground.known {ns : List Node} {a : Operand} (h : Ground ns a) : Known ns a := by
  obtain ⟨kind, hkind⟩ := h
  exact hkind.known

/-! ## Growth -/

/-- From the nodes `ns`, the circuit grows by a command with its nodes and ports. -/
inductive Grows (ns : List Node) : Command → List Node → List Port → Prop
  | declare (r : Declared) (name : String) (s : Signal) :
      Grows ns (r.command (idAt ns.length) name) [Session.declaredNode r name s]
        (r.ports (idAt ns.length) name)
  | define (op : Operator) (args : List Operand) (arity : args.length = op.arity)
      (ground : ∀ a ∈ args, Ground ns a) (s : Signal) :
      Grows ns (.defPrim (idAt ns.length) op args) [Session.resultNode s .defined] []
  | select (c : Operand) (t f : List Operand) (ground : ∀ a ∈ c :: (t ++ f), Ground ns a)
      (types : Shape.Fields (Kind × Width)) (leaves : List Signal)
      (typed : leaves.map Signal.ty = (Shape.fieldLeaves types).map fun u => .element u.1 u.2)
      (whenTrue : t.length = leaves.length) (whenFalse : f.length = leaves.length) :
      Grows ns (.defPrim (idAt ns.length) .mux (Session.selectionArgs c t f))
        (Session.selectionNode types :: Session.fieldNodes (idAt ns.length) 0 leaves) []
  | connect (target : NodeId) (a : Operand) (kind : Kind)
      (driven : ∃ n width, ns[target.index.toNat]? = some n ∧ n.role.isAssignable = true ∧
        n.ty = .element kind width) (source : OfKind ns kind a) :
      Grows ns (.connect target a) [] []
  | mark (cmd : Command) (control : cmd.isControl = true)
      (boolean : ∀ pred depth, cmd = .whenBegin pred depth → OfKind ns .bool pred) :
      Grows ns cmd [] []

/-- What grows from nothing. -/
inductive Grown : List Node → List Port → List Command → Prop
  | nothing : Grown [] [] []
  | more {ns : List Node} {ps : List Port} {cs : List Command} {cmd : Command} {nodes : List Node}
      {ports : List Port} (grown : Grown ns ps cs) (grows : Grows ns cmd nodes ports) :
      Grown (ns ++ nodes) (ps ++ ports) (cs ++ [cmd])

/-! ## One step of growth -/

section Step

variable {ns nodes : List Node} {cmd : Command} {ports : List Port}

/-- What a command uses is there. -/
theorem Grows.used (h : Grows ns cmd nodes ports) :
    ∀ id ∈ cmd.uses, ∃ n, ns[id.index.toNat]? = some n ∧ n.IsGround := by
  intro id hid
  cases h with
  | declare r name s => cases r <;> cases hid
  | define op args arity ground s =>
    obtain ⟨a, ha, hid⟩ := mem_operandsNodes.1 hid
    exact (ground a ha).known id hid
  | select c t f ground types leaves _ _ _ =>
    simp only [Command.uses, Command.reads, Session.selectionArgs, operandsNodes, Operand.nodes,
      List.append_nil, List.mem_append, mem_operandsNodes] at hid
    rcases hid with hid | ⟨a, ha, hid⟩ | ⟨a, ha, hid⟩
    · exact (ground c (List.mem_cons_self ..)).known id hid
    · exact (ground a (List.mem_cons_of_mem _ (List.mem_append_left _ ha))).known id hid
    · exact (ground a (List.mem_cons_of_mem _ (List.mem_append_right _ ha))).known id hid
  | connect target a kind driven source =>
    rcases List.mem_cons.1 hid with rfl | hid
    · obtain ⟨n, width, hn, -, hty⟩ := driven
      exact ⟨n, hn, kind, width, hty⟩
    · exact source.known id hid
  | mark cmd control boolean =>
    cases cmd with
    | whenBegin pred depth => exact (boolean pred depth rfl).known id hid
    | whenEnd depth | altBegin depth | otherwiseEnd depth => cases hid
    | _ => cases control

/-- Fields are results, and name their parent. -/
theorem mem_fieldNodes {parent : NodeId} {n : Node} {ss : List Signal} : ∀ {index : Nat},
    n ∈ Session.fieldNodes parent index ss →
      n.role = .result ∧ n.IsGround ∧ ∃ k, n.origin = .field parent k := by
  induction ss with
  | nil => exact nofun
  | cons s rest ih =>
    intro index hn
    rcases List.mem_cons.1 hn with rfl | hn
    · exact ⟨rfl, ⟨_, _, rfl⟩, _, rfl⟩
    · exact ih hn

/-- What a command adds to the table: its node with fields behind it, or nothing. -/
inductive Adds (ns : List Node) (cmd : Command) : List Node → Prop
  | node (n : Node) (rest : List Node) (defines : cmd.defines? = some (idAt ns.length))
      (origin : n.origin = .defined) (introduces : cmd.Introduces n)
      (fields : ∀ m ∈ rest, ∃ k, m.origin = .field (idAt ns.length) k) : Adds ns cmd (n :: rest)
  | nothing (defines : cmd.defines? = none) : Adds ns cmd []

theorem Grows.adds (h : Grows ns cmd nodes ports) : Adds ns cmd nodes := by
  cases h with
  | declare r name s =>
    cases r with
    | port d => exact .node _ _ rfl rfl ⟨rfl, rfl⟩ nofun
    | wire => exact .node _ _ rfl rfl rfl nofun
    | register => exact .node _ _ rfl rfl rfl nofun
  | define op args _ _ s => exact .node _ _ rfl rfl rfl nofun
  | select c t f _ types leaves _ _ _ =>
    exact .node _ _ rfl rfl rfl fun m hm => (mem_fieldNodes hm).2.2
  | connect target a _ _ _ => exact .nothing rfl
  | mark cmd control _ =>
    refine .nothing ?_
    cases cmd <;> first | rfl | cases control

/-- New fields are fields of the first new node. -/
theorem Grows.field_origin (h : Grows ns cmd nodes ports) {m : Node} (hm : m ∈ nodes)
    {parent : NodeId} {k : UInt32} (hfield : m.origin = .field parent k) :
    parent = idAt ns.length := by
  cases h.adds with
  | nothing _ => cases hm
  | node n rest _ origin _ fields =>
    rcases List.mem_cons.1 hm with rfl | hm
    · rw [origin] at hfield
      cases hfield
    · obtain ⟨k', hk'⟩ := fields m hm
      exact (Origin.field.inj (hfield.symm.trans hk')).1

/-- What a new node is. -/
inductive NewNode (ns nodes : List Node) (n : Node) : Prop
  /-- It has been declared. -/
  | declared (role : ∃ r : Declared, n.role = r.role) (origin : n.origin = .defined)
      (ground : n.IsGround)
  | result (role : n.role = .result) (origin : n.origin = .defined)
  /-- It is a field of the first new node, which is an aggregate. -/
  | field (role : n.role = .result) (origin : ∃ k, n.origin = .field (idAt ns.length) k)
      (ground : n.IsGround) (parent : ∃ m rest, nodes = m :: rest ∧ ¬ m.IsGround)

theorem Grows.node_cases (h : Grows ns cmd nodes ports) {n : Node} (hn : n ∈ nodes) :
    NewNode ns nodes n := by
  cases h with
  | declare r name s =>
    obtain rfl := List.mem_singleton.1 hn
    exact .declared ⟨r, rfl⟩ rfl ⟨_, _, rfl⟩
  | define op args arity ground s =>
    obtain rfl := List.mem_singleton.1 hn
    exact .result rfl rfl
  | select c t f ground types leaves _ _ _ =>
    rcases List.mem_cons.1 hn with rfl | hn
    · exact .result rfl rfl
    · obtain ⟨hrole, hground, hfield⟩ := mem_fieldNodes hn
      exact .field hrole hfield hground ⟨_, _, rfl, Node.not_isGround rfl⟩
  | connect target a kind driven source => cases hn
  | mark cmd control boolean => cases hn

/-- A new port is a new node in its role. -/
theorem Grows.port_cases (h : Grows ns cmd nodes ports) {p : Port} (hp : p ∈ ports) :
    ∃ n, p.node = idAt ns.length ∧ nodes = [n] ∧ n.role = .port p.direction ∧ n.IsGround := by
  cases h with
  | declare r name s =>
    cases r with
    | port d =>
      obtain rfl := List.mem_singleton.1 hp
      exact ⟨_, rfl, rfl, rfl, _, _, rfl⟩
    | wire => cases hp
    | register => cases hp
  | _ => cases hp

end Step

/-! ## Grown circuits -/

/-- The node whose command makes a node: the node itself, or the aggregate that it is a field of. -/
def home (id : NodeId) (n : Node) : NodeId :=
  match n.origin with
  | .defined => id
  | .field parent _ => parent

/-- One of the first `k` commands defines the node. -/
def DefinedBefore (cs : List Command) (k : Nat) (id : NodeId) : Prop :=
  ∃ j < k, ∃ cmd : Command, cs[j]? = some cmd ∧ cmd.defines? = some id

/-- One of the first `k` commands makes the result. -/
def MadeBefore (cs : List Command) (k : Nat) (id : NodeId) (n : Node) : Prop :=
  ∃ j < k, ∃ op args, cs[j]? = some (.defPrim (home id n) op args)

/-- What is in a list stays there when the list gets longer. -/
theorem getElem?_append_of_eq_some {α : Type} {xs : List α} {i : Nat} {x : α} (ys : List α)
    (h : xs[i]? = some x) : (xs ++ ys)[i]? = some x := by
  have hi := (List.getElem?_eq_some_iff.1 h).1
  rw [List.getElem?_append_left hi, h]

/-- What is in a list that got longer was there, or is new. -/
theorem getElem?_append_cases {α : Type} {xs ys : List α} {i : Nat} {x : α}
    (h : (xs ++ ys)[i]? = some x) :
    xs[i]? = some x ∨ ∃ k, i = xs.length + k ∧ ys[k]? = some x := by
  by_cases hi : i < xs.length
  · rw [List.getElem?_append_left hi] at h
    exact .inl h
  · rw [List.getElem?_append_right (Nat.le_of_not_lt hi)] at h
    exact .inr ⟨i - xs.length, by omega, h⟩

theorem getElem?_concat_cases {α : Type} {xs : List α} {y x : α} {i : Nat}
    (h : (xs ++ [y])[i]? = some x) : xs[i]? = some x ∨ i = xs.length ∧ x = y := by
  obtain h | ⟨k, rfl, hk⟩ := getElem?_append_cases h
  · exact .inl h
  · rcases k with _ | k <;> simp_all

namespace Grown

variable {ns : List Node} {ps : List Port} {cs : List Command}

/-- The circuit as it was when the command at one place came. -/
theorem split (h : Grown ns ps cs) : ∀ {p : Nat} {cmd : Command}, cs[p]? = some cmd →
    ∃ before past nodes ports more, Grown before past (cs.take p) ∧
      Grows before cmd nodes ports ∧ ns = before ++ nodes ++ more := by
  induction h with
  | nothing => simp
  | @more ns ps cs cmd nodes ports grown grows ih =>
    intro p cmd' hcmd
    obtain hold | ⟨rfl, rfl⟩ := getElem?_concat_cases hcmd
    · obtain ⟨before, past, nodes', ports', more, hbefore, hgrows, rfl⟩ := ih hold
      have hp := (List.getElem?_eq_some_iff.1 hold).1
      refine ⟨before, past, nodes', ports', more ++ nodes, ?_, hgrows, by simp⟩
      rwa [List.take_append_of_le_length (Nat.le_of_lt hp)]
    · exact ⟨ns, ps, nodes, ports, [], by rwa [List.take_left], grows, (List.append_nil _).symm⟩

/-- What a node of a grown circuit is. -/
inductive Entry (ns : List Node) (n : Node) : Prop
  | declared (role : ∃ r : Declared, n.role = r.role) (origin : n.origin = .defined)
      (ground : n.IsGround)
  | result (role : n.role = .result) (origin : n.origin = .defined)
  | field (parent : NodeId) (index : UInt32) (role : n.role = .result)
      (origin : n.origin = .field parent index) (ground : n.IsGround)
      (entry : ∃ m, ns[parent.index.toNat]? = some m ∧ ¬ m.IsGround)

theorem Entry.append {n : Node} (h : Entry ns n) (more : List Node) : Entry (ns ++ more) n := by
  cases h with
  | declared role origin ground => exact .declared role origin ground
  | result role origin => exact .result role origin
  | field parent index role origin ground entry =>
    obtain ⟨m, hm, hnot⟩ := entry
    exact .field parent index role origin ground ⟨m, getElem?_append_of_eq_some more hm, hnot⟩

theorem node_cases (h : Grown ns ps cs) : ns.length ≤ 2 ^ 32 → ∀ n ∈ ns, Entry ns n := by
  induction h with
  | nothing => simp
  | @more ns ps cs cmd nodes ports grown grows ih =>
    intro hlen n hn
    rw [List.length_append] at hlen
    rcases List.mem_append.1 hn with hn | hn
    · exact (ih (by omega) n hn).append nodes
    cases grows.node_cases hn with
    | declared role origin ground => exact .declared role origin ground
    | result role origin => exact .result role origin
    | field role origin ground parent =>
      obtain ⟨index, horigin⟩ := origin
      obtain ⟨m, rest, rfl, hm⟩ := parent
      refine .field _ index role horigin ground ⟨m, ?_, hm⟩
      rw [List.length_cons] at hlen
      rw [toNat_idAt (by omega)]
      simp

/-- Only results can be aggregates. -/
theorem ground_of_role (h : Grown ns ps cs) (hlen : ns.length ≤ 2 ^ 32) {i : Nat} {n : Node}
    (hn : ns[i]? = some n) (hrole : n.role ≠ .result) : n.IsGround := by
  cases h.node_cases hlen n (List.mem_of_getElem? hn) with
  | declared _ _ ground => exact ground
  | result role _ => exact absurd role hrole
  | field _ _ role _ _ _ => exact absurd role hrole

/-- A port is a node in its role. -/
theorem port_node (h : Grown ns ps cs) : ns.length ≤ 2 ^ 32 → ∀ p ∈ ps,
    ∃ n, ns[p.node.index.toNat]? = some n ∧ n.role = .port p.direction ∧ n.IsGround := by
  induction h with
  | nothing => simp
  | @more ns ps cs cmd nodes ports grown grows ih =>
    intro hlen p hp
    rw [List.length_append] at hlen
    rcases List.mem_append.1 hp with hp | hp
    · obtain ⟨n, hn, hnode⟩ := ih (by omega) p hp
      exact ⟨n, getElem?_append_of_eq_some nodes hn, hnode⟩
    · obtain ⟨n, hid, rfl, hrole, hground⟩ := grows.port_cases hp
      refine ⟨n, ?_, hrole, hground⟩
      rw [List.length_singleton] at hlen
      rw [hid, toNat_idAt (by omega)]
      simp

/-- A node that is not a field is defined by a command. -/
theorem defined (h : Grown ns ps cs) : ∀ {id : NodeId} {n : Node},
    ns[id.index.toNat]? = some n → n.origin = .defined →
      ∃ (q : Nat) (cmd : Command), cs[q]? = some cmd ∧ cmd.defines? = some id := by
  induction h with
  | nothing => simp
  | @more ns ps cs cmd nodes ports grown grows ih =>
    intro id n hn horigin
    obtain hold | ⟨k, hk, hnew⟩ := getElem?_append_cases hn
    · obtain ⟨q, cmd', hcmd, hdefines⟩ := ih hold horigin
      exact ⟨q, cmd', getElem?_append_of_eq_some _ hcmd, hdefines⟩
    · cases grows.adds with
      | nothing _ => cases hnew
      | node m rest defines _ _ fields =>
        rcases k with _ | k
        · refine ⟨cs.length, cmd, List.getElem?_concat_length .., ?_⟩
          rw [defines, ← idAt_toNat id, hk, Nat.add_zero]
        · obtain ⟨index, hfield⟩ := fields n (List.mem_of_getElem? (by simpa using hnew))
          rw [horigin] at hfield
          cases hfield

/-- A result is defined itself, or a field of an aggregate that is. -/
theorem result_cases (h : Grown ns ps cs) (hlen : ns.length ≤ 2 ^ 32) {id : NodeId} {n : Node}
    (hn : ns[id.index.toNat]? = some n) (hrole : n.role = .result) : home id n = id ∨
      ∃ parent index m, n.origin = .field parent index ∧ home id n = parent ∧
        ns[parent.index.toNat]? = some m ∧ ¬ m.IsGround := by
  unfold home
  cases h.node_cases hlen n (List.mem_of_getElem? hn) with
  | declared role _ _ =>
    obtain ⟨r, hr⟩ := role
    rw [hrole] at hr
    cases r <;> cases hr
  | result _ origin => exact .inl (by rw [origin])
  | field parent index _ origin _ entry =>
    obtain ⟨m, hm, hfields⟩ := entry
    exact .inr ⟨parent, index, m, origin, by rw [origin], hm, hfields⟩

/-- The node that a node belongs to is in the table, and not a field. -/
theorem home_node (h : Grown ns ps cs) (hlen : ns.length ≤ 2 ^ 32) {id : NodeId} {n : Node}
    (hn : ns[id.index.toNat]? = some n) : ∃ m, ns[(home id n).index.toNat]? = some m ∧
      m.origin = .defined ∧ (n.role = .result → m.role = .result) := by
  unfold home
  cases h.node_cases hlen n (List.mem_of_getElem? hn) with
  | declared _ origin _ =>
    rw [origin]
    exact ⟨n, hn, origin, fun role => role⟩
  | result _ origin =>
    rw [origin]
    exact ⟨n, hn, origin, fun role => role⟩
  | field parent index _ origin _ entry =>
    obtain ⟨m, hm, hnot⟩ := entry
    rw [origin]
    -- the parent is no field itself, since fields are ground
    cases h.node_cases hlen m (List.mem_of_getElem? hm) with
    | declared _ _ ground => exact absurd ground hnot
    | result role origin => exact ⟨m, hm, origin, fun _ => role⟩
    | field _ _ _ _ ground _ => exact absurd ground hnot

/-- What a node belongs to is defined by a command. -/
theorem home_defined (h : Grown ns ps cs) (hlen : ns.length ≤ 2 ^ 32) {id : NodeId} {n : Node}
    (hn : ns[id.index.toNat]? = some n) : DefinedBefore cs cs.length (home id n) := by
  obtain ⟨m, hm, horigin, -⟩ := h.home_node hlen hn
  obtain ⟨q, cmd, hcmd, hdefines⟩ := h.defined hm horigin
  exact ⟨q, (List.getElem?_eq_some_iff.1 hcmd).1, cmd, hcmd, hdefines⟩

/-- What a command defines is in the table, as a node of the right kind. -/
theorem introduces (h : Grown ns ps cs) (hlen : ns.length ≤ 2 ^ 32) {cmd : Command}
    (hcmd : cmd ∈ cs) {id : NodeId} (hid : cmd.defines? = some id) :
    ∃ n, ns[id.index.toNat]? = some n ∧ n.origin = .defined ∧ cmd.Introduces n := by
  obtain ⟨p, hp⟩ := List.mem_iff_getElem?.1 hcmd
  obtain ⟨before, past, nodes, ports, more, hbefore, hgrows, rfl⟩ := h.split hp
  cases hgrows.adds with
  | nothing defines =>
    rw [defines] at hid
    cases hid
  | node n rest defines origin introduces _ =>
    obtain rfl := Option.some.inj (defines.symm.trans hid)
    refine ⟨n, ?_, origin, introduces⟩
    simp only [List.length_append, List.length_cons] at hlen
    rw [toNat_idAt (by omega)]
    simp

/-- Nodes are defined in the order of their ids. -/
theorem increasing (h : Grown ns ps cs) : ns.length ≤ 2 ^ 32 →
    (cs.filterMap Command.defines?).Pairwise fun a b => a.index < b.index := by
  induction h with
  | nothing => exact fun _ => .nil
  | @more ns ps cs cmd nodes ports grown grows ih =>
    intro hlen
    rw [List.length_append] at hlen
    rw [List.filterMap_append, List.pairwise_append]
    refine ⟨ih (by omega), ?_, fun a ha b hb => ?_⟩
    · rw [List.filterMap_cons, List.filterMap_nil]
      cases cmd.defines? <;> simp
    · -- what is defined already is in the table, and the new id is its length
      obtain ⟨cmd', hcmd', ha⟩ := List.mem_filterMap.1 ha
      obtain ⟨m, hm, -⟩ := grown.introduces (by omega) hcmd' ha
      have hlt := (List.getElem?_eq_some_iff.1 hm).1
      obtain ⟨last, hlast, hdefines⟩ := List.mem_filterMap.1 hb
      obtain rfl := List.mem_singleton.1 hlast
      cases grows.adds with
      | nothing defines =>
        rw [defines] at hdefines
        cases hdefines
      | node n rest defines _ _ _ =>
        obtain rfl := Option.some.inj (defines.symm.trans hdefines)
        rw [List.length_cons] at hlen
        rw [UInt32.lt_iff_toNat_lt, toNat_idAt (by omega)]
        exact hlt

/-- No two commands define the same node. -/
theorem defines_injective (h : Grown ns ps cs) (hlen : ns.length ≤ 2 ^ 32) {p q : Nat}
    {cmd cmd' : Command} (hp : cs[p]? = some cmd) (hq : cs[q]? = some cmd') {id : NodeId}
    (hcmd : cmd.defines? = some id) (hcmd' : cmd'.defines? = some id) : p = q := by
  have hpairs := List.pairwise_iff_getElem.1 (List.pairwise_filterMap.1 (h.increasing hlen))
  obtain ⟨hplt, rfl⟩ := List.getElem?_eq_some_iff.1 hp
  obtain ⟨hqlt, rfl⟩ := List.getElem?_eq_some_iff.1 hq
  have hirrefl : ¬ id.index < id.index := UInt32.lt_irrefl _
  rcases Nat.lt_trichotomy p q with hlt | heq | hgt
  · exact absurd (hpairs p q hplt hqlt hlt id hcmd id hcmd') hirrefl
  · exact heq
  · exact absurd (hpairs q p hqlt hplt hgt id hcmd' id hcmd) hirrefl

/-- **Definition before use.**  What a command uses is a ground value, which an earlier command has
    defined. -/
theorem used (h : Grown ns ps cs) (hlen : ns.length ≤ 2 ^ 32) {i : Nat} {cmd : Command}
    (hcmd : cs[i]? = some cmd) {id : NodeId} (hid : id ∈ cmd.uses) :
    ∃ n, ns[id.index.toNat]? = some n ∧ n.IsGround ∧ DefinedBefore cs i (home id n) := by
  obtain ⟨before, past, nodes, ports, more, hbefore, hgrows, rfl⟩ := h.split hcmd
  obtain ⟨n, hn, hground⟩ := hgrows.used id hid
  rw [List.length_append, List.length_append] at hlen
  obtain ⟨q, -, cmd', hcmd', hdefines⟩ := hbefore.home_defined (by omega) hn
  rw [List.append_assoc]
  refine ⟨n, getElem?_append_of_eq_some _ hn, hground, ?_⟩
  -- it was defined when the command came, and so by one of the commands before it
  rw [List.getElem?_take] at hcmd'
  split at hcmd'
  · next hq => exact ⟨q, hq, cmd', hcmd', hdefines⟩
  · cases hcmd'

/-! ## Results -/

/-- A result, or the aggregate that it is a field of, is made where it is defined. -/
theorem madeBefore (h : Grown ns ps cs) (hlen : ns.length ≤ 2 ^ 32) {id : NodeId} {n : Node}
    (hn : ns[id.index.toNat]? = some n) (hrole : n.role = .result) {k : Nat}
    (hdefined : DefinedBefore cs k (home id n)) : MadeBefore cs k id n := by
  obtain ⟨j, hj, cmd, hcmd, hdefines⟩ := hdefined
  obtain ⟨m, hm, -, hresult⟩ := h.home_node hlen hn
  obtain ⟨m', hm', -, hintroduces⟩ := h.introduces hlen (List.mem_of_getElem? hcmd) hdefines
  obtain rfl := Option.some.inj (hm.symm.trans hm')
  obtain ⟨op, args, rfl⟩ := hintroduces.eq_defPrim (hresult hrole) hdefines
  exact ⟨j, hj, op, args, hcmd⟩

/-- Every result has been made. -/
theorem made (h : Grown ns ps cs) (hlen : ns.length ≤ 2 ^ 32) {id : NodeId} {n : Node}
    (hn : ns[id.index.toNat]? = some n) (hrole : n.role = .result) :
    MadeBefore cs cs.length id n :=
  h.madeBefore hlen hn hrole (h.home_defined hlen hn)

/-- What a command refers to is there, and made before it. -/
theorem reads_known (h : Grown ns ps cs) (hlen : ns.length ≤ 2 ^ 32) {i : Nat} {cmd : Command}
    (hcmd : cs[i]? = some cmd) (id : NodeId) (hid : id ∈ cmd.reads) :
    ∃ n, ns[id.index.toNat]? = some n ∧ n.IsGround ∧ (n.role = .result → MadeBefore cs i id n) := by
  obtain ⟨n, hn, hground, hdefined⟩ := h.used hlen hcmd (cmd.reads_subset_uses hid)
  exact ⟨n, hn, hground, fun hrole => h.madeBefore hlen hn hrole hdefined⟩

/-- The node of an operator's result. -/
theorem result_node (h : Grown ns ps cs) (hlen : ns.length ≤ 2 ^ 32) {j : Nat} {r : NodeId}
    {op : Operator} {args : List Operand} (hcmd : cs[j]? = some (.defPrim r op args)) :
    ∃ n, ns[r.index.toNat]? = some n ∧ n.role = .result ∧ n.origin = .defined := by
  obtain ⟨n, hn, horigin, hrole⟩ := h.introduces hlen (List.mem_of_getElem? hcmd) rfl
  exact ⟨n, hn, hrole, horigin⟩

/-- No two commands make the same result. -/
theorem defPrim_injective (h : Grown ns ps cs) (hlen : ns.length ≤ 2 ^ 32) {i j : Nat} {r : NodeId}
    {op op' : Operator} {args args' : List Operand} (hi : cs[i]? = some (.defPrim r op args))
    (hj : cs[j]? = some (.defPrim r op' args')) : i = j :=
  h.defines_injective hlen hi hj rfl rfl

end Grown

end Draft

end Circuitry
