/-
  What a value depends on.

  A result takes the values of the nodes that its operator names, and so does a field of a selection,
  which takes its condition and the two leaves in its place.  A wire or an output takes the sources of
  the connections to it and the predicates that guard them.  Inputs and registers take nothing.

  1. `Dependency` is this relation, read off the command stream and the nesting;
  2. two assignments that satisfy an equation and agree on what a node depends on agree on the node
     (`result_congr`, `driven?_congr`);
  3. without a cycle in the relation, the equations have at most one solution (`Acyclic.unique`).
-/
import Mathlib.Data.Fintype.EquivFin
import Mathlib.Logic.Relation
import Mathlib.Order.WellFounded
import Circuitry.Proofs.Bench.Solution

namespace Circuitry.Bench

open Draft (home)
open Relation (TransGen ReflTransGen)

/-- The value of a node takes that of another. -/
inductive Dependency (b : Bench) : NodeId → NodeId → Prop
  /-- An operand of a result. -/
  | operand {i : Nat} {result source : NodeId} {op : Operator} {args : List Operand} {n : Node}
      (command : b.circuit.commands[i]? = some (.defPrim result op args))
      (node : b.circuit.node? result = some n) (ground : n.IsGround)
      (mem : source ∈ operandsNodes args) : Dependency b result source
  /-- The condition of a selection between aggregates. -/
  | condition {i : Nat} {result leaf source : NodeId} {cond : Operand} {t f : List Operand}
      (command : b.circuit.commands[i]? = some (.defPrim result .mux [cond, .aggregate t, .aggregate f]))
      (field : leaf ∈ b.circuit.fieldNodes result) (mem : source ∈ cond.nodes) :
      Dependency b leaf source
  /-- One of the two leaves that a field is selected from. -/
  | leaf {i k : Nat} {result leaf source : NodeId} {cond a : Operand} {t f : List Operand}
      (command : b.circuit.commands[i]? = some (.defPrim result .mux [cond, .aggregate t, .aggregate f]))
      (field : (b.circuit.fieldNodes result)[k]? = some leaf)
      (operand : t[k]? = some a ∨ f[k]? = some a) (mem : source ∈ a.nodes) : Dependency b leaf source
  /-- The source of a connection. -/
  | source {i : Nat} {target source : NodeId} {a : Operand} {n : Node}
      (command : b.circuit.commands[i]? = some (.connect target a))
      (node : b.circuit.node? target = some n) (driven : isDriven n.role = true)
      (mem : source ∈ a.nodes) : Dependency b target source
  /-- A predicate that guards a connection. -/
  | guard {i : Nat} {target source : NodeId} {a : Operand} {n : Node} {path : List Guard} {g : Guard}
      (command : b.circuit.commands[i]? = some (.connect target a))
      (node : b.circuit.node? target = some n) (driven : isDriven n.role = true)
      (guarded : (i, path) ∈ b.block.guarded) (on_path : g ∈ path) (mem : source ∈ g.pred.nodes) :
      Dependency b target source

/-- No value depends on itself. -/
def Acyclic (b : Bench) : Prop := ∀ id, ¬ TransGen b.Dependency id id

variable {b : Bench}

/-- There are finitely many ids, so without cycles the relation is well-founded. -/
theorem Acyclic.wellFounded (h : b.Acyclic) : WellFounded (flip b.Dependency) := by
  have : Finite NodeId :=
    Finite.of_injective (fun id => (⟨id.index.toNat, id.index.toNat_lt⟩ : Fin (2 ^ 32)))
      fun x y he => NodeId.ext_toNat (congrArg Fin.val he)
  have hwf : WellFounded (TransGen (flip b.Dependency)) := by
    have : IsTrans NodeId (TransGen (flip b.Dependency)) := ⟨fun _ _ _ => TransGen.trans⟩
    have : Std.Irrefl (TransGen (flip b.Dependency)) :=
      ⟨fun id hid => h id (Relation.transGen_swap.1 hid)⟩
    exact Finite.wellFounded_of_trans_of_irrefl _
  exact Subrelation.wf (fun hxy => TransGen.single hxy) hwf

/-! ## Edges -/

/-- Whether a node is a wire or an output. -/
def drives (b : Bench) (id : NodeId) : Bool := (b.circuit.node? id).any fun n => isDriven n.role

/-- The dependencies that a command brings with it, given the nodes of the predicates that guard it. -/
def commandEdges (b : Bench) (guards : List NodeId) : Command → List (NodeId × NodeId)
  | .defPrim result _ args =>
    (result :: (b.circuit.fieldEntries result).map (·.2)).flatMap fun id =>
      (operandsNodes args).map (id, ·)
  | .connect target a => if b.drives target then (a.nodes ++ guards).map (target, ·) else []
  | _ => []

/-- A list in which all dependencies are found. -/
def edges (b : Bench) : List (NodeId × NodeId) :=
  b.block.guarded.flatMap fun (i, path) =>
    ((b.circuit.commands[i]?).map (b.commandEdges (path.flatMap (·.pred.nodes)))).getD []

theorem mem_edges {i : Nat} {path : List Guard} {cmd : Command} {e : NodeId × NodeId}
    (hpath : (i, path) ∈ b.block.guarded) (hcmd : b.circuit.commands[i]? = some cmd)
    (he : e ∈ b.commandEdges (path.flatMap (·.pred.nodes)) cmd) : e ∈ b.edges := by
  refine List.mem_flatMap.2 ⟨(i, path), hpath, ?_⟩
  show e ∈ ((b.circuit.commands[i]?).map (b.commandEdges (path.flatMap (·.pred.nodes)))).getD []
  rw [hcmd]
  exact he

theorem mem_edges_of_defPrim (h : b.Elaborated) {i : Nat} {result id source : NodeId}
    {op : Operator} {args : List Operand}
    (hcmd : b.circuit.commands[i]? = some (.defPrim result op args))
    (hid : id = result ∨ id ∈ b.circuit.fieldNodes result) (hmem : source ∈ operandsNodes args) :
    (id, source) ∈ b.edges := by
  obtain ⟨⟨j, path⟩, hpath, rfl⟩ := List.mem_map.1 (h.mem_positions_guarded hcmd rfl)
  refine mem_edges hpath hcmd (List.mem_flatMap.2 ⟨id, ?_, List.mem_map.2 ⟨source, hmem, rfl⟩⟩)
  rcases hid with rfl | hfield
  · exact List.mem_cons_self ..
  · obtain ⟨e, he, rfl⟩ := List.mem_map.1 hfield
    rw [Circuit.sortEntries_eq_mergeSort, List.mem_mergeSort] at he
    exact List.mem_cons_of_mem _ (List.mem_map.2 ⟨e, he, rfl⟩)

theorem Dependency.mem_edges (h : b.Elaborated) {id source : NodeId}
    (hdep : b.Dependency id source) : (id, source) ∈ b.edges := by
  cases hdep with
  | operand command _ _ mem => exact mem_edges_of_defPrim h command (.inl rfl) mem
  | condition command field mem =>
    refine mem_edges_of_defPrim h command (.inr field) ?_
    exact List.mem_append_left _ mem
  | @leaf _ k _ _ _ _ a t f command field operand mem =>
    refine mem_edges_of_defPrim h command (.inr (List.mem_of_getElem? field)) ?_
    simp only [operandsNodes, Operand.nodes, List.mem_append, mem_operandsNodes]
    rcases operand with ht | hf
    · exact .inr (.inl ⟨a, List.mem_of_getElem? ht, mem⟩)
    · exact .inr (.inr (.inl ⟨a, List.mem_of_getElem? hf, mem⟩))
  | source command node driven mem =>
    obtain ⟨⟨j, path⟩, hpath, rfl⟩ := List.mem_map.1 (h.mem_positions_guarded command rfl)
    refine Bench.mem_edges hpath command ?_
    have hdrives : b.drives id = true := by simp [drives, node, driven]
    simp only [commandEdges, hdrives, if_true]
    exact List.mem_map.2 ⟨source, List.mem_append_left _ mem, rfl⟩
  | @guard _ _ _ _ _ path g command node driven guarded on_path mem =>
    refine Bench.mem_edges guarded command ?_
    have hdrives : b.drives id = true := by simp [drives, node, driven]
    simp only [commandEdges, hdrives, if_true]
    refine List.mem_map.2 ⟨source, List.mem_append_right _ ?_, rfl⟩
    exact List.mem_flatMap.2 ⟨g, on_path, mem⟩

/-- A numbering that decreases along all edges rules out cycles. -/
theorem acyclic_of_rank (h : b.Elaborated) (rank : NodeId → Nat)
    (hrank : ∀ e ∈ b.edges, rank e.2 < rank e.1) : b.Acyclic := by
  have hstep : ∀ {id source : NodeId}, TransGen b.Dependency id source → rank source < rank id := by
    intro id source hdep
    induction hdep with
    | single hdep => exact hrank _ (hdep.mem_edges h)
    | tail _ hdep ih => exact Nat.lt_trans (hrank _ (hdep.mem_edges h)) ih
  exact fun id hdep => Nat.lt_irrefl _ (hstep hdep)

/-! ## Agreement -/

/-- Two assignments agree on a node, as far as it can have a value. -/
def AgreeAt (b : Bench) (U U' : List Nat) (id : NodeId) : Prop :=
  ∀ n, b.circuit.node? id = some n → n.IsGround → nodeValue? U id = nodeValue? U' id

/-- The predicates of guards are those of clauses. -/
theorem mem_visits_of_mem_guardedBelow {g : Guard} (blk : Block) : ∀ {base path : List Guard} {i : Nat},
    (i, path) ∈ blk.guardedBelow base → g ∈ path →
      g ∈ base ∨ ∃ j, (j, some g.pred) ∈ blk.visits := by
  induction blk with
  | empty => exact fun h => nomatch h
  | command i rest ih =>
    intro base path j hj hg
    rcases List.mem_cons.1 hj with he | hj
    · obtain ⟨rfl, rfl⟩ := Prod.mk.inj he
      exact .inl hg
    · obtain hbase | ⟨k, hk⟩ := ih hj hg
      · exact .inl hbase
      · exact .inr ⟨k, List.mem_cons_of_mem _ hk⟩
  | clause pred i body rest ihb ih =>
    intro base path j hj hg
    rw [Block.visits]
    rcases List.mem_append.1 hj with hj | hj
    · obtain hbase | ⟨k, hk⟩ := ihb hj hg
      · rcases List.mem_append.1 hbase with hbase | hnew
        · exact .inl hbase
        · obtain rfl := List.mem_singleton.1 hnew
          exact .inr ⟨i, List.mem_cons_self ..⟩
      · exact .inr ⟨k, by simp [hk]⟩
    · obtain hbase | ⟨k, hk⟩ := ih hj hg
      · exact .inl hbase
      · exact .inr ⟨k, by simp [hk]⟩
  | clauseElse pred i body alternative rest ihb iha ih =>
    intro base path j hj hg
    rw [Block.visits]
    have hnew : ∀ {positive : Bool}, g ∈ base ++ [⟨pred, positive⟩] →
        g ∈ base ∨ ∃ k, (k, some g.pred) ∈
          (i, some pred) :: (body.visits ++ (alternative.visits ++ rest.visits)) := by
      intro positive hmem
      rcases List.mem_append.1 hmem with hbase | hnew
      · exact .inl hbase
      · obtain rfl := List.mem_singleton.1 hnew
        exact .inr ⟨i, List.mem_cons_self ..⟩
    rcases List.mem_append.1 hj with hj | hj
    · obtain hbase | ⟨k, hk⟩ := ihb hj hg
      · exact hnew hbase
      · exact .inr ⟨k, by simp [hk]⟩
    rcases List.mem_append.1 hj with hj | hj
    · obtain hbase | ⟨k, hk⟩ := iha hj hg
      · exact hnew hbase
      · exact .inr ⟨k, by simp [hk]⟩
    · obtain hbase | ⟨k, hk⟩ := ih hj hg
      · exact .inl hbase
      · exact .inr ⟨k, by simp [hk]⟩

/-- A field is determined by the leaf that is selected, whatever circuit it is a field in. -/
theorem FieldHolds.congr {b' : Bench} {U U' : List Nat} {c : Value} {leaf leaf' : NodeId}
    {x x' y y' : Operand} (h : b.FieldHolds U c leaf x y) (h' : b'.FieldHolds U' c leaf' x' y')
    (hwidth : ∀ w, b.width leaf = .ok w → b'.width leaf' = .ok w)
    (hx : b.value? U x = b'.value? U' x') (hy : b.value? U y = b'.value? U' y') :
    nodeValue? U leaf = nodeValue? U' leaf' := by
  obtain ⟨w, vx, vy, hw, htrue, hfalse, hval⟩ := h
  obtain ⟨w', vx', vy', hw', htrue', hfalse', hval'⟩ := h'
  obtain rfl := Except.ok.inj ((hwidth w hw).symm.trans hw')
  rw [hval, hval']
  cases hc : c.isTrue with
  | true =>
    have heq := htrue hc
    rw [hx, htrue' hc] at heq
    obtain rfl := Option.some.inj heq
    simp [Operator.apply, Operator.result, hc]
  | false =>
    have heq := hfalse hc
    rw [hy, hfalse' hc] at heq
    obtain rfl := Option.some.inj heq
    simp [Operator.apply, Operator.result, hc]

namespace Elaborated

variable {U U' : List Nat}

/-- What a command takes is a ground node, so agreement there is that of values. -/
theorem agree_reads (h : b.Elaborated) {i : Nat} {cmd : Command}
    (hcmd : b.circuit.commands[i]? = some cmd) {id : NodeId} (hid : id ∈ cmd.reads)
    (hagree : b.AgreeAt U U' id) : nodeValue? U id = nodeValue? U' id := by
  obtain ⟨n, hn, hground, -⟩ := h.grown.reads_known h.size hcmd id hid
  exact hagree n hn hground

/-- The predicates of guards take ground nodes. -/
theorem guard_known (h : b.Elaborated) {i : Nat} {path : List Guard}
    (hpath : (i, path) ∈ b.block.guarded) {g : Guard} (hg : g ∈ path) {id : NodeId}
    (hid : id ∈ g.pred.nodes) : ∃ n, b.circuit.node? id = some n ∧ n.IsGround := by
  obtain hbase | ⟨j, hj⟩ := mem_visits_of_mem_guardedBelow b.block hpath hg
  · cases hbase
  · obtain ⟨n, hn, hground, -⟩ := h.reads_known hj hid
    exact ⟨n, hn, hground⟩

theorem agree_guard (h : b.Elaborated) {i : Nat} {path : List Guard}
    (hpath : (i, path) ∈ b.block.guarded) {g : Guard} (hg : g ∈ path) {id : NodeId}
    (hid : id ∈ g.pred.nodes) (hagree : b.AgreeAt U U' id) :
    nodeValue? U id = nodeValue? U' id := by
  obtain ⟨n, hn, hground⟩ := h.guard_known hpath hg hid
  exact hagree n hn hground

/-- A field of a selection is determined by what it depends on. -/
theorem field_congr (h : b.Elaborated) (hU : b.OperatorsHold U) (hU' : b.OperatorsHold U')
    {j : Nat} {parent : NodeId} {op : Operator} {args : List Operand} {m : Node}
    (hcmd : b.circuit.commands[j]? = some (.defPrim parent op args))
    (hm : b.circuit.node? parent = some m) (hfields : ¬ m.IsGround) {id : NodeId}
    (hmem : id ∈ b.circuit.fieldNodes parent)
    (hdep : ∀ source, b.Dependency id source → b.AgreeAt U U' source) :
    nodeValue? U id = nodeValue? U' id := by
  obtain ⟨cond, t, f, c, rfl, rfl, hc, ht, hf, hleaves⟩ :=
    (operatorHolds_fields hm hfields).1 (hU j _ op args hcmd)
  obtain ⟨cond', t', f', c', -, hargs, hc', -, -, hleaves'⟩ :=
    (operatorHolds_fields hm hfields).1 (hU' j _ _ _ hcmd)
  simp only [List.cons.injEq, Operand.aggregate.injEq, and_true] at hargs
  obtain ⟨rfl, rfl, rfl⟩ := hargs
  obtain ⟨k, hk⟩ := List.mem_iff_getElem?.1 hmem
  have hlt := (List.getElem?_eq_some_iff.1 hk).1
  have hx : t[k]? = some t[k] := List.getElem?_eq_getElem (ht ▸ hlt)
  have hy : f[k]? = some f[k] := List.getElem?_eq_getElem (hf ▸ hlt)
  have hreads : ∀ source, source ∈ cond.nodes ∨ source ∈ t[k].nodes ∨ source ∈ f[k].nodes →
      source ∈ (Command.defPrim parent .mux [cond, .aggregate t, .aggregate f]).reads := by
    intro source hsource
    simp only [Command.reads, operandsNodes, Operand.nodes, List.append_nil, List.mem_append,
      mem_operandsNodes]
    rcases hsource with hsource | hsource | hsource
    · exact .inl hsource
    · exact .inr (.inl ⟨_, List.getElem_mem _, hsource⟩)
    · exact .inr (.inr ⟨_, List.getElem_mem _, hsource⟩)
  -- the field depends on the condition and on its own leaf of each branch, and on no other leaf
  have hcond : b.value? U cond = b.value? U' cond := value?_congr fun source hsource =>
    h.agree_reads hcmd (hreads source (.inl hsource))
      (hdep source (.condition hcmd hmem hsource))
  have htrue : b.value? U t[k] = b.value? U' t[k] := value?_congr fun source hsource =>
    h.agree_reads hcmd (hreads source (.inr (.inl hsource)))
      (hdep source (.leaf hcmd hk (.inl hx) hsource))
  have hfalse : b.value? U f[k] = b.value? U' f[k] := value?_congr fun source hsource =>
    h.agree_reads hcmd (hreads source (.inr (.inr hsource)))
      (hdep source (.leaf hcmd hk (.inr hy) hsource))
  obtain rfl : c = c' := Option.some.inj (hc.symm.trans (hcond.trans hc'))
  exact (hleaves k id _ _ hk hx hy).congr (hleaves' k id _ _ hk hx hy) (fun _ hw => hw) htrue hfalse

/-- A result is determined by what it depends on. -/
theorem result_congr (h : b.Elaborated) (hU : b.OperatorsHold U) (hU' : b.OperatorsHold U')
    {id : NodeId} {n : Node} (hn : b.circuit.node? id = some n) (hground : n.IsGround)
    (hrole : n.role = .result) (hdep : ∀ source, b.Dependency id source → b.AgreeAt U U' source) :
    nodeValue? U id = nodeValue? U' id := by
  obtain ⟨j, -, op, args, hcmd⟩ := h.grown.made h.size hn hrole
  obtain hhome | ⟨parent, index, m, horigin, hhome, hm, hfields⟩ :=
    h.grown.result_cases h.size hn hrole
  · rw [hhome] at hcmd
    obtain ⟨w, vs, hw, hvs, hval⟩ := (operatorHolds_ground hn hground).1 (hU j _ op args hcmd)
    obtain ⟨w', vs', hw', hvs', hval'⟩ := (operatorHolds_ground hn hground).1 (hU' j _ op args hcmd)
    have hargs : args.mapM (b.value? U) = args.mapM (b.value? U') :=
      mapM_value?_congr fun source hsource =>
        h.agree_reads hcmd hsource (hdep source (.operand hcmd hn hground hsource))
    rw [hargs, hvs'] at hvs
    obtain rfl := Except.ok.inj (hw.symm.trans hw')
    obtain rfl := Option.some.inj hvs
    rw [hval, hval']
  · rw [hhome] at hcmd
    have hmem : id ∈ b.circuit.fieldNodes parent :=
      (Circuit.mem_fieldNodes h.size).2 ⟨n, index, hn, horigin⟩
    exact h.field_congr hU hU' hcmd hm hfields hmem hdep

/-- What a target is driven to is determined by what it depends on. -/
theorem driven?_congr (h : b.Elaborated) {id : NodeId} {n : Node} (hn : b.circuit.node? id = some n)
    (hdriven : isDriven n.role = true)
    (hdep : ∀ source, b.Dependency id source → b.AgreeAt U U' source) (rest : Nat) :
    b.driven? U id rest = b.driven? U' id rest := by
  -- the guards come out the same, so the same connections count
  have hsources : b.sourcesTo U id = b.sourcesTo U' id := by
    rw [sourcesTo, sourcesTo, List.filterMap_filter, List.filterMap_filter]
    refine List.filterMap_congr fun e he => ?_
    cases ha : b.sourceTo? id e.1 with
    | none => simp
    | some a =>
      have hcmd := sourceTo?_eq_some.1 ha
      have hmet : Block.allMet (b.holds U) e.2 = Block.allMet (b.holds U') e.2 := by
        refine Block.allMet_congr fun g hg => ?_
        have hpred : b.value? U g.pred = b.value? U' g.pred := value?_congr fun source hmem =>
          h.agree_guard he hg hmem (hdep source (.guard hcmd hn hdriven he hg hmem))
        rw [holds, holds, hpred]
      rw [hmet]
  -- and the last of them has the same value
  rw [driven?, driven?, hsources]
  cases hlast : (b.sourcesTo U' id).getLast? with
  | none => rfl
  | some a =>
    obtain ⟨e, -, ha⟩ := List.mem_filterMap.1 (List.mem_of_getLast? hlast)
    have hcmd := sourceTo?_eq_some.1 ha
    exact drive?_congr fun source hmem =>
      h.agree_reads hcmd hmem (hdep source (.source hcmd hn hdriven hmem))

/-- A ground node has its value from an operator, from its drivers, or from outside. -/
theorem role_cases (h : b.Elaborated) {id : NodeId} {n : Node} (hn : b.circuit.node? id = some n) :
    n.role = .result ∨ isDriven n.role = true ∨ n.role = .register ∨ n.role = .port .input := by
  cases h.grown.node_cases h.size n (List.mem_of_getElem? hn) with
  | declared role _ _ =>
    obtain ⟨r, hr⟩ := role
    rw [hr]
    cases r with
    | port d => cases d <;> simp [Draft.Declared.role, isDriven]
    | wire => simp [Draft.Declared.role, isDriven]
    | register => simp [Draft.Declared.role, isDriven]
  | result role _ => exact .inl role
  | field _ _ role _ _ _ => exact .inl role

end Elaborated

/-- **One solution.**  Without a cycle, two assignments that satisfy the equations agree on all nodes
    that can have a value. -/
theorem Acyclic.unique (hacyclic : b.Acyclic) (h : b.Elaborated) {U U' : List Nat}
    (hU : b.Solves U) (hU' : b.Solves U') (id : NodeId) : b.AgreeAt U U' id := by
  -- on what a node depends on, which comes to an end
  induction id using hacyclic.wellFounded.induction with
  | _ id ih =>
    intro n hn hground
    obtain hrole | hrole | hrole | hrole := h.role_cases hn
    · exact h.result_congr hU.operators hU'.operators hn hground hrole ih
    · rw [hU.driven id n hn hrole, hU'.driven id n hn hrole, h.driven?_congr hn hrole ih]
    · rw [hU.registers id n hn hrole, hU'.registers id n hn hrole]
    · rw [hU.inputs id n hn hrole, hU'.inputs id n hn hrole]

end Circuitry.Bench
