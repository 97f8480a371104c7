/-
  Running elaborated circuits.

  For an elaborated circuit whose nodes have all been checked, nearly everything that can go wrong in a
  run is ruled out by how the circuit has grown.  Two flaws are left (`Flaw`): a constant of more than
  128 bits among the operands, and a selection between two aggregates that have no leaves.

  1. `Elaborated.ground_fault` and `Elaborated.selection_fault` are about the two forms of operators, and
     `Elaborated.flaw` goes through the ways in which circuits grow;
  2. `Elaborated.run_error` and `Elaborated.run_hollow` lift this to runs, the second with the
     observation that no pass gets past a selection between aggregates without leaves;
  3. `run_fails` says it of every circuit that a description has returned.
-/
import Circuitry.Proofs.Bench.Faults
import Circuitry.Proofs.Bench.Solution
import Circuitry.Proofs.Draft.Payloads
import Circuitry.Proofs.Draft.WellFormed

namespace Circuitry

open Draft (Ground Session idAt toNat_idAt getElem?_append_of_eq_some)

/-! ## Operands of a command -/

/-- The constant is the operand, or among its leaves. -/
inductive Operand.Mentions (k : Constant) : Operand → Prop
  | self : Mentions k (.constant k)
  | leaf {a : Operand} {as : List Operand} (mem : a ∈ as) (mentioned : Mentions k a) :
      Mentions k (.aggregate as)

namespace Bench

variable {b : Bench} {i : Nat} {f : Fault}

/-! ## Elaborated circuits -/

/-- What is left that can go wrong with an elaborated circuit, apart from not settling. -/
inductive Flaw (c : Circuit) : Fault → Prop
  /-- A constant operand is too wide. -/
  | wide {cmd : Command} {a : Operand} {k : Constant} {w : UInt32} (command : cmd ∈ c.commands)
      (operand : a ∈ cmd.operands) (mentioned : a.Mentions k) (wide : k.IsWide w) :
      Flaw c (.tooWide w)
  /-- The command selects between aggregates without leaves. -/
  | hollow {i : Nat} {result : NodeId} {cond : Operand}
      (command : c.commands[i]? = some (.defPrim result .mux [cond, .aggregate [], .aggregate []])) :
      Flaw c (.malformedOperands i .mux)

/-- Every ground node has a width. -/
def AllSized (b : Bench) : Prop :=
  ∀ id n, b.circuit.node? id = some n → n.IsGround → ∃ w, b.width id = .ok w

theorem AllSized.not_unsized (h : b.AllSized) {id : NodeId} {n : Node}
    (hn : b.circuit.node? id = some n) (hground : n.IsGround) : ¬ b.Unsized id := by
  obtain ⟨w, hw⟩ := h id n hn hground
  exact fun hunsized => hunsized w hw

/-- The fault is that of a wide constant in the operand. -/
def WideIn (a : Operand) (f : Fault) : Prop := ∃ k w, a.Mentions k ∧ k.IsWide w ∧ f = .tooWide w

theorem WideIn.leaf {a : Operand} {as : List Operand} (h : WideIn a f) (ha : a ∈ as) :
    WideIn (.aggregate as) f := by
  obtain ⟨k, w, hk, hwide, rfl⟩ := h
  exact ⟨k, w, .leaf ha hk, hwide, rfl⟩

theorem WideIn.flaw {c : Circuit} {cmd : Command} {a : Operand} (h : WideIn a f)
    (hcmd : cmd ∈ c.commands) (ha : a ∈ cmd.operands) : Flaw c f := by
  obtain ⟨k, w, hk, hwide, rfl⟩ := h
  exact .wide hcmd ha hk hwide

/-- A ground operand only fails as a constant. -/
theorem OperandFault.wide {ns : List Node} {a : Operand} (h : b.OperandFault i a f)
    (hground : Ground ns a) {more : List Node} (hnodes : b.circuit.nodes = ns ++ more)
    (hsized : b.AllSized) : WideIn a f := by
  obtain ⟨kind, hkind⟩ := hground
  cases h with
  | @node id unsized =>
    obtain ⟨n, width, hn, hty⟩ := hkind
    have hnode : b.circuit.node? id = some n := by
      rw [Circuit.node?, hnodes]
      exact getElem?_append_of_eq_some more hn
    exact absurd unsized (hsized.not_unsized hnode ⟨kind, width, hty⟩)
  | constant wide => exact ⟨_, _, .self, wide, rfl⟩
  | aggregate as => cases hkind

namespace Elaborated

/-- The register of a name is ground. -/
theorem register_ground (h : b.Elaborated) {name : String} {id : NodeId}
    (hid : register? b.circuit name = some id) :
    ∃ n, b.circuit.node? id = some n ∧ n.IsGround := by
  obtain ⟨n, hn, hrole, -⟩ := node_of_register? h.size hid
  exact ⟨n, hn, h.grown.ground_of_role h.size hn (by rw [hrole]; decide)⟩

/-- A selection between aggregates of leaves suits its result, which has a field for each of them. -/
theorem selects (h : b.Elaborated) {result : NodeId} {cond : Operand} {ts fs : List Operand}
    {types : Shape.Fields (Kind × Width)} {leaves : List Signal}
    (hnode : b.circuit.node? result = some (Session.selectionNode types))
    (htyped : leaves.map Signal.ty = (Shape.fieldLeaves types).map fun u => .element u.1 u.2)
    (htrue : ts.length = leaves.length) (hfalse : fs.length = leaves.length) (hne : leaves ≠ []) :
    b.Selects result .mux (Session.selectionArgs cond ts fs) cond ts fs := by
  obtain ⟨-, -, hfields⟩ := (h.grown.wellFormed h.size).aggregates _ _ _ hnode rfl
  have hlength : (b.circuit.fieldNodes result).length = leaves.length := by
    rw [hfields.length, Session.selectionNode, Ty.leaves, Shape.fieldLeaves_fieldsToTy]
    simpa using (congrArg List.length htyped).symm
  refine ⟨rfl, rfl, fun hnil => hne ?_, htrue.trans hlength.symm, hfalse.trans hlength.symm⟩
  rw [hnil] at hlength
  exact List.length_eq_zero_iff.1 hlength.symm

/-- An operator with a ground result, and as many operands as it takes, fails at an operand. -/
theorem ground_fault (h : b.Elaborated) (hsized : b.AllSized) {result : NodeId} {op : Operator}
    {args : List Operand} {n : Node} (hnode : b.circuit.node? result = some n)
    (hground : n.IsGround) (harity : args.length = op.arity)
    (hfault : b.CommandFault i (.defPrim result op args) f) : ∃ a ∈ args, b.OperandFault i a f := by
  cases hfault with
  | arity wrong => exact absurd harity wrong
  | missing missing => exact absurd (hnode.symm.trans missing) nofun
  | operand _ _ mem fault => exact ⟨_, mem, fault⟩
  | unsized node isGround unsized => exact absurd unsized (hsized.not_unsized node isGround)
  | shape node fields _ =>
    obtain rfl := Option.some.inj (hnode.symm.trans node)
    exact absurd hground fields
  | leaf node fields _ _ =>
    obtain rfl := Option.some.inj (hnode.symm.trans node)
    exact absurd hground fields
  | unsizedLeaf mem unsized =>
    obtain ⟨n, -, hn, -, -, hground⟩ := h.fieldNode mem
    exact absurd unsized (hsized.not_unsized hn hground)

/-- A selection between aggregates fails at a leaf, or because there are none. -/
theorem selection_fault (h : b.Elaborated) (hsized : b.AllSized) {result : NodeId} {cond : Operand}
    {ts fs : List Operand} {types : Shape.Fields (Kind × Width)} {leaves : List Signal}
    (hnode : b.circuit.node? result = some (Session.selectionNode types))
    (htyped : leaves.map Signal.ty = (Shape.fieldLeaves types).map fun u => .element u.1 u.2)
    (htrue : ts.length = leaves.length) (hfalse : fs.length = leaves.length)
    (hfault : b.CommandFault i (.defPrim result .mux (Session.selectionArgs cond ts fs)) f) :
    (leaves = [] ∧ f = .malformedOperands i .mux) ∨
      ∃ a ∈ cond :: (ts ++ fs), b.OperandFault i a f := by
  have hresult : ¬ (Session.selectionNode types).IsGround := Node.not_isGround rfl
  cases hfault with
  | arity wrong => exact absurd rfl wrong
  | missing missing => exact absurd (hnode.symm.trans missing) nofun
  | operand node isGround _ _ =>
    obtain rfl := Option.some.inj (hnode.symm.trans node)
    exact absurd isGround hresult
  | unsized node isGround _ =>
    obtain rfl := Option.some.inj (hnode.symm.trans node)
    exact absurd isGround hresult
  | shape _ _ unsuited =>
    by_cases hleaves : leaves = []
    · exact .inl ⟨hleaves, rfl⟩
    · exact absurd (h.selects hnode htyped htrue hfalse hleaves) (unsuited _ _ _)
  | leaf _ _ mem fault => exact .inr ⟨_, mem, fault⟩
  | unsizedLeaf mem unsized =>
    obtain ⟨n, -, hn, -, -, hground⟩ := h.fieldNode mem
    exact absurd unsized (hsized.not_unsized hn hground)

/-- **Two flaws.**  If every ground node has a width, a pass only fails at a command with a flaw. -/
theorem flaw (h : b.Elaborated) (hsized : b.AllSized) {cmd : Command}
    (hcmd : b.circuit.commands[i]? = some cmd) (hfault : b.CommandFault i cmd f) :
    Flaw b.circuit f := by
  obtain ⟨before, past, nodes, ports, more, -, hgrows, hnodes⟩ := h.grown.split hcmd
  have hmem := List.mem_of_getElem? hcmd
  have hnew : ∀ {n : Node} {rest : List Node}, nodes = n :: rest →
      b.circuit.node? (idAt before.length) = some n := by
    rintro n rest rfl
    have hlen := h.size
    rw [hnodes, List.length_append, List.length_append, List.length_cons] at hlen
    rw [Circuit.node?, hnodes, toNat_idAt (by omega)]
    simp
  rw [List.append_assoc] at hnodes
  cases hgrows with
  | declare r name s => cases r <;> cases hfault
  | define op args arity ground s =>
    obtain ⟨a, ha, hfault⟩ := h.ground_fault hsized (hnew rfl) ⟨_, _, rfl⟩ arity hfault
    exact (hfault.wide (ground a ha) hnodes hsized).flaw hmem ha
  | select c ts fs ground types leaves typed whenTrue whenFalse =>
    rcases h.selection_fault hsized (hnew rfl) typed whenTrue whenFalse hfault with
      ⟨rfl, rfl⟩ | ⟨a, ha, hfault⟩
    · obtain rfl := List.length_eq_zero_iff.1 whenTrue
      obtain rfl := List.length_eq_zero_iff.1 whenFalse
      exact .hollow hcmd
    have hwide := hfault.wide (ground a ha) hnodes hsized
    rcases List.mem_cons.1 ha with rfl | ha
    · exact hwide.flaw hmem (List.mem_cons_self ..)
    rcases List.mem_append.1 ha with ha | ha
    · exact (hwide.leaf ha).flaw hmem (by simp [Command.operands, Session.selectionArgs])
    · exact (hwide.leaf ha).flaw hmem (by simp [Command.operands, Session.selectionArgs])
  | connect target a kind driven source =>
    cases hfault with
    | target unsized =>
      obtain ⟨n, width, hn, -, hty⟩ := driven
      have hnode : b.circuit.node? target = some n := by
        rw [Circuit.node?, hnodes]
        exact getElem?_append_of_eq_some _ hn
      exact absurd unsized (hsized.not_unsized hnode ⟨kind, width, hty⟩)
    | source fault =>
      exact (fault.wide ⟨kind, source⟩ hnodes hsized).flaw hmem (List.mem_singleton_self _)
  | mark cmd control boolean =>
    cases hfault with
    | predicate fault =>
      have hground : Ground before _ := ⟨_, boolean _ _ rfl⟩
      exact (fault.wide hground hnodes hsized).flaw hmem (List.mem_singleton_self _)
    | _ => cases control

/-- A run of an elaborated circuit fails for want of passes or for a flaw. -/
theorem run_error (h : b.Elaborated) (hsized : b.AllSized) (hrun : b.run = .error f) :
    f = .noConvergence b.passLimit ∨ Flaw b.circuit f := by
  refine (settle_error hrun).imp_right fun ⟨v, hv, hfault⟩ => ?_
  obtain ⟨i, pred⟩ := v
  cases pred with
  | none =>
    obtain ⟨cmd, hcmd, hfault⟩ := hfault
    exact h.flaw hsized hcmd hfault
  | some pred =>
    rw [h.visits_eq, mem_streamVisits] at hv
    obtain ⟨k, cmd, hcmd, hv⟩ := hv
    -- only the beginning of a clause is visited with a predicate
    cases cmd with
    | whenBegin pred' depth =>
      obtain ⟨rfl, rfl⟩ : i = k ∧ pred = pred' := by simpa [Command.visit] using hv
      exact h.flaw hsized hcmd (.predicate hfault)
    | _ => simp [Command.visit] at hv

/-- No pass gets past a selection between aggregates without leaves. -/
theorem exec_hollow (h : b.Elaborated) {result : NodeId} {cond : Operand}
    (hcmd : b.circuit.commands[i]? =
      some (.defPrim result .mux [cond, .aggregate [], .aggregate []])) (p p' : Pass) :
    b.exec true b.block p ≠ .ok p' := by
  intro hexec
  obtain ⟨active, q, q', hexecuted⟩ := exec_executed b.block hcmd hexec (h.mem_visits hcmd rfl)
  cases hexecuted with
  | ground _ _ operands _ => simp [value?, operand] at operands
  | fields _ _ _ whenTrue _ _ inhabited =>
    exact inhabited (List.length_eq_zero_iff.1 whenTrue.symm)
  | idle noResult _ => exact noResult _ _ _ rfl

/-- A selection between aggregates without leaves is a flaw of every run. -/
theorem run_hollow (h : b.Elaborated) (hsized : b.AllSized) {result : NodeId} {cond : Operand}
    (hcmd : b.circuit.commands[i]? =
      some (.defPrim result .mux [cond, .aggregate [], .aggregate []])) :
    ∃ f, b.run = .error f ∧ Flaw b.circuit f := by
  cases hexec : b.exec true b.block ⟨b.initial, [], []⟩ with
  | ok p => exact absurd hexec (h.exec_hollow hcmd _ _)
  | error f =>
    -- the limit leaves at least one pass, and it is the first one that fails
    have hrun : b.run = .error f := by
      rw [run, passLimit, settle, hexec]
      rfl
    refine ⟨f, hrun, (h.run_error hsized hrun).resolve_left ?_⟩
    rintro rfl
    exact exec_ne_noConvergence _ hexec

end Elaborated

/-! ## Descriptions -/

/-- Why there is no bench for a circuit. -/
inductive Unfit (c : Circuit) : Fault → Prop
  | unknown {id : NodeId} {n : Node} {kind : Kind} (node : c.node? id = some n)
      (ty : n.ty = .element kind .unknown) : Unfit c (.unknownWidth id)
  | wide {id : NodeId} {n : Node} {kind : Kind} {w : UInt32} (node : c.node? id = some n)
      (ty : n.ty = .element kind (.known w)) (wide : Value.maxWidth < w.toNat) :
      Unfit c (.tooWide w)

theorem of_error {c : Circuit} {block : Block} (hblock : Block.ofCommands c.commands = .ok block)
    (hsize : c.nodes.length ≤ 2 ^ 32) (h : Bench.of c = .error f) : Unfit c f := by
  simp only [Bench.of, hblock] at h
  rcases bind_eq_error.1 h with hcheck | ⟨_, -, h⟩
  · obtain ⟨⟨id, n⟩, hmem, hfail⟩ := forM_eq_error hcheck
    have hn := (Circuit.mem_numbered hsize).1 hmem
    unfold checkNode at hfail
    split at hfail
    · cases hfail
    · next kind hty =>
      obtain rfl := Except.error.inj hfail
      exact .unknown hn hty
    · next kind w hty =>
      split at hfail
      · cases hfail
      · next hwide =>
        obtain rfl := Except.error.inj hfail
        exact .wide hn hty (Nat.lt_of_not_le hwide)
  · cases h

/-- The circuit selects between aggregates that have no leaves. -/
def SelectsNothing (c : Circuit) : Prop := ∃ (i : Nat) (result : NodeId) (cond : Operand),
  c.commands[i]? = some (.defPrim result .mux [cond, .aggregate [], .aggregate []])

theorem Prepared.allSized {c : Circuit} {gs : List Setting} (h : Prepared c gs b) :
    b.AllSized := by
  intro id n hn hground
  obtain ⟨w, hw, -⟩ := h.exists_width (h.circuit_eq ▸ hn) hground
  exact ⟨w, hw⟩

/-- A bench for an elaborated circuit takes values for whatever there is of the name. -/
theorem Prepared.set_error {c : Circuit} {gs : List Setting} (h : Prepared c gs b)
    (hb : b.Elaborated) {g : Setting} (hset : b.set g = .error f) :
    ∃ sought name, f = .unknownName sought name := by
  have hsized := h.allSized
  cases g with
  | input name n =>
    change b.setInput name n = .error f at hset
    unfold setInput at hset
    split at hset
    · exact ⟨_, _, (Except.error.inj hset).symm⟩
    · next port hport =>
      obtain ⟨hmem, -⟩ := List.mem_filter.1 (List.mem_of_find?_eq_some hport)
      obtain ⟨n, hn, -, hground⟩ := hb.grown.port_node hb.size port hmem
      obtain ⟨w, hw⟩ := hsized _ n hn hground
      rw [hw] at hset
      cases hset
  | register name n =>
    change b.setRegister name n = .error f at hset
    unfold setRegister at hset
    split at hset
    · exact ⟨_, _, (Except.error.inj hset).symm⟩
    · next id hid =>
      obtain ⟨n, hn, hground⟩ := hb.register_ground hid
      obtain ⟨w, hw⟩ := hsized _ n hn hground
      rw [hw] at hset
      cases hset

/-- **Elaborated circuits run, but for two flaws.**  For a circuit that a description has returned there
    is a bench unless a width is open or too large.  It takes values for every name that it has.  A run
    of it ends well or without coming to rest, unless a constant operand is wider than values can be, or
    the circuit selects between aggregates that have no leaves; and then no run ends well. -/
theorem run_fails {s : Script} {m m' : Script.Memory} {name : String}
    {settings : Settings.Elaboration} {o : Script.Outcome} {c : Circuit} (hm : m.Reached)
    (hdescribe : s.describe? m name settings = some (o, m')) (hc : o.result = .ok c)
    (hsize : c.nodes.length ≤ 2 ^ 32) :
    (∀ f, Bench.of c = .error f → Unfit c f) ∧ ∀ gs b, Prepared c gs b →
      (∀ g f, b.set g = .error f → ∃ sought name, f = .unknownName sought name) ∧
      (∀ f, b.run = .error f → f = .noConvergence b.passLimit ∨ Flaw c f) ∧
      (SelectsNothing c → ∃ f, b.run = .error f ∧ Flaw c f) := by
  obtain ⟨-, block, hblock⟩ := Script.grown_of_describe? hm hdescribe hc hsize
  refine ⟨fun f => of_error hblock hsize, fun gs b hb => ?_⟩
  have h := hb.elaborated_of_describe? hm hdescribe hc hsize
  have hsized := hb.allSized
  obtain rfl := hb.circuit_eq
  refine ⟨fun g f => hb.set_error h, fun f => h.run_error hsized, ?_⟩
  rintro ⟨i, result, cond, hcmd⟩
  exact h.run_hollow hsized hcmd

/-- How a circuit on its own fails to run after some settings. -/
def failure? (s : Script) (gs : List Setting) : Option (Bench × Fault) := do
  let (o, _) ← s.describe? .empty "t" .default
  let c ← o.result.toOption
  let b ← (prepare c gs).toOption
  match b.run with
  | .ok _ => none
  | .error f => some (b, f)

theorem failure?_eq_some {s : Script} {gs : List Setting} (h : failure? s gs = some (b, f)) :
    ∃ o m', s.describe? .empty "t" .default = some (o, m') ∧ o.result = .ok b.circuit ∧
      Prepared b.circuit gs b ∧ b.run = .error f := by
  obtain ⟨⟨o, m'⟩, hdescribe, h⟩ := Option.bind_eq_some_iff.1 h
  obtain ⟨c, hc, h⟩ := Option.bind_eq_some_iff.1 h
  obtain ⟨b', hb, h⟩ := Option.bind_eq_some_iff.1 h
  split at h
  · cases h
  · next f' hrun =>
    obtain ⟨rfl, rfl⟩ := Prod.mk.inj (Option.some.inj h)
    have hprepared := prepared_of_prepare (eq_ok_of_toOption hb)
    rw [hprepared.circuit_eq]
    exact ⟨o, m', hdescribe, eq_ok_of_toOption hc, hprepared, hrun⟩

/-- An output of four bits that is driven by a constant of two hundred. -/
def overwide : Script :=
  .call ⟨"", false, some "k"⟩ (.literalUInt 3 (.known 200)) <|
  .call ⟨"", false, some "y"⟩ (.declare (.port .output) "y" (.leaf (.template .uint (.known 4)))) <|
  .call ⟨"", false, none⟩ (.connect "y" "k") .done

theorem overwide_fails : ∃ b, Prepared b.circuit [] b ∧ b.run = .error (.tooWide 200) ∧
    Flaw b.circuit (.tooWide 200) := by
  have htry : (failure? overwide []).map (fun (b, f) => (b.circuit.nodes.length, f)) =
      some (1, .tooWide 200) := by
    decide +kernel
  obtain ⟨⟨b, f⟩, hbf, heq⟩ := Option.map_eq_some_iff.1 htry
  obtain ⟨hlength, rfl⟩ := Prod.mk.inj heq
  obtain ⟨o, m', hdescribe, hc, hb, hrun⟩ := failure?_eq_some hbf
  have hsize : b.circuit.nodes.length ≤ 2 ^ 32 := by omega
  obtain ⟨-, hall⟩ := run_fails Script.Memory.Reached.empty hdescribe hc hsize
  obtain ⟨-, hflaw, -⟩ := hall _ b hb
  exact ⟨b, hb, hrun, (hflaw _ hrun).resolve_left nofun⟩

/-- A selection between two aggregates without leaves. -/
def selectingNothing : Script :=
  .call ⟨"", false, some "c"⟩ (.literalBool true) <|
  .call ⟨"", false, some "a"⟩ (.aggregate (.group [])) <|
  .call ⟨"", false, some "m"⟩ (.muxBundle "c" "a" "a") .done

/-- **A selection between aggregates without leaves cannot be run.**  It is described without a fault,
    and its operands are taken to be malformed. -/
theorem selectingNothing_fails : ∃ o m' b,
    selectingNothing.describe? .empty "t" .default = some (o, m') ∧ o.result = .ok b.circuit ∧
      Prepared b.circuit [] b ∧ b.run = .error (.malformedOperands 0 .mux) := by
  have htry : (failure? selectingNothing []).map (·.2) = some (.malformedOperands 0 .mux) := by
    decide +kernel
  obtain ⟨⟨b, f⟩, hbf, rfl⟩ := Option.map_eq_some_iff.1 htry
  obtain ⟨o, m', hdescribe, hc, hb, hrun⟩ := failure?_eq_some hbf
  exact ⟨o, m', b, hdescribe, hc, hb, hrun⟩

end Bench

end Circuitry
