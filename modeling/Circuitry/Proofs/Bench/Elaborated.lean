/-
  Benches for elaborated circuits.

  `Elaborated` is what is known of a bench whose circuit came out of a description: the circuit has
  grown step by step, its nesting has been read from its stream, and values have been given to
  registers and inputs only.

  1. What a walk through the nesting writes are results, each once and before it is read
     (`nodup_written`, `role_of_mem_written`, `ordered_visits`), so inputs and registers keep their
     values through a run (`holding_drive`);
  2. `Prepared c gs b` says how a bench comes about: from a circuit, by giving values one after the
     other; `Prepared.inputOf_eq` and `Prepared.stateOf_eq` say which of them counts.
-/
import Circuitry.Proofs.Bench.Nodes
import Circuitry.Proofs.Bench.Walk

namespace Circuitry

open Draft (Grown home)

namespace Bench

/-- A bench whose circuit came out of a description. -/
structure Elaborated (b : Bench) : Prop where
  grown : Grown b.circuit.nodes b.circuit.ports b.circuit.commands
  size : b.circuit.nodes.length ≤ 2 ^ 32
  block : Block.ofCommands b.circuit.commands = .ok b.block
  state : ∀ e ∈ b.state, ∃ n, b.circuit.node? e.1 = some n ∧ n.role = .register
  inputs : ∀ e ∈ b.inputs, ∃ n, b.circuit.node? e.1 = some n ∧ n.role = .port .input

namespace Elaborated

variable {b : Bench}

/-! ## What is written -/

/-- The field nodes of an aggregate are ground, and they are results. -/
theorem fieldNode (h : b.Elaborated) {parent leaf : NodeId}
    (hleaf : leaf ∈ b.circuit.fieldNodes parent) :
    ∃ n k, b.circuit.node? leaf = some n ∧ n.origin = .field parent k ∧ n.role = .result ∧
      n.IsGround := by
  obtain ⟨n, k, hn, hfield⟩ := (Circuit.mem_fieldNodes h.size).1 hleaf
  have hmem : n ∈ b.circuit.nodes := List.mem_of_getElem? hn
  cases h.grown.node_cases h.size n hmem with
  | declared _ origin _ => simp [hfield] at origin
  | result _ origin => simp [hfield] at origin
  | field _ _ role _ ground _ => exact ⟨n, k, hn, hfield, role, ground⟩

/-- A slot is a result that its command makes. -/
theorem slot (h : b.Elaborated) {i : Nat} {id : NodeId} (hid : id ∈ b.slots i) :
    ∃ n op args, b.circuit.node? id = some n ∧ n.role = .result ∧ n.IsGround ∧
      b.circuit.commands[i]? = some (.defPrim (home id n) op args) := by
  cases hcmd : b.circuit.commands[i]? with
  | none => simp [slots, hcmd] at hid
  | some cmd =>
    cases cmd with
    | defPrim result op args =>
      obtain ⟨m, hm, hrole, horigin⟩ := h.grown.result_node h.size hcmd
      by_cases hground : m.IsGround
      · rw [slots_ground hcmd hm hground] at hid
        obtain rfl := List.mem_singleton.1 hid
        exact ⟨m, op, args, hm, hrole, hground, by simp only [home, horigin]⟩
      · rw [slots_fields hcmd hm hground] at hid
        obtain ⟨n, k, hn, hfield, hrole, hground⟩ := h.fieldNode hid
        exact ⟨n, op, args, hn, hrole, hground, by simp only [home, hfield]⟩
    | _ => simp [slots, hcmd] at hid

theorem nodup_slots (h : b.Elaborated) (i : Nat) : (b.slots i).Nodup := by
  unfold slots
  split
  · split
    · exact Circuit.nodup_fieldNodes h.size _
    · exact List.nodup_singleton _
  · exact List.nodup_nil

/-- No node is a slot of two commands. -/
theorem slots_disjoint (h : b.Elaborated) {i j : Nat} {id : NodeId} (hi : id ∈ b.slots i)
    (hj : id ∈ b.slots j) : i = j := by
  obtain ⟨n, op, args, hn, -, -, hcmd⟩ := h.slot hi
  obtain ⟨n', op', args', hn', -, -, hcmd'⟩ := h.slot hj
  obtain rfl := Option.some.inj (hn.symm.trans hn')
  exact h.grown.defPrim_injective h.size hcmd hcmd'

theorem visits_eq (h : b.Elaborated) : b.block.visits = streamVisits 0 b.circuit.commands :=
  Block.visits_ofCommands h.block

theorem pairwise_visits (h : b.Elaborated) : b.block.visits.Pairwise (·.1 < ·.1) := by
  rw [h.visits_eq]
  exact pairwise_streamVisits _ _

/-- **Single assignment.**  A walk through the nesting writes no node twice. -/
theorem nodup_written (h : b.Elaborated) : (b.written b.block.visits).Nodup := by
  refine List.nodup_flatMap.2 ⟨fun v _ => h.nodup_slots v.1, ?_⟩
  refine h.pairwise_visits.imp fun {v v'} hlt id hv hv' => ?_
  exact absurd (h.slots_disjoint hv hv') (Nat.ne_of_lt hlt)

theorem role_of_mem_written (h : b.Elaborated) {visits : List Visit} {id : NodeId}
    (hid : id ∈ b.written visits) :
    ∃ n, b.circuit.node? id = some n ∧ n.role = .result ∧ n.IsGround := by
  obtain ⟨v, -, hv⟩ := List.mem_flatMap.1 hid
  obtain ⟨n, -, -, hn, hrole, hground, -⟩ := h.slot hv
  exact ⟨n, hn, hrole, hground⟩

/-- What a visit takes is a ground node, and has been made before if it is a result. -/
theorem reads_known (h : b.Elaborated) {v : Visit} (hv : v ∈ b.block.visits) {id : NodeId}
    (hid : id ∈ b.reads v) : ∃ n, b.circuit.node? id = some n ∧ n.IsGround ∧
      (n.role = .result → Draft.MadeBefore b.circuit.commands v.1 id n) := by
  rw [h.visits_eq, mem_streamVisits] at hv
  obtain ⟨k, cmd, hcmd, hv⟩ := hv
  rw [Nat.zero_add] at hv
  obtain ⟨i, pred⟩ := v
  obtain rfl : i = k := fst_of_mem_visit hv
  have hread : id ∈ cmd.reads := by
    cases pred with
    | none => simpa [reads, hcmd] using hid
    | some pred => cases cmd <;> simp_all [Command.visit, Command.reads, reads]
  exact h.grown.reads_known h.size hcmd id hread

theorem notMem_written_of_mem_reads (h : b.Elaborated) {v : Visit} (hv : v ∈ b.block.visits)
    {visits : List Visit} (hlater : ∀ u ∈ visits, v.1 ≤ u.1) :
    ∀ id ∈ b.reads v, id ∉ b.written visits := by
  intro id hid hmem
  obtain ⟨n, hn, -, hmade⟩ := h.reads_known hv hid
  obtain ⟨u, hu, hslot⟩ := List.mem_flatMap.1 hmem
  obtain ⟨m, op, args, hm, hrole, -, hdef⟩ := h.slot hslot
  obtain rfl := Option.some.inj (hn.symm.trans hm)
  obtain ⟨j, hj, op', args', hdef'⟩ := hmade hrole
  have hle := hlater u hu
  have heq := h.grown.defPrim_injective h.size hdef hdef'
  omega

/-- **Definition before use.**  No visit takes a value that is written by it or later. -/
theorem ordered_visits (h : b.Elaborated) : b.Ordered b.block.visits := by
  have hall : ∀ visits : List Visit, visits.Pairwise (·.1 < ·.1) →
      (∀ v ∈ visits, v ∈ b.block.visits) → b.Ordered visits := by
    intro visits
    induction visits with
    | nil => exact fun _ _ => trivial
    | cons v vs ih =>
      intro hsorted hsub
      obtain ⟨hlt, hsorted⟩ := List.pairwise_cons.1 hsorted
      have hle : ∀ u ∈ v :: vs, v.1 ≤ u.1 := by
        intro u hu
        rcases List.mem_cons.1 hu with rfl | hu
        · exact Nat.le_refl _
        · exact Nat.le_of_lt (hlt u hu)
      refine ⟨?_, ih hsorted fun u hu => hsub u (List.mem_cons_of_mem _ hu)⟩
      exact h.notMem_written_of_mem_reads (hsub v (List.mem_cons_self ..)) hle
  exact hall _ h.pairwise_visits fun _ hv => hv

/-- A node in another role is left alone. -/
theorem nodeValue?_exec (h : b.Elaborated) {active : Bool} {blk : Block} {p p' : Pass}
    (hexec : b.exec active blk p = .ok p') {id : NodeId} {n : Node}
    (hn : b.circuit.node? id = some n) (hrole : n.role ≠ .result) :
    nodeValue? p'.values id = nodeValue? p.values id := by
  refine (exec_sameExcept blk hexec).rest id fun hid => hrole ?_
  obtain ⟨m, hm, hresult, -⟩ := h.role_of_mem_written hid
  rwa [Option.some.inj (hn.symm.trans hm)]

/-! ## Positions -/

/-- Nothing is visited twice. -/
theorem nodup_positions (h : b.Elaborated) : (b.block.visits.map (·.1)).Nodup :=
  List.pairwise_map.2 (h.pairwise_visits.imp Nat.ne_of_lt)

/-- The commands that are visited as such are those that mark no region. -/
theorem mem_visits (h : b.Elaborated) {i : Nat} {cmd : Command}
    (hcmd : b.circuit.commands[i]? = some cmd) (hplain : cmd.isControl = false) :
    (i, none) ∈ b.block.visits := by
  rw [h.visits_eq, mem_streamVisits]
  refine ⟨i, cmd, hcmd, ?_⟩
  rw [visit_plain _ hplain, Nat.zero_add]
  exact List.mem_singleton_self _

theorem mem_positions_guarded (h : b.Elaborated) {i : Nat} {cmd : Command}
    (hcmd : b.circuit.commands[i]? = some cmd) (hplain : cmd.isControl = false) :
    i ∈ b.block.guarded.map (·.1) := by
  rw [Block.guarded, Block.map_guardedBelow]
  exact List.mem_map.2 ⟨(i, none), List.mem_filter.2 ⟨h.mem_visits hcmd hplain, rfl⟩, rfl⟩

theorem nodup_guarded (h : b.Elaborated) : (b.block.guarded.map (·.1)).Nodup := by
  rw [Block.guarded, Block.map_guardedBelow]
  exact (List.filter_sublist.map _).nodup h.nodup_positions

/-- What has guards is visited as a command. -/
theorem mem_visits_of_guarded {i : Nat} {path : List Guard} (h : (i, path) ∈ b.block.guarded) :
    (i, none) ∈ b.block.visits := by
  have hmem : i ∈ b.block.guarded.map (·.1) := List.mem_map.2 ⟨_, h, rfl⟩
  rw [Block.guarded, Block.map_guardedBelow] at hmem
  obtain ⟨⟨j, pred⟩, hj, rfl⟩ := List.mem_map.1 hmem
  obtain ⟨hv, hnone⟩ := List.mem_filter.1 hj
  rw [Option.isNone_iff_eq_none] at hnone
  dsimp only at hnone
  rwa [hnone] at hv

/-! ## Runs -/

/-- A run that has come to rest ends with a pass that changes nothing, and keeps whatever a pass
    keeps. -/
theorem settle_induction {Q : List Nat → Prop}
    (hpass : ∀ values p, Q values → b.exec true b.block ⟨values, [], []⟩ = .ok p → Q (b.drive p)) :
    ∀ (left : Nat) {values : List Nat} {e : Settled}, Q values → b.settle left values = .ok e →
      ∃ p, Q e.values ∧ b.exec true b.block ⟨e.values, [], []⟩ = .ok p ∧ b.drive p = e.values ∧
        e.circuit = b.circuit ∧ e.next = b.nextState p ∧ e.active = p.active.reverse
  | 0, values, e, _, h => by cases h
  | left + 1, values, e, hQ, h => by
    unfold settle at h
    obtain ⟨p, hp, hrest⟩ := bind_eq_ok.1 h
    dsimp only at hrest
    split at hrest
    · next hafter =>
      obtain rfl := Except.ok.inj hrest
      dsimp only
      rw [hafter]
      exact ⟨p, hQ, hp, hafter, rfl, rfl, rfl⟩
    · exact settle_induction hpass left (hpass values p hQ hp) hrest

/-- Registers and inputs hold what they have been given. -/
structure Holding (b : Bench) (values : List Nat) : Prop where
  length : values.length = b.circuit.nodes.length
  registers : ∀ id n, b.circuit.node? id = some n → n.role = .register →
    nodeValue? values id = some (b.stateOf id)
  inputs : ∀ id n, b.circuit.node? id = some n → n.role = .port .input →
    nodeValue? values id = some (b.inputOf id)

theorem lookup_eq_none {l : List (NodeId × Nat)} {role : Role}
    (hl : ∀ e ∈ l, ∃ n, b.circuit.node? e.1 = some n ∧ n.role = role) {id : NodeId} {n : Node}
    (hn : b.circuit.node? id = some n) (hrole : n.role ≠ role) : l.lookup id = none := by
  refine List.lookup_eq_none_iff.2 fun e he => bne_iff_ne.2 ?_
  rintro rfl
  obtain ⟨m, hm, hmrole⟩ := hl e he
  exact hrole (by rw [Option.some.inj (hn.symm.trans hm), hmrole])

theorem holding_initial (h : b.Elaborated) : Holding b b.initial := by
  refine ⟨length_initial, fun id n hn hrole => ?_, fun id n hn hrole => ?_⟩
  · rw [nodeValue?_initial hn, lookup_eq_none h.inputs hn (by rw [hrole]; decide), stateOf]
    cases b.state.lookup id <;> rfl
  · rw [nodeValue?_initial hn, lookup_eq_none h.state hn (by rw [hrole]; decide)]
    rfl

theorem holding_drive (h : b.Elaborated) {values : List Nat} {p : Pass} (hv : Holding b values)
    (hexec : b.exec true b.block ⟨values, [], []⟩ = .ok p) : Holding b (b.drive p) := by
  have hlen : p.values.length = b.circuit.nodes.length := by
    rw [(exec_sameExcept b.block hexec).length, hv.length]
  refine ⟨length_drive hlen, fun id n hn hrole => ?_, fun id n hn hrole => ?_⟩
  · rw [nodeValue?_drive hn hlen, h.nodeValue?_exec hexec hn (by rw [hrole]; decide), hrole]
    exact hv.registers id n hn hrole
  · rw [nodeValue?_drive hn hlen, h.nodeValue?_exec hexec hn (by rw [hrole]; decide), hrole]
    exact hv.inputs id n hn hrole

end Elaborated

/-! ## Giving values -/

/-- A value that is given to an input or a register of a name. -/
inductive Setting where
  | input (name : String) (n : Nat)
  | register (name : String) (n : Nat)

/-- Gives a value. -/
def set (b : Bench) : Setting → Except Fault Bench
  | .input name n => b.setInput name n
  | .register name n => b.setRegister name n

/-- The value that a setting gives to an input node. -/
def Setting.toInput? (c : Circuit) (id : NodeId) : Setting → Option Nat
  | .input name n =>
    if (c.inputs.find? (·.name = name)).map (·.node) = some id then some n else none
  | .register _ _ => none

/-- The value that a setting gives to a register node. -/
def Setting.toRegister? (c : Circuit) (id : NodeId) : Setting → Option Nat
  | .input _ _ => none
  | .register name n => if register? c name = some id then some n else none

/-- A bench for a circuit after some settings, the latest first. -/
inductive Prepared (c : Circuit) : List Setting → Bench → Prop
  | fresh {b : Bench} (h : Bench.of c = .ok b) : Prepared c [] b
  | set {gs : List Setting} {b b' : Bench} (before : Prepared c gs b) (g : Setting)
      (h : b.set g = .ok b') : Prepared c (g :: gs) b'

/-- What an input has been given last, or zero. -/
def givenInput (c : Circuit) (gs : List Setting) (id : NodeId) : Nat :=
  (gs.findSome? (Setting.toInput? c id)).getD 0

/-- What a register has been given last, or zero. -/
def givenRegister (c : Circuit) (gs : List Setting) (id : NodeId) : Nat :=
  (gs.findSome? (Setting.toRegister? c id)).getD 0

theorem setInput_eq_ok {b b' : Bench} {name : String} {n : Nat} (h : b.setInput name n = .ok b') :
    ∃ port w, b.circuit.inputs.find? (·.name = name) = some port ∧ b.width port.node = .ok w ∧
      b' = { b with inputs := (port.node, cut w n) :: b.inputs } := by
  unfold setInput at h
  split at h
  · cases h
  · next port hport =>
    obtain ⟨w, hw, hret⟩ := bind_eq_ok.1 h
    exact ⟨port, w, hport, hw, (Except.ok.inj hret).symm⟩

theorem setRegister_eq_ok {b b' : Bench} {name : String} {n : Nat}
    (h : b.setRegister name n = .ok b') :
    ∃ id w, register? b.circuit name = some id ∧ b.width id = .ok w ∧
      b' = { b with state := (id, cut w n) :: b.state } := by
  unfold setRegister at h
  split at h
  · cases h
  · next id hid =>
    obtain ⟨w, hw, hret⟩ := bind_eq_ok.1 h
    exact ⟨id, w, hid, hw, (Except.ok.inj hret).symm⟩

/-- A register that is found by its name. -/
theorem node_of_register? {c : Circuit} (hsize : c.nodes.length ≤ 2 ^ 32) {name : String}
    {id : NodeId} (h : register? c name = some id) :
    ∃ n, c.node? id = some n ∧ n.role = .register ∧ n.name = some name := by
  obtain ⟨⟨id', n⟩, hfind, rfl⟩ := Option.map_eq_some_iff.1 h
  have hfound := List.find?_some hfind
  obtain ⟨hrole, hname⟩ := of_decide_eq_true hfound
  exact ⟨n, (Circuit.mem_numbered hsize).1 (List.mem_of_find?_eq_some hfind), hrole, hname⟩

theorem of_eq_ok {c : Circuit} {b : Bench} (h : Bench.of c = .ok b) :
    Block.ofCommands c.commands = .ok b.block ∧ b.circuit = c ∧ b.inputs = [] ∧ b.state = [] := by
  unfold Bench.of at h
  split at h
  · cases h
  · next block hblock =>
    obtain ⟨-, -, hret⟩ := bind_eq_ok.1 h
    obtain rfl := Except.ok.inj hret
    exact ⟨hblock, rfl, rfl, rfl⟩

namespace Prepared

variable {c : Circuit} {gs : List Setting} {b : Bench}

theorem circuit_eq (h : Prepared c gs b) : b.circuit = c := by
  induction h with
  | fresh h => exact (of_eq_ok h).2.1
  | set before g h ih =>
    cases g with
    | input name n =>
      obtain ⟨port, w, -, -, rfl⟩ := setInput_eq_ok h
      exact ih
    | register name n =>
      obtain ⟨id, w, -, -, rfl⟩ := setRegister_eq_ok h
      exact ih

theorem block_eq (h : Prepared c gs b) : Block.ofCommands c.commands = .ok b.block := by
  induction h with
  | fresh h => exact (of_eq_ok h).1
  | set before g h ih =>
    cases g with
    | input name n =>
      obtain ⟨port, w, -, -, rfl⟩ := setInput_eq_ok h
      exact ih
    | register name n =>
      obtain ⟨id, w, -, -, rfl⟩ := setRegister_eq_ok h
      exact ih

/-- A bench for a grown circuit. -/
theorem elaborated (h : Prepared c gs b) (hgrown : Grown c.nodes c.ports c.commands)
    (hsize : c.nodes.length ≤ 2 ^ 32) : b.Elaborated := by
  have hstate : (∀ e ∈ b.state, ∃ n, c.node? e.1 = some n ∧ n.role = .register) ∧
      ∀ e ∈ b.inputs, ∃ n, c.node? e.1 = some n ∧ n.role = .port .input := by
    induction h with
    | fresh h =>
      obtain ⟨-, -, hinputs, hstate⟩ := of_eq_ok h
      rw [hinputs, hstate]
      exact ⟨nofun, nofun⟩
    | set before g h ih =>
      obtain ⟨ihs, ihi⟩ := ih
      cases g with
      | input name n =>
        obtain ⟨port, w, hport, -, rfl⟩ := setInput_eq_ok h
        refine ⟨ihs, fun e he => ?_⟩
        rcases List.mem_cons.1 he with rfl | he
        · rw [before.circuit_eq] at hport
          obtain ⟨hmem, hdir⟩ := List.mem_filter.1 (List.mem_of_find?_eq_some hport)
          obtain ⟨m, hm, hrole, -⟩ := hgrown.port_node hsize port hmem
          exact ⟨m, hm, by rw [hrole, of_decide_eq_true hdir]⟩
        · exact ihi e he
      | register name n =>
        obtain ⟨id, w, hid, -, rfl⟩ := setRegister_eq_ok h
        refine ⟨fun e he => ?_, ihi⟩
        rcases List.mem_cons.1 he with rfl | he
        · rw [before.circuit_eq] at hid
          obtain ⟨m, hm, hrole, -⟩ := node_of_register? hsize hid
          exact ⟨m, hm, hrole⟩
        · exact ihs e he
  have hc := h.circuit_eq
  have hb := h.block_eq
  subst hc
  exact ⟨hgrown, hsize, hb, hstate.1, hstate.2⟩

/-- An input holds what it has been given last, cut to its width. -/
theorem inputOf_eq (h : Prepared c gs b) {id : NodeId} {w : Nat} (hw : b.width id = .ok w) :
    b.inputOf id = cut w (givenInput c gs id) := by
  have hzero : cut w 0 = 0 := by simp [cut]
  induction h with
  | fresh h =>
    obtain ⟨-, -, hinputs, -⟩ := of_eq_ok h
    rw [inputOf, hinputs]
    exact hzero.symm
  | set before g h ih =>
    cases g with
    | input name n =>
      obtain ⟨port, w', hport, hw', rfl⟩ := setInput_eq_ok h
      rw [before.circuit_eq] at hport
      by_cases hid : id = port.node
      · subst hid
        obtain rfl := Except.ok.inj (hw.symm.trans hw')
        simp [inputOf, givenInput, Setting.toInput?, hport]
      · have hne : some port.node ≠ some id := fun he => hid (Option.some.inj he).symm
        have hrest := ih hw
        simp only [inputOf, List.lookup_cons, beq_false_of_ne hid, givenInput, List.findSome?_cons,
          Setting.toInput?, hport, Option.map_some, if_neg hne] at hrest ⊢
        exact hrest
    | register name n =>
      obtain ⟨id', w', -, -, rfl⟩ := setRegister_eq_ok h
      exact ih hw

/-- A register holds what it has been given last, cut to its width. -/
theorem stateOf_eq (h : Prepared c gs b) {id : NodeId} {w : Nat} (hw : b.width id = .ok w) :
    b.stateOf id = cut w (givenRegister c gs id) := by
  have hzero : cut w 0 = 0 := by simp [cut]
  induction h with
  | fresh h =>
    obtain ⟨-, -, -, hstate⟩ := of_eq_ok h
    rw [stateOf, hstate]
    exact hzero.symm
  | set before g h ih =>
    cases g with
    | input name n =>
      obtain ⟨port, w', -, -, rfl⟩ := setInput_eq_ok h
      exact ih hw
    | register name n =>
      obtain ⟨id', w', hid', hw', rfl⟩ := setRegister_eq_ok h
      rw [before.circuit_eq] at hid'
      by_cases hid : id = id'
      · subst hid
        obtain rfl := Except.ok.inj (hw.symm.trans hw')
        simp [stateOf, givenRegister, Setting.toRegister?, hid']
      · have hne : some id' ≠ some id := fun he => hid (Option.some.inj he).symm
        have hrest := ih hw
        simp only [stateOf, List.lookup_cons, beq_false_of_ne hid, givenRegister,
          List.findSome?_cons, Setting.toRegister?, hid', if_neg hne] at hrest ⊢
        exact hrest

end Prepared

end Bench

end Circuitry
