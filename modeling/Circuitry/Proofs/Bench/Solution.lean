/-
  A run that has come to rest solves the equations of its circuit.

  What a pass reads are the values that it ends with (`exec_walked`), except that it then gives new
  values to wires and outputs.  The last pass of a run gives them the values that they had, so it has
  read the values of the run throughout: operators hold, and the drivers are those of the connections
  whose guards hold.  Registers and inputs have been left alone all along.

  1. `lookup_drivers` finds the last connection among the drivers of a pass, and `drivers_eq` says what
     they drive;
  2. `Elaborated.solution` is the argument above, for any bench of an elaborated circuit;
  3. `settled_solution` says it for a description, its circuit, the values given, and the run.
-/
import Circuitry.Proofs.Bench.Elaborated
import Circuitry.Proofs.Script.Described

namespace Circuitry.Bench

variable {b : Bench}

/-! ## Drivers -/

/-- The last connection to a node is the first that is found among the drivers. -/
theorem lookup_filterMap {V : List Nat} (target : NodeId) : ∀ {is : List Nat},
    (∀ i ∈ is, b.Drivable V i) → (is.filterMap (b.driverAt V)).lookup target =
      (is.filterMap (b.sourceTo? target)).head?.bind (b.drive? V target)
  | [], _ => rfl
  | i :: is, h => by
    have ih := lookup_filterMap target fun j hj => h j (List.mem_cons_of_mem _ hj)
    rw [List.filterMap_cons, List.filterMap_cons]
    cases hcmd : b.circuit.commands[i]? with
    | none => simpa [driverAt, sourceTo?, hcmd] using ih
    | some cmd =>
      cases cmd with
      | connect t source =>
        obtain ⟨n, hn⟩ := h i (List.mem_cons_self ..) t source hcmd
        by_cases ht : target = t
        · subst ht
          simp [driverAt, sourceTo?, hcmd, hn]
        · have ht' : t ≠ target := fun he => ht he.symm
          simp only [driverAt, sourceTo?, hcmd, hn, Option.map_some, List.lookup_cons,
            beq_false_of_ne ht, if_neg ht']
          exact ih
      | _ => simpa [driverAt, sourceTo?, hcmd] using ih

theorem lookup_drivers {V : List Nat} (target : NodeId) {is : List Nat}
    (h : ∀ i ∈ is, b.Drivable V i) : ((is.filterMap (b.driverAt V)).reverse).lookup target =
      (is.filterMap (b.sourceTo? target)).getLast?.bind (b.drive? V target) := by
  rw [← List.filterMap_reverse, lookup_filterMap target fun i hi => h i (List.mem_reverse.1 hi),
    List.filterMap_reverse, List.head?_reverse]

/-- The connections that count, read off the nesting. -/
theorem sourcesTo_eq (values : List Nat) (target : NodeId) : b.sourcesTo values target =
    (b.block.active (b.holds values)).filterMap (b.sourceTo? target) := by
  rw [Block.active_eq_filter, List.filterMap_map]
  rfl

/-- What a node is driven to, with its drivers. -/
theorem getD_lookup_drivers {V : List Nat} (target : NodeId) (rest : Nat)
    (h : ∀ i ∈ b.block.active (b.holds V), b.Drivable V i) :
    some (((((b.block.active (b.holds V)).filterMap (b.driverAt V)).reverse).lookup target).getD
      rest) = b.driven? V target rest := by
  rw [lookup_drivers target h, driven?, sourcesTo_eq]
  cases hlast : ((b.block.active (b.holds V)).filterMap (b.sourceTo? target)).getLast? with
  | none => rfl
  | some source =>
    -- the last source belongs to a connection that has something to drive
    obtain ⟨i, hi, hsource⟩ := List.mem_filterMap.1 (List.mem_of_getLast? hlast)
    obtain ⟨n, hn⟩ := h i hi target source (sourceTo?_eq_some.1 hsource)
    simp [hn]

/-! ## Runs -/

/-- What a run has found solves the equations, and tells what registers hold next and which commands
    were active. -/
structure Solution (b : Bench) (e : Settled) : Prop where
  solves : b.Solves e.values
  next : ∀ id n, b.circuit.node? id = some n → n.role = .register →
    ∃ s, e.next.lookup id = some s ∧ b.driven? e.values id (b.stateOf id) = some s
  active : ∀ (i : Nat) cmd, b.circuit.commands[i]? = some cmd → cmd.isControl = false →
    ∃ path, (i, path) ∈ b.block.guarded ∧ (∀ path', (i, path') ∈ b.block.guarded → path' = path) ∧
      (e.isActive i = true ↔ Block.allMet (b.holds e.values) path = true)

namespace Elaborated

/-- What a whole pass comes to: what it has read are the values that it ends with. -/
theorem walked (h : b.Elaborated) {values : List Nat} {p : Pass}
    (hlen : values.length = b.circuit.nodes.length)
    (hexec : b.exec true b.block ⟨values, [], []⟩ = .ok p) :
    b.Walked p.values (b.block.active (b.holds p.values)) b.block.visits ⟨values, [], []⟩ p := by
  have hframe := exec_sameExcept b.block hexec
  have hordered : b.Ordered (b.block.visits ++ []) := by
    rw [List.append_nil]
    exact h.ordered_visits
  have hnodup : (b.written (b.block.visits ++ [])).Nodup := by
    rw [List.append_nil]
    exact h.nodup_written
  exact exec_walked (hframe.length.trans hlen) b.block hexec hordered hnodup (.refl _ _)

theorem operatorsHold (h : b.Elaborated) {values : List Nat} {p : Pass}
    (hlen : values.length = b.circuit.nodes.length)
    (hexec : b.exec true b.block ⟨values, [], []⟩ = .ok p) : b.OperatorsHold p.values :=
  fun i result op args hcmd =>
    (h.walked hlen hexec).operators i (h.mem_visits hcmd rfl) result op args hcmd

/-- The drivers of a pass are the connections whose guards hold in the values that it ends with. -/
theorem drivers_eq (h : b.Elaborated) {values : List Nat} {p : Pass}
    (hlen : values.length = b.circuit.nodes.length)
    (hexec : b.exec true b.block ⟨values, [], []⟩ = .ok p) (target : NodeId) (rest : Nat) :
    some ((p.drivers.lookup target).getD rest) = b.driven? p.values target rest := by
  have hwalked := h.walked hlen hexec
  rw [hwalked.drivers, List.append_nil]
  exact getD_lookup_drivers target rest hwalked.drivable

/-- The last pass of a run ends with the values that it began with. -/
theorem exists_lastPass (h : b.Elaborated) {e : Settled} (hrun : b.run = .ok e) :
    ∃ p, Holding b e.values ∧ b.exec true b.block ⟨e.values, [], []⟩ = .ok p ∧
      p.values = e.values ∧ b.drive p = e.values ∧ e.next = b.nextState p ∧
      e.active = p.active.reverse := by
  obtain ⟨p, hholding, hexec, hdrive, -, hnext, hactive⟩ :=
    settle_induction (fun _ _ => h.holding_drive) _ h.holding_initial hrun
  refine ⟨p, hholding, hexec, ?_, hdrive, hnext, hactive⟩
  have hframe := exec_sameExcept b.block hexec
  refine hframe.eq (fun id hid => ?_) (by rw [hholding.length]; exact h.size)
  -- what has been written are results, which the end of the pass leaves as they are
  obtain ⟨n, hn, hrole, -⟩ := h.role_of_mem_written hid
  have hval := nodeValue?_drive hn (hframe.length.trans hholding.length)
  rw [hdrive, hrole] at hval
  exact hval.symm

/-- **A settled run is a solution.** -/
theorem solution (h : b.Elaborated) {e : Settled} (hrun : b.run = .ok e) : b.Solution e := by
  obtain ⟨p, hholding, hexec, hvalues, hdrive, hnext, hactive⟩ := h.exists_lastPass hrun
  have hrest := h.walked hholding.length hexec
  have hoperators := h.operatorsHold hholding.length hexec
  have hdrivers := h.drivers_eq hholding.length hexec
  have hlen : p.values.length = b.circuit.nodes.length := by rw [hvalues, hholding.length]
  rw [hvalues] at hrest hoperators hdrivers
  refine ⟨⟨hholding.length, hoperators, ?_, hholding.registers, hholding.inputs⟩, ?_, ?_⟩
  · intro id n hn hdriven
    rw [← hdrivers]
    have hval := nodeValue?_drive hn hlen
    rwa [hdrive, hdriven, if_pos rfl] at hval
  · intro id n hn hrole
    refine ⟨_, ?_, (hdrivers id _).symm⟩
    rw [hnext, lookup_nextState h.size hn hrole]
  · intro i cmd hcmd hplain
    obtain ⟨⟨j, path⟩, hpath, rfl⟩ := List.mem_map.1 (h.mem_positions_guarded hcmd hplain)
    have hunique : ∀ path', (j, path') ∈ b.block.guarded → path' = path := by
      intro path' hpath'
      exact (Prod.mk.inj (List.inj_on_of_nodup_map h.nodup_guarded hpath' hpath rfl)).2
    refine ⟨path, hpath, hunique, ?_⟩
    -- no clause begins at the position of a command
    have hbegin : ∀ pred, (j, some pred) ∉ b.block.visits := by
      intro pred hpred
      have heq := List.inj_on_of_nodup_map h.nodup_positions hpred (mem_visits_of_guarded hpath) rfl
      cases (Prod.mk.inj heq).2
    have hmem := hrest.active j hbegin
    rw [Settled.isActive, hactive, List.contains_iff_mem, List.mem_reverse, hmem,
      Block.active_eq_filter]
    constructor
    · rintro (hj | hj)
      · obtain ⟨⟨j', path'⟩, hfilter, rfl⟩ := List.mem_map.1 hj
        obtain ⟨hpath', hmet⟩ := List.mem_filter.1 hfilter
        rwa [← hunique path' hpath']
      · cases hj
    · intro hmet
      exact .inl (List.mem_map.2 ⟨(j, path), List.mem_filter.2 ⟨hpath, hmet⟩, rfl⟩)

end Elaborated

/-! ## Values given -/

theorem forM_eq_ok {α : Type} {f : α → Except Fault Unit} : ∀ {l : List α},
    l.forM f = .ok () → ∀ x ∈ l, f x = .ok ()
  | [], _, x, hx => by cases hx
  | y :: l, h, x, hx => by
    obtain ⟨⟨⟩, hy, hl⟩ := bind_eq_ok.1 h
    rcases List.mem_cons.1 hx with rfl | hx
    · exact hy
    · exact forM_eq_ok hl x hx

/-- A bench is there only for a circuit whose nodes have all been checked. -/
theorem checkNode_of {c : Circuit} (h : Bench.of c = .ok b) :
    ∀ e ∈ c.numbered, checkNode e.1 e.2 = .ok () := by
  unfold Bench.of at h
  split at h
  · cases h
  · obtain ⟨⟨⟩, hcheck, -⟩ := bind_eq_ok.1 h
    exact forM_eq_ok hcheck

/-- A bench has a width for every ground node, and values fit it. -/
theorem Prepared.exists_width {c : Circuit} {gs : List Setting} (h : Prepared c gs b)
    {id : NodeId} {n : Node} (hn : c.node? id = some n) (hground : n.IsGround) :
    ∃ w, b.width id = .ok w ∧ w ≤ Value.maxWidth := by
  have hcheck : checkNode id n = .ok () := by
    have hmem := Circuit.mem_numbered_of_node? hn
    clear hn hground
    induction h with
    | fresh h => exact checkNode_of h _ hmem
    | set _ _ _ ih => exact ih
  rw [width, h.circuit_eq, hn]
  cases hty : n.ty with
  | aggregate fields => simp [Node.IsGround, hty] at hground
  | element kind w =>
    cases w with
    | unknown => simp [checkNode, hty] at hcheck
    | known w =>
      have hle : w.toNat ≤ Value.maxWidth := by
        by_contra hwide
        simp [checkNode, hty, hwide] at hcheck
      exact ⟨w.toNat, by simp [hty, Ty.width?], hle⟩

/-- Every input and every register reads what it has been given last, cut to its width. -/
structure Given (c : Circuit) (gs : List Setting) (b : Bench) (values : List Nat) : Prop where
  inputs : ∀ p ∈ c.inputs, ∃ w, b.width p.node = .ok w ∧
    nodeValue? values p.node = some (cut w (givenInput c gs p.node))
  registers : ∀ id n, c.node? id = some n → n.role = .register → ∃ w, b.width id = .ok w ∧
    nodeValue? values id = some (cut w (givenRegister c gs id)) ∧
    b.stateOf id = cut w (givenRegister c gs id)

theorem Prepared.given {c : Circuit} {gs : List Setting} (h : Prepared c gs b)
    (hb : b.Elaborated) {values : List Nat} (hv : b.Solves values) : Given c gs b values := by
  obtain rfl := h.circuit_eq
  refine ⟨fun p hp => ?_, fun id n hn hrole => ?_⟩
  · obtain ⟨hmem, hdir⟩ := List.mem_filter.1 hp
    obtain ⟨n, hn, hrole, hground⟩ := hb.grown.port_node hb.size p hmem
    obtain ⟨w, hw, -⟩ := h.exists_width hn hground
    refine ⟨w, hw, ?_⟩
    rw [← h.inputOf_eq hw]
    exact hv.inputs p.node n hn (by rw [hrole, of_decide_eq_true hdir])
  · have hground := hb.grown.ground_of_role hb.size hn (by rw [hrole]; decide)
    obtain ⟨w, hw, -⟩ := h.exists_width hn hground
    have hstate := h.stateOf_eq hw
    refine ⟨w, hw, ?_, hstate⟩
    rw [← hstate]
    exact hv.registers id n hn hrole

/-! ## Descriptions -/

/-- A bench for the circuit that a description has returned. -/
theorem Prepared.elaborated_of_describe? {s : Script} {m m' : Script.Memory} {name : String}
    {settings : Settings.Elaboration} {o : Script.Outcome} {c : Circuit} {gs : List Setting}
    (hb : Prepared c gs b) (hm : m.Reached)
    (hdescribe : s.describe? m name settings = some (o, m')) (hc : o.result = .ok c)
    (hsize : c.nodes.length ≤ 2 ^ 32) : b.Elaborated :=
  hb.elaborated (Script.grown_of_describe? hm hdescribe hc hsize).1 hsize

/-- **Settled runs solve their circuits.**  Whatever a description has returned and whatever its inputs
    and registers have been given, the values at which a run settles satisfy the equations of the
    circuit, with inputs and registers as given; registers hold next what the last active connection
    drives; and a command was active exactly if its guards hold in these very values. -/
theorem settled_solution {s : Script} {m m' : Script.Memory} {name : String}
    {settings : Settings.Elaboration} {o : Script.Outcome} {c : Circuit} {gs : List Setting}
    {e : Settled} (hm : m.Reached) (hdescribe : s.describe? m name settings = some (o, m'))
    (hc : o.result = .ok c) (hsize : c.nodes.length ≤ 2 ^ 32) (hb : Prepared c gs b)
    (hrun : b.run = .ok e) : b.Solution e ∧ Given c gs b e.values := by
  have helaborated := hb.elaborated_of_describe? hm hdescribe hc hsize
  have hsolution := helaborated.solution hrun
  exact ⟨hsolution, hb.given helaborated hsolution.solves⟩

/-! ## A guarded register -/

/-- A bench for a circuit after some settings, the latest first. -/
def prepare (c : Circuit) : List Setting → Except Fault Bench
  | [] => Bench.of c
  | g :: gs => do (← prepare c gs).set g

theorem prepared_of_prepare {c : Circuit} : ∀ {gs : List Setting} {b : Bench},
    prepare c gs = .ok b → Prepared c gs b
  | [], _, h => .fresh h
  | g :: gs, b, h => by
    obtain ⟨b', hb', hset⟩ := bind_eq_ok.1 h
    exact .set (prepared_of_prepare hb') g hset

/-- Describes a circuit on its own, and runs it after some settings. -/
def tryWith? (settings : Settings.Elaboration) (s : Script) (gs : List Setting) :
    Option (Bench × Settled) := do
  let (o, _) ← s.describe? .empty "t" settings
  let c ← o.result.toOption
  let b ← (prepare c gs).toOption
  let e ← b.run.toOption
  return (b, e)

/-- The same under default settings. -/
def tryOut? (s : Script) (gs : List Setting) : Option (Bench × Settled) := tryWith? .default s gs

theorem eq_ok_of_toOption {ε α : Type} {x : Except ε α} {a : α} (h : x.toOption = some a) :
    x = .ok a := by
  cases x with
  | error e => cases h
  | ok b => exact congrArg _ (Option.some.inj h)

theorem tryWith?_eq_some {settings : Settings.Elaboration} {s : Script} {gs : List Setting}
    {b : Bench} {e : Settled} (h : tryWith? settings s gs = some (b, e)) :
    ∃ o m', s.describe? .empty "t" settings = some (o, m') ∧ o.result = .ok b.circuit ∧
      Prepared b.circuit gs b ∧ b.run = .ok e := by
  obtain ⟨⟨o, m'⟩, hdescribe, h⟩ := Option.bind_eq_some_iff.1 h
  obtain ⟨c, hc, h⟩ := Option.bind_eq_some_iff.1 h
  obtain ⟨b', hb, h⟩ := Option.bind_eq_some_iff.1 h
  obtain ⟨e', hrun, h⟩ := Option.bind_eq_some_iff.1 h
  obtain ⟨rfl, rfl⟩ := Prod.mk.inj (Option.some.inj h)
  have hprepared := prepared_of_prepare (eq_ok_of_toOption hb)
  rw [hprepared.circuit_eq]
  exact ⟨o, m', hdescribe, eq_ok_of_toOption hc, hprepared, eq_ok_of_toOption hrun⟩

theorem tryOut?_eq_some {s : Script} {gs : List Setting} {b : Bench} {e : Settled}
    (h : tryOut? s gs = some (b, e)) : ∃ o m', s.describe? .empty "t" .default = some (o, m') ∧
      o.result = .ok b.circuit ∧ Prepared b.circuit gs b ∧ b.run = .ok e :=
  tryWith?_eq_some h

/-- A register that takes the input next, while the input differs from what it holds. -/
def follower : Script :=
  let declared (role : Draft.Declared) (name : String) (rest : Script) : Script :=
    .call ⟨"", false, some name⟩ (.declare role name (.leaf (.template .uint (.known 4)))) rest
  declared (.port .input) "a" <| declared .register "r" <| declared (.port .output) "y" <|
    .call ⟨"", false, some "ne"⟩ (.binary .neq "a" "r") <|
    .chain ⟨"", false, none⟩ .done "ne" (.call ⟨"", false, none⟩ (.connect "r" "a") .done)
      (.otherwise (.call ⟨"", false, none⟩ (.connect "y" "r") .done)) .done

/-- What the follower settles at when it holds 3 and is shown 21, which is 5 in four bits. -/
theorem follower_settles : ∃ b e, Prepared b.circuit [.input "a" 21, .register "r" 3] b ∧
    b.run = .ok e ∧ e.values = [5, 3, 0, 1] ∧ e.next = [(⟨1⟩, 5)] ∧ b.Solution e ∧
      Given b.circuit [.input "a" 21, .register "r" 3] b e.values := by
  have htry : (tryOut? follower [.input "a" 21, .register "r" 3]).map
      (fun (b, e) => (b.circuit.nodes.length, e.values, e.next)) =
        some (4, [5, 3, 0, 1], [(⟨1⟩, 5)]) := by
    decide +kernel
  obtain ⟨⟨b, e⟩, hbe, heq⟩ := Option.map_eq_some_iff.1 htry
  obtain ⟨hlength, hrest⟩ := Prod.mk.inj heq
  obtain ⟨hvalues, hnext⟩ := Prod.mk.inj hrest
  obtain ⟨o, m', hdescribe, hc, hb, hrun⟩ := tryOut?_eq_some hbe
  have hsize : b.circuit.nodes.length ≤ 2 ^ 32 := by omega
  obtain ⟨hsolution, hgiven⟩ :=
    settled_solution Script.Memory.Reached.empty hdescribe hc hsize hb hrun
  exact ⟨b, e, hb, hrun, hvalues, hnext, hsolution, hgiven⟩

end Circuitry.Bench
