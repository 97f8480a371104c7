/-
  Circuits without loops settle.

  The height of a node is the number of wires and outputs that it depends on, directly or not.  Each
  pass gets the driven nodes of one more height right for good: a driven node takes its value from
  nodes whose wires and outputs are all of smaller height, and a pass computes everything else afresh,
  in order.  Wires may well be read before they are driven, and guards may change from pass to pass;
  this only costs passes.

  1. `Bench.height` and its strict decrease along dependencies;
  2. `agree_exec` and `agree_drive`: if the driven nodes below height `k` have the same values before
     two passes, then those below `k + 1` have the same values after them;
  3. `settle_within` counts the passes that are left, and `acyclic_settles` puts this together with
     the uniqueness of the solution.
-/
import Mathlib.Data.Finset.Card
import Mathlib.Data.Finset.Dedup
import Circuitry.Proofs.Bench.Dependency
import Circuitry.Proofs.Bench.Faults

namespace Circuitry.Bench

open Relation (TransGen ReflTransGen)

variable {b : Bench}

/-! ## Heights -/

/-- The wires and outputs of a circuit. -/
def drivenNodes (b : Bench) : List NodeId :=
  (b.circuit.numbered.filter fun e => isDriven e.2.role).map (·.1)

theorem mem_drivenNodes (h : b.Elaborated) {id : NodeId} : id ∈ b.drivenNodes ↔
    ∃ n, b.circuit.node? id = some n ∧ isDriven n.role = true := by
  rw [drivenNodes, List.mem_map]
  constructor
  · rintro ⟨⟨id', n⟩, hmem, rfl⟩
    obtain ⟨hmem, hdriven⟩ := List.mem_filter.1 hmem
    exact ⟨n, (Circuit.mem_numbered h.size).1 hmem, hdriven⟩
  · rintro ⟨n, hn, hdriven⟩
    exact ⟨(id, n), List.mem_filter.2 ⟨(Circuit.mem_numbered h.size).2 hn, hdriven⟩, rfl⟩

/-- How many wires and outputs there are. -/
def drivenCount (b : Bench) : Nat := (b.circuit.nodes.filter fun n => isDriven n.role).length

theorem length_drivenNodes (b : Bench) : b.drivenNodes.length = b.drivenCount := by
  have hnodes : b.circuit.numbered.map (·.2) = b.circuit.nodes := by
    refine List.ext_getElem? fun i => ?_
    rw [List.getElem?_map, Circuit.getElem?_numbered, Option.map_map]
    cases b.circuit.nodes[i]? <;> rfl
  rw [drivenNodes, List.length_map, drivenCount, ← hnodes, List.filter_map, List.length_map]
  rfl

open scoped Classical in
/-- The wires and outputs that a node depends on. -/
noncomputable def drivenBelow (b : Bench) (id : NodeId) : Finset NodeId :=
  b.drivenNodes.toFinset.filter fun v => TransGen b.Dependency id v

theorem mem_drivenBelow {id v : NodeId} :
    v ∈ b.drivenBelow id ↔ v ∈ b.drivenNodes ∧ TransGen b.Dependency id v := by
  classical
  rw [drivenBelow, Finset.mem_filter, List.mem_toFinset]

/-- How many wires and outputs a node depends on. -/
noncomputable def height (b : Bench) (id : NodeId) : Nat := (b.drivenBelow id).card

theorem height_lt (hacyclic : b.Acyclic) {id v : NodeId} (hv : v ∈ b.drivenNodes)
    (hdep : TransGen b.Dependency id v) : b.height v < b.height id := by
  have hsub : b.drivenBelow v ⊆ b.drivenBelow id := by
    intro u hu
    obtain ⟨hmem, hbelow⟩ := mem_drivenBelow.1 hu
    exact mem_drivenBelow.2 ⟨hmem, hdep.trans hbelow⟩
  -- the node itself makes the difference
  refine Finset.card_lt_card ((Finset.ssubset_iff_of_subset hsub).2 ⟨v, ?_, fun hmem => ?_⟩)
  · exact mem_drivenBelow.2 ⟨hv, hdep⟩
  · exact hacyclic v (mem_drivenBelow.1 hmem).2

theorem height_lt_count (hacyclic : b.Acyclic) {v : NodeId} (hv : v ∈ b.drivenNodes) :
    b.height v < b.drivenCount := by
  have hsub : b.drivenBelow v ⊆ b.drivenNodes.toFinset := by
    intro u hu
    exact List.mem_toFinset.2 (mem_drivenBelow.1 hu).1
  have hlt : b.height v < b.drivenNodes.toFinset.card := by
    refine Finset.card_lt_card ((Finset.ssubset_iff_of_subset hsub).2 ⟨v, ?_, fun hmem => ?_⟩)
    · exact List.mem_toFinset.2 hv
    · exact hacyclic v (mem_drivenBelow.1 hmem).2
  have hle := List.toFinset_card_le b.drivenNodes
  rw [length_drivenNodes] at hle
  omega

/-- All wires and outputs that have a say in the value of a node are below a height. -/
def Below (b : Bench) (k : Nat) (id : NodeId) : Prop :=
  ∀ v ∈ b.drivenNodes, ReflTransGen b.Dependency id v → b.height v < k

theorem Below.source {k : Nat} {id source : NodeId} (h : b.Below k id)
    (hdep : b.Dependency id source) : b.Below k source :=
  fun v hv hbelow => h v hv (.head hdep hbelow)

/-! ## One more height in each pass -/

/-- Driven nodes below a height have the same values. -/
def AgreeBelow (b : Bench) (k : Nat) (V V' : List Nat) : Prop :=
  ∀ v ∈ b.drivenNodes, b.height v < k → nodeValue? V v = nodeValue? V' v

section Passes

variable {V V' : List Nat} {p p' : Pass} {k : Nat}

/-- What depends on driven nodes below the height only comes out the same. -/
theorem agree_exec (hacyclic : b.Acyclic) (h : b.Elaborated) (hV : Elaborated.Holding b V)
    (hV' : Elaborated.Holding b V') (hexec : b.exec true b.block ⟨V, [], []⟩ = .ok p)
    (hexec' : b.exec true b.block ⟨V', [], []⟩ = .ok p') (hagree : b.AgreeBelow k V V')
    (id : NodeId) : b.Below k id → b.AgreeAt p.values p'.values id := by
  induction id using hacyclic.wellFounded.induction with
  | _ id ih =>
    intro hbelow n hn hground
    have hdep : ∀ source, b.Dependency id source → b.AgreeAt p.values p'.values source :=
      fun source hsource => ih source hsource (hbelow.source hsource)
    have hframe := fun hrole => h.nodeValue?_exec hexec hn hrole
    have hframe' := fun hrole => h.nodeValue?_exec hexec' hn hrole
    obtain hrole | hrole | hrole | hrole := h.role_cases hn
    · exact h.result_congr (h.operatorsHold hV.length hexec) (h.operatorsHold hV'.length hexec') hn
        hground hrole hdep
    · have hne : n.role ≠ .result := fun he => by simp [he, isDriven] at hrole
      have hmem : id ∈ b.drivenNodes := (mem_drivenNodes h).2 ⟨n, hn, hrole⟩
      rw [hframe hne, hframe' hne]
      exact hagree id hmem (hbelow id hmem .refl)
    · have hne : n.role ≠ .result := fun he => by simp [he] at hrole
      rw [hframe hne, hframe' hne, hV.registers id n hn hrole, hV'.registers id n hn hrole]
    · have hne : n.role ≠ .result := fun he => by simp [he] at hrole
      rw [hframe hne, hframe' hne, hV.inputs id n hn hrole, hV'.inputs id n hn hrole]

/-- **One more height.**  Driven nodes at the height are driven to the same values. -/
theorem agree_drive (hacyclic : b.Acyclic) (h : b.Elaborated) (hV : Elaborated.Holding b V)
    (hV' : Elaborated.Holding b V') (hexec : b.exec true b.block ⟨V, [], []⟩ = .ok p)
    (hexec' : b.exec true b.block ⟨V', [], []⟩ = .ok p') (hagree : b.AgreeBelow k V V') :
    b.AgreeBelow (k + 1) (b.drive p) (b.drive p') := by
  intro id hid hheight
  obtain ⟨n, hn, hdriven⟩ := (mem_drivenNodes h).1 hid
  have hdep : ∀ source, b.Dependency id source → b.AgreeAt p.values p'.values source := by
    intro source hsource
    refine agree_exec hacyclic h hV hV' hexec hexec' hagree source fun v hv hbelow => ?_
    have hlt := height_lt hacyclic hv (TransGen.head' hsource hbelow)
    omega
  have hlen := (exec_sameExcept b.block hexec).length.trans hV.length
  have hlen' := (exec_sameExcept b.block hexec').length.trans hV'.length
  rw [nodeValue?_drive hn hlen, nodeValue?_drive hn hlen', if_pos hdriven, if_pos hdriven,
    h.drivers_eq hV.length hexec, h.drivers_eq hV'.length hexec', h.driven?_congr hn hdriven hdep]

/-- Once a pass has left all driven nodes as they were, the next one changes nothing. -/
theorem drive_eq_of_agree (hacyclic : b.Acyclic) (h : b.Elaborated) (hV : Elaborated.Holding b V)
    (hexec : b.exec true b.block ⟨V, [], []⟩ = .ok p)
    (hexec' : b.exec true b.block ⟨b.drive p, [], []⟩ = .ok p')
    (hagree : b.AgreeBelow b.drivenCount V (b.drive p)) : b.drive p' = b.drive p := by
  have hV' := h.holding_drive hV hexec
  have hframe' := exec_sameExcept b.block hexec'
  have hlen := (exec_sameExcept b.block hexec).length.trans hV.length
  have hlen' := hframe'.length.trans hV'.length
  refine values_ext h.size (length_drive hlen') (length_drive hlen) fun id n hn => ?_
  by_cases hdriven : isDriven n.role = true
  · have hmem : id ∈ b.drivenNodes := (mem_drivenNodes h).2 ⟨n, hn, hdriven⟩
    have hheight := height_lt_count hacyclic hmem
    exact (agree_drive hacyclic h hV hV' hexec hexec' hagree id hmem (by omega)).symm
  · have hvalue := nodeValue?_drive hn hlen
    have hvalue' := nodeValue?_drive hn hlen'
    rw [if_neg hdriven] at hvalue hvalue'
    rw [hvalue']
    by_cases hwritten : id ∈ b.written b.block.visits
    · -- a result, which this pass has computed from the same values as the last one
      obtain ⟨m, hm, -, hground⟩ := h.role_of_mem_written hwritten
      have hbelow : b.Below b.drivenCount id := fun v hv _ => height_lt_count hacyclic hv
      rw [hvalue]
      exact (agree_exec hacyclic h hV hV' hexec hexec' hagree id hbelow m hm hground).symm
    · exact hframe'.rest id hwritten

end Passes

/-! ## Counting passes -/

/-- The number of driven nodes is within the limit of passes. -/
theorem drivenCount_le (b : Bench) : b.drivenCount + 2 ≤ b.passLimit := by
  have hle : b.drivenCount ≤ b.circuit.nodes.length := List.length_filter_le ..
  unfold passLimit
  omega

/-- A run that needs at most so many passes, unless it fails for another reason. -/
structure Within (bound : Nat) (x : Except Fault Settled) : Prop where
  unhurried : ∀ passes, x ≠ .error (.noConvergence passes)
  passes : ∀ e, x = .ok e → e.passes ≤ bound

/-- One pass: either the run is over, or it goes on from the new values. -/
theorem Within.step {bound left : Nat} {V : List Nat} (hlast : b.passLimit - left ≤ bound)
    (hrest : ∀ p, b.exec true b.block ⟨V, [], []⟩ = .ok p → b.drive p ≠ V →
      Within bound (b.settle left (b.drive p))) : Within bound (b.settle (left + 1) V) := by
  unfold settle
  cases hexec : b.exec true b.block ⟨V, [], []⟩ with
  | error f =>
    refine ⟨fun passes he => ?_, fun _ h => by cases h⟩
    obtain rfl : f = .noConvergence passes := Except.error.inj he
    exact exec_ne_noConvergence passes hexec
  | ok p =>
    show Within bound (if b.drive p = V then _ else b.settle left (b.drive p))
    split
    · refine ⟨fun passes he => (by cases he), fun e he => ?_⟩
      obtain rfl := Except.ok.inj he
      exact hlast
    · next hne => exact hrest p hexec hne

/-- A run whose driven nodes below height `k` are right already needs as many passes as there are
    heights left, and two more: one for what is computed from them, and one to see that nothing
    changes. -/
theorem settle_within (hacyclic : b.Acyclic) (h : b.Elaborated) {n : Nat} : ∀ {left k : Nat}
    {V : List Nat}, k + n = b.drivenCount → n + 2 ≤ left → left ≤ b.passLimit →
    Elaborated.Holding b V →
    (∀ p, b.exec true b.block ⟨V, [], []⟩ = .ok p → b.AgreeBelow k V (b.drive p)) →
    Within (b.passLimit - left + n + 2) (b.settle left V) := by
  induction n with
  | zero =>
    intro left k V hk hleft hlimit hV hagree
    -- all heights are right: one more pass computes the rest, and the next one changes nothing
    obtain ⟨left, rfl⟩ : ∃ l, left = l + 2 := ⟨left - 2, by omega⟩
    obtain rfl : k = b.drivenCount := by omega
    refine Within.step (by omega) fun p hexec _ => ?_
    refine Within.step (by omega) fun p' hexec' hne => ?_
    exact absurd (drive_eq_of_agree hacyclic h hV hexec hexec' (hagree p hexec)) hne
  | succ n ih =>
    intro left k V hk hleft hlimit hV hagree
    obtain ⟨left, rfl⟩ : ∃ l, left = l + 1 := ⟨left - 1, by omega⟩
    refine Within.step (by omega) fun p hexec _ => ?_
    -- a pass makes one more height right
    have hV' := h.holding_drive hV hexec
    have hrest := ih (show k + 1 + n = b.drivenCount by omega) (show n + 2 ≤ left by omega)
      (by omega) hV' fun p' hexec' =>
        agree_drive hacyclic h hV hV' hexec hexec' (hagree p hexec)
    rwa [show b.passLimit - left + n + 2 = b.passLimit - (left + 1) + (n + 1) + 2 by omega] at hrest

/-- **Circuits without loops settle, on the right answer.**  If no value of an elaborated circuit
    depends on itself, then whatever its inputs and registers have been given, no run ends for want of
    passes; a run that ends well has taken at most two passes more than there are wires and outputs,
    which is within the limit; and its values are the only solution of the equations. -/
theorem acyclic_settles {s : Script} {m m' : Script.Memory} {name : String}
    {settings : Settings.Elaboration} {o : Script.Outcome} {c : Circuit} {gs : List Setting}
    (hm : m.Reached) (hdescribe : s.describe? m name settings = some (o, m'))
    (hc : o.result = .ok c) (hsize : c.nodes.length ≤ 2 ^ 32) (hb : Prepared c gs b)
    (hacyclic : b.Acyclic) :
    (∀ passes, b.run ≠ .error (.noConvergence passes)) ∧ b.drivenCount + 2 ≤ b.passLimit ∧
      ∀ e, b.run = .ok e → e.passes ≤ b.drivenCount + 2 ∧ b.Solves e.values ∧
        ∀ values, b.Solves values → ∀ id n, b.circuit.node? id = some n → n.IsGround →
          nodeValue? values id = nodeValue? e.values id := by
  have h := hb.elaborated_of_describe? hm hdescribe hc hsize
  have hwithin : Within (b.passLimit - b.passLimit + b.drivenCount + 2) b.run :=
    settle_within hacyclic h (Nat.zero_add _) (drivenCount_le b) (Nat.le_refl _)
      h.holding_initial fun _ _ _ _ hlt => absurd hlt (Nat.not_lt_zero _)
  rw [Nat.sub_self, Nat.zero_add] at hwithin
  refine ⟨hwithin.unhurried, drivenCount_le b, fun e hrun => ?_⟩
  have hsolves := (h.solution hrun).solves
  refine ⟨hwithin.passes e hrun, hsolves, fun values hvalues id n hn hground => ?_⟩
  exact hacyclic.unique h hvalues hsolves id n hn hground

/-! ## A chain of wires that is connected backwards -/

/-- Two wires that pass the input on, the last one first, and the complement of the last one. -/
def relay : Script :=
  let declared (role : Draft.Declared) (name : String) (rest : Script) : Script :=
    .call ⟨"", false, some name⟩ (.declare role name (.leaf (.template .uint (.known 4)))) rest
  let connect (target source : String) (rest : Script) : Script :=
    .call ⟨"", false, none⟩ (.connect target source) rest
  declared (.port .input) "a" <| declared .wire "x" <| declared .wire "z" <|
    connect "z" "x" <| connect "x" "a" <| .call ⟨"", false, none⟩ (.unary .not "z") .done

/-- The relay takes all the passes that it may. -/
theorem relay_settles : ∃ b e, Prepared b.circuit [.input "a" 5] b ∧ b.Acyclic ∧
    b.run = .ok e ∧ e.values = [5, 5, 5, 10] ∧ e.passes = b.drivenCount + 2 ∧
      ∀ values, b.Solves values → ∀ id n, b.circuit.node? id = some n → n.IsGround →
        nodeValue? values id = nodeValue? e.values id := by
  have htry : (tryOut? relay [.input "a" 5]).map (fun (b, e) =>
      (b.circuit.nodes.length, b.edges.all fun e => e.2.index.toNat < e.1.index.toNat, e.values,
        decide (e.passes = b.drivenCount + 2))) = some (4, true, [5, 5, 5, 10], true) := by
    decide +kernel
  obtain ⟨⟨b, e⟩, hbe, heq⟩ := Option.map_eq_some_iff.1 htry
  simp only [Prod.mk.injEq, decide_eq_true_eq] at heq
  obtain ⟨hlength, hedges, hvalues, hpasses⟩ := heq
  obtain ⟨o, m', hdescribe, hc, hb, hrun⟩ := tryOut?_eq_some hbe
  have hsize : b.circuit.nodes.length ≤ 2 ^ 32 := by omega
  have hacyclic : b.Acyclic := by
    have h := hb.elaborated_of_describe? Script.Memory.Reached.empty hdescribe hc hsize
    exact acyclic_of_rank h (·.index.toNat) fun e he => by
      simpa using List.all_eq_true.1 hedges e he
  obtain ⟨-, -, hall⟩ :=
    acyclic_settles Script.Memory.Reached.empty hdescribe hc hsize hb hacyclic
  obtain ⟨-, -, hunique⟩ := hall e hrun
  exact ⟨b, e, hb, hacyclic, hrun, hvalues, hpasses, hunique⟩

end Circuitry.Bench
