/-
  Runs of what is left.

  Two benches whose circuits have grown side by side, and which have been given the same values, go
  through their passes in step: after the same number of passes, declared nodes show the values of the
  nodes in their places (`matches_drive`).  The two may settle after different numbers of passes, since
  a run also waits for results that nothing takes.  But a run that has settled would stay where it is
  (`settle_reaches`), so there is a number of passes after which both have settled, and there they
  match (`matches_run`).

  What drives a node is found on the trails of the two streams, with the same guards met on both
  (`driven?_image`).
-/
import Circuitry.Proofs.Folding.Values

namespace Circuitry.Bench

variable {im : List Operand} {b b' : Bench} {U U' V V' : List Nat}

/-- Declared nodes show the values of the nodes in their places. -/
def Matches (im : List Operand) (b : Bench) (V V' : List Nat) : Prop :=
  ∀ id n, b.circuit.node? id = some n → n.role ≠ .result → Shows im V V' id

/-- All nodes that can have a value show it. -/
def AllShow (im : List Operand) (b : Bench) (U U' : List Nat) : Prop :=
  ∀ id n, b.circuit.node? id = some n → n.IsGround → Shows im U U' id

/-- A declared node can have a value. -/
theorem Elaborated.isGround_of_role (h : b.Elaborated) {id : NodeId} {n : Node}
    (hn : b.circuit.node? id = some n) (hrole : n.role ≠ .result) : n.IsGround := by
  cases h.grown.node_cases h.size n (List.mem_of_getElem? hn) with
  | declared _ _ ground => exact ground
  | result role _ => exact absurd role hrole
  | field _ _ role _ _ _ => exact absurd role hrole

namespace Twin

/-! ## Drivers -/

theorem trail_image (h : Twin im b b') : b'.trail = b.trail.filterMap (Scan.entryImage im) := by
  rw [trail, trail, h.folds.commands h.left.size]
  exact Scan.trail_image im _ Scan.start

theorem holds_image (h : Twin im b b') {pred : Operand}
    (hpred : ∀ id ∈ pred.nodes, Seen im b U U' id) :
    b'.holds U' (pred.image im) = b.holds U pred := by
  rw [holds, holds, h.value?_image hpred]

/-- The same guards are met. -/
theorem allMet_image (h : Twin im b b') {path : List Guard}
    (hpath : ∀ g ∈ path, ∀ id ∈ g.pred.nodes, Seen im b U U' id) :
    Block.allMet (b'.holds U') (path.map (Guard.image im)) = Block.allMet (b.holds U) path := by
  induction path with
  | nil => rfl
  | cons g path ih =>
    have hmet : (g.image im).met (b'.holds U') = g.met (b.holds U) := by
      show (b'.holds U' (g.pred.image im) == g.positive) = _
      rw [h.holds_image (hpath g (List.mem_cons_self ..))]
      rfl
    have hrest := ih fun g' hg' => hpath g' (List.mem_cons_of_mem _ hg')
    rw [List.map_cons]
    show (_ && Block.allMet _ _) = (_ && Block.allMet _ _)
    rw [hmet, hrest]

/-- What a connection to a node looks like on the other side. -/
theorem sourceTo?_image (h : Twin im b b') {id id' : NodeId} {cmd : Command}
    (hid : im[id.index.toNat]? = some (.node id')) (hcmd : cmd ∈ b.circuit.commands) :
    (cmd.image im).bind (Command.sourceTo? id') = (cmd.sourceTo? id).map (Operand.image im) := by
  cases cmd with
  | connect target source =>
    have hbound := (h.folds.bounded h.left.size).commands _ hcmd target (List.mem_cons_self ..)
    rw [← h.folds.length] at hbound
    have hget := List.getElem?_eq_getElem hbound
    rcases h.folds.place_cases _ (List.getElem_mem hbound) with ⟨target', ht⟩ | ⟨k, hk⟩
    · rw [ht] at hget
      have hiff : target' = id' ↔ target = id := by
        constructor
        · rintro rfl
          exact h.folds.image_injective h.left.size hget hid
        · rintro rfl
          exact Operand.node.inj (Option.some.inj (hget.symm.trans hid))
      rw [Command.image, image_of_getElem? hget]
      dsimp only [Option.bind_some, Command.sourceTo?]
      by_cases htarget : target = id
      · rw [if_pos (hiff.2 htarget), if_pos htarget]
        rfl
      · rw [if_neg (mt hiff.1 htarget), if_neg htarget]
        rfl
    · -- the place of `id` is a node, so this is another target
      rw [hk] at hget
      have hne : target ≠ id := by
        rintro rfl
        rw [hid] at hget
        cases hget
      rw [Command.image, image_of_getElem? hget, Command.sourceTo?, if_neg hne]
      rfl
  | defPrim result op args =>
    rw [Command.image]
    split <;> rfl
  | _ => rfl

theorem seen_of_reads (h : Twin im b b') (hshow : AllShow im b U U') {i : Nat} {cmd : Command}
    (hcmd : b.circuit.commands[i]? = some cmd) {id : NodeId} (hid : id ∈ cmd.reads) :
    Seen im b U U' id := by
  obtain ⟨n, hn, hground, -⟩ := h.left.grown.reads_known h.left.size hcmd id hid
  exact ⟨n, hn, hground, hshow id n hn hground⟩

theorem sourcesTo_image (h : Twin im b b') (hshow : AllShow im b U U') {id id' : NodeId}
    (hid : im[id.index.toNat]? = some (.node id')) :
    b'.sourcesTo U' id' = (b.sourcesTo U id).map (Operand.image im) := by
  rw [sourcesTo_eq_trail h.right, sourcesTo_eq_trail h.left, h.trail_image, List.filterMap_filter,
    List.filterMap_filter, List.filterMap_filterMap, List.map_filterMap]
  refine List.filterMap_congr fun e hmem => ?_
  obtain ⟨cmd, path⟩ := e
  obtain ⟨i, hpath, hcmd⟩ := exists_of_mem_trail h.left hmem
  have hseen : ∀ g ∈ path, ∀ source ∈ g.pred.nodes, Seen im b U U' source := by
    intro g hg source hsource
    obtain ⟨n, hn, hground⟩ := h.left.guard_known hpath hg hsource
    exact ⟨n, hn, hground, hshow source n hn hground⟩
  have hmet := h.allMet_image hseen
  have hsource := h.sourceTo?_image hid (List.mem_of_getElem? hcmd)
  simp only [Scan.entryImage]
  -- a command that is gone drives nothing
  cases himage : cmd.image im with
  | none =>
    rw [himage] at hsource
    rw [Option.map_none, Option.bind_none]
    split
    · exact hsource
    · rfl
  | some cmd' =>
    rw [himage, Option.bind_some] at hsource
    rw [Option.map_some, Option.bind_some, hmet]
    split
    · exact hsource
    · rfl

/-- **Drivers.**  A node that is left is driven to the same value. -/
theorem driven?_image (h : Twin im b b') (hshow : AllShow im b U U') {id id' : NodeId} {n : Node}
    (hn : b.circuit.node? id = some n) (hrole : n.role ≠ .result)
    (hid : im[id.index.toNat]? = some (.node id')) (rest : Nat) :
    b'.driven? U' id' rest = b.driven? U id rest := by
  obtain ⟨w, hw, -⟩ := h.width id n hn (h.left.isGround_of_role hn hrole)
  obtain ⟨id'', hid', -, hwidth⟩ := h.exists_place hn (.inl hrole)
  obtain rfl := Operand.node.inj (Option.some.inj (hid.symm.trans hid'))
  rw [driven?, driven?, h.sourcesTo_image hshow hid, List.getLast?_map]
  cases hlast : (b.sourcesTo U id).getLast? with
  | none => rfl
  | some source =>
    -- the source is that of a connection, so it is made of nodes that show
    rw [sourcesTo_eq_trail h.left] at hlast
    obtain ⟨⟨cmd, path⟩, hmem, hsource⟩ := List.mem_filterMap.1 (List.mem_of_getLast? hlast)
    obtain rfl := Command.sourceTo?_eq_some.1 hsource
    obtain ⟨i, -, hcmd⟩ := exists_of_mem_trail h.left (List.mem_filter.1 hmem).1
    have hvalue := h.value?_image (a := source) fun id hid => h.seen_of_reads hshow hcmd hid
    show b'.drive? U' id' (source.image im) = b.drive? U id source
    rw [drive?, drive?, hw, hwidth w hw, hvalue]

/-! ## One pass -/

section Pass

variable {p p' : Pass}

/-- What a pass computes on the two sides. -/
theorem shows_exec (h : Twin im b b') (hm : Matches im b V V')
    (hlen : V.length = b.circuit.nodes.length) (hlen' : V'.length = b'.circuit.nodes.length)
    (hexec : b.exec true b.block ⟨V, [], []⟩ = .ok p)
    (hexec' : b'.exec true b'.block ⟨V', [], []⟩ = .ok p') : AllShow im b p.values p'.values := by
  refine h.shows (h.left.operatorsHold hlen hexec) (h.right.operatorsHold hlen' hexec') ?_
  intro id n hn hrole
  obtain ⟨id', hid, hn', -⟩ := h.exists_place hn (.inl hrole)
  have hkeep := hm id n hn hrole
  rw [Shows, imageValue?_node hid] at hkeep ⊢
  rw [h.left.nodeValue?_exec hexec hn hrole, h.right.nodeValue?_exec hexec' hn' hrole, hkeep]

/-- **One pass.**  Passes from values that match end in values that match. -/
theorem matches_drive (h : Twin im b b') (hm : Matches im b V V')
    (hlen : V.length = b.circuit.nodes.length) (hlen' : V'.length = b'.circuit.nodes.length)
    (hexec : b.exec true b.block ⟨V, [], []⟩ = .ok p)
    (hexec' : b'.exec true b'.block ⟨V', [], []⟩ = .ok p') :
    Matches im b (b.drive p) (b'.drive p') := by
  have hshow := h.shows_exec hm hlen hlen' hexec hexec'
  intro id n hn hrole
  obtain ⟨id', hid, hn', -⟩ := h.exists_place hn (.inl hrole)
  have hrole' : (n.image im).role = n.role := rfl
  have hvalue := hshow id n hn (h.left.isGround_of_role hn hrole)
  rw [Shows, imageValue?_node hid] at hvalue ⊢
  rw [nodeValue?_drive hn ((exec_sameExcept b.block hexec).length.trans hlen),
    nodeValue?_drive hn' ((exec_sameExcept b'.block hexec').length.trans hlen'), hrole',
    h.left.drivers_eq hlen hexec, h.right.drivers_eq hlen' hexec', h.driven?_image hshow hn hrole hid,
    hvalue]

/-- What registers hold next, where they hold the same now. -/
theorem nextState_image (h : Twin im b b') (hm : Matches im b V V')
    (hlen : V.length = b.circuit.nodes.length) (hlen' : V'.length = b'.circuit.nodes.length)
    (hexec : b.exec true b.block ⟨V, [], []⟩ = .ok p)
    (hexec' : b'.exec true b'.block ⟨V', [], []⟩ = .ok p')
    (hstate : ∀ id id' n, b.circuit.node? id = some n → n.role = .register →
      im[id.index.toNat]? = some (.node id') → b'.stateOf id' = b.stateOf id) :
    b'.nextState p' = (b.nextState p).map fun e => (e.1.image im, e.2) := by
  have hshow := h.shows_exec hm hlen hlen' hexec hexec'
  rw [nextState, nextState, h.folds.numbered h.left.size, List.filterMap_filterMap, List.map_filterMap]
  refine List.filterMap_congr fun e hmem => ?_
  obtain ⟨id, n⟩ := e
  have hn := (Circuit.mem_numbered h.left.size).1 hmem
  have hrole' : (n.image im).role = n.role := rfl
  dsimp only
  by_cases hrole : n.role = .register
  · have hdeclared : n.role ≠ .result := by rw [hrole]; decide
    obtain ⟨id', hid, -, -⟩ := h.exists_place hn (.inl hdeclared)
    have hdrivers : (p'.drivers.lookup id').getD (b'.stateOf id') =
        (p.drivers.lookup id).getD (b.stateOf id) := by
      refine Option.some.inj ?_
      rw [h.left.drivers_eq hlen hexec, h.right.drivers_eq hlen' hexec', hstate id id' n hn hrole hid,
        h.driven?_image hshow hn hdeclared hid]
    rw [entryImage, image_of_getElem? hid, if_pos hrole, Option.map_some, idImage_of_getElem? hid]
    simp only [Option.bind_some, hrole', if_pos hrole]
    exact congrArg (fun v => some (id', v)) hdrivers
  · rw [if_neg hrole, Option.map_none, entryImage]
    split
    · simp only [Option.bind_some, hrole', if_neg hrole]
    · rfl

end Pass

end Twin

/-! ## Whole runs -/

/-- So many passes lead from values to values. -/
inductive Reaches (b : Bench) : Nat → List Nat → List Nat → Prop
  | stay (V : List Nat) : Reaches b 0 V V
  | pass {k : Nat} {V W : List Nat} {p : Pass} (exec : b.exec true b.block ⟨V, [], []⟩ = .ok p)
      (rest : Reaches b k (b.drive p) W) : Reaches b (k + 1) V W

/-- Values that a pass leaves as they are stay for good. -/
theorem Reaches.rest {p : Pass} (hexec : b.exec true b.block ⟨V, [], []⟩ = .ok p)
    (hdrive : b.drive p = V) : ∀ k, b.Reaches k V V
  | 0 => .stay V
  | k + 1 => .pass hexec (by rw [hdrive]; exact Reaches.rest hexec hdrive k)

/-- A run that has settled is reached after some number of passes, and after any greater number. -/
theorem settle_reaches : ∀ (left : Nat) {V : List Nat} {e : Settled}, b.settle left V = .ok e →
    e.circuit = b.circuit ∧ ∃ k, ∀ m, k ≤ m → b.Reaches m V e.values
  | 0, V, e, h => by cases h
  | left + 1, V, e, h => by
    unfold settle at h
    obtain ⟨p, hexec, hrest⟩ := bind_eq_ok.1 h
    dsimp only at hrest
    split at hrest
    · next hdrive =>
      obtain rfl := Except.ok.inj hrest
      refine ⟨rfl, 0, fun m _ => ?_⟩
      dsimp only
      rw [hdrive]
      exact .rest hexec hdrive m
    · obtain ⟨hcircuit, k, hk⟩ := settle_reaches left hrest
      refine ⟨hcircuit, k + 1, fun m hm => ?_⟩
      obtain ⟨m, rfl⟩ : ∃ i, m = i + 1 := ⟨m - 1, by omega⟩
      exact .pass hexec (hk m (by omega))

namespace Twin

/-- **In step.**  The same number of passes leads from values that match to values that match. -/
theorem matches_reaches (h : Twin im b b') {k : Nat} : ∀ {V V' W W' : List Nat},
    Matches im b V V' → V.length = b.circuit.nodes.length → V'.length = b'.circuit.nodes.length →
      b.Reaches k V W → b'.Reaches k V' W' → Matches im b W W' := by
  induction k with
  | zero =>
    intro V V' W W' hm _ _ hreach hreach'
    cases hreach
    cases hreach'
    exact hm
  | succ k ih =>
    intro V V' W W' hm hlen hlen' hreach hreach'
    cases hreach with
    | pass exec rest =>
      cases hreach' with
      | pass exec' rest' =>
        refine ih (h.matches_drive hm hlen hlen' exec exec') ?_ ?_ rest rest'
        · exact length_drive ((exec_sameExcept b.block exec).length.trans hlen)
        · exact length_drive ((exec_sameExcept b'.block exec').length.trans hlen')

/-- The same values have been given on both sides. -/
structure Fed (im : List Operand) (b b' : Bench) : Prop where
  registers : ∀ id id' n, b.circuit.node? id = some n → n.role = .register →
    im[id.index.toNat]? = some (.node id') → b'.stateOf id' = b.stateOf id
  inputs : ∀ id id' n, b.circuit.node? id = some n → n.role = .port .input →
    im[id.index.toNat]? = some (.node id') → b'.inputOf id' = b.inputOf id

theorem matches_initial (h : Twin im b b') (hf : Fed im b b') :
    Matches im b b.initial b'.initial := by
  intro id n hn hrole
  obtain ⟨id', hid, hn', -⟩ := h.exists_place hn (.inl hrole)
  have hrole' : (n.image im).role = n.role := rfl
  rw [Shows, imageValue?_node hid]
  rcases h.left.role_cases hn with hresult | hdriven | hregister | hinput
  · exact absurd hresult hrole
  · -- wires and outputs start at zero
    have hneRegister : n.role ≠ .register := fun he => by rw [he] at hdriven; cases hdriven
    have hneInput : n.role ≠ .port .input := fun he => by rw [he] at hdriven; cases hdriven
    rw [nodeValue?_initial hn, nodeValue?_initial hn',
      Elaborated.lookup_eq_none h.left.state hn hneRegister,
      Elaborated.lookup_eq_none h.left.inputs hn hneInput,
      Elaborated.lookup_eq_none h.right.state hn' hneRegister,
      Elaborated.lookup_eq_none h.right.inputs hn' hneInput]
  · rw [h.left.holding_initial.registers id n hn hregister,
      h.right.holding_initial.registers id' _ hn' hregister, hf.registers id id' n hn hregister hid]
  · rw [h.left.holding_initial.inputs id n hn hinput,
      h.right.holding_initial.inputs id' _ hn' hinput, hf.inputs id id' n hn hinput hid]

/-- **Both settle alike.** -/
theorem matches_run (h : Twin im b b') (hf : Fed im b b') {e e' : Settled} (hrun : b.run = .ok e)
    (hrun' : b'.run = .ok e') : Matches im b e.values e'.values := by
  obtain ⟨-, k, hk⟩ := settle_reaches _ hrun
  obtain ⟨-, k', hk'⟩ := settle_reaches _ hrun'
  exact h.matches_reaches (h.matches_initial hf) length_initial length_initial
    (hk (max k k') (by omega)) (hk' (max k k') (by omega))

/-- What registers hold next after a run. -/
theorem next_image (h : Twin im b b') (hf : Fed im b b') {e e' : Settled} (hrun : b.run = .ok e)
    (hrun' : b'.run = .ok e') : e'.next = e.next.map fun x => (x.1.image im, x.2) := by
  have hm := h.matches_run hf hrun hrun'
  obtain ⟨p, hholding, hexec, -, -, hnext, -⟩ := h.left.exists_lastPass hrun
  obtain ⟨p', hholding', hexec', -, -, hnext', -⟩ := h.right.exists_lastPass hrun'
  rw [hnext, hnext']
  exact h.nextState_image hm hholding.length hholding'.length hexec hexec' hf.registers

end Twin

end Circuitry.Bench
