/-
  What a walk through the nesting comes to.

  A pass reads values while it overwrites them.  But no node is written after it has been read, nor
  written twice (`Ordered`, and `nodup_written` of the circuit), so whatever is read, at any moment of
  the pass, is the value that there is at its end.  With `U` for these last values, `exec_walked` says
  that the operators hold in `U`, that the connections that took effect are those whose guards hold in
  `U`, and that each of them drives what its source has in `U`.

  `selectLeaves_walked` and `Executed.operatorHolds` are about a single command; `exec_walked` is the
  induction over the block.  It carries the visits that come later, since they may still write.
-/
import Circuitry.Proofs.Bench.Pass

namespace Circuitry.Bench

variable {b : Bench} {U : List Nat}

/-! ## Order -/

/-- The nodes whose values a visit takes. -/
def reads (b : Bench) : Visit → List NodeId
  | (_, some pred) => pred.nodes
  | (i, none) => ((b.circuit.commands[i]?).map Command.reads).getD []

/-- No visit takes a value that is written by it or later. -/
def Ordered (b : Bench) : List Visit → Prop
  | [] => True
  | v :: vs => (∀ id ∈ b.reads v, id ∉ b.slots v.1 ++ b.written vs) ∧ b.Ordered vs

theorem Ordered.of_append {vs : List Visit} : ∀ {us : List Visit}, b.Ordered (us ++ vs) →
    b.Ordered vs
  | [], h => h
  | _ :: _, h => Ordered.of_append h.2

/-! ## Single commands -/

/-- The leaves of a selection are given the values that there are at the end. -/
theorem selectLeaves_walked {i : Nat} {pairs : List (NodeId × Operand)} : ∀ {p p' : Pass},
    b.selectLeaves i pairs p = .ok p' → (pairs.map (·.1)).Nodup →
    p.values.length = b.circuit.nodes.length →
    (∀ pair ∈ pairs, ∀ id ∈ pair.2.nodes, id ∉ pairs.map (·.1) ∧
      nodeValue? p.values id = nodeValue? U id) →
    (∀ id ∈ pairs.map (·.1), nodeValue? p'.values id = nodeValue? U id) →
    ∀ pair ∈ pairs, ∃ v w, b.value? U pair.2 = some v ∧ b.width pair.1 = .ok w ∧
      nodeValue? U pair.1 = some (cut w v.reading) := by
  induction pairs with
  | nil => exact fun _ _ _ _ _ => nofun
  | cons pair rest ih =>
    intro p p' h hnodup hlen hreads hleaves
    obtain ⟨v, w, hv, hw, hrest⟩ := selectLeaves_cons.1 h
    rw [List.map_cons, List.nodup_cons] at hnodup
    obtain ⟨hframe, -, -⟩ := sameExcept_selectLeaves hrest
    have hlt : pair.1.index.toNat < p.values.length := by
      rw [hlen]
      exact lt_of_width hw
    -- nothing after this leaf writes it
    have hself : nodeValue? U pair.1 = some (cut w v.reading) := by
      rw [← hleaves pair.1 (List.mem_cons_self ..), hframe.rest pair.1 hnodup.1,
        nodeValue?_write _ hlt]
    have hsource : b.value? p.values pair.2 = b.value? U pair.2 :=
      value?_congr fun id hid => (hreads pair (List.mem_cons_self ..) id hid).2
    have hwrite := sameExcept_write p pair.1 (cut w v.reading)
    intro q hq
    rcases List.mem_cons.1 hq with rfl | hq
    · exact ⟨v, w, hsource ▸ hv, hw, hself⟩
    · refine ih hrest hnodup.2 (by rw [hwrite.length, hlen]) ?_ ?_ q hq
      · intro r hr id hid
        obtain ⟨hnot, hsame⟩ := hreads r (List.mem_cons_of_mem _ hr) id hid
        rw [List.map_cons, List.mem_cons, not_or] at hnot
        refine ⟨hnot.2, ?_⟩
        rw [hwrite.rest id (fun hmem => hnot.1 (List.mem_singleton.1 hmem)), hsame]
      · intro id hid
        exact hleaves id (List.mem_cons_of_mem _ hid)

/-- An operator that reads what there is at the end, and whose slots stay, holds at the end. -/
theorem Executed.operatorHolds {i : Nat} {active : Bool} {result : NodeId} {op : Operator}
    {args : List Operand} {p p' : Pass} (h : b.Executed active p (.defPrim result op args) p')
    (hcmd : b.circuit.commands[i]? = some (.defPrim result op args)) (hnodup : (b.slots i).Nodup)
    (hlen : p.values.length = b.circuit.nodes.length)
    (hreads : ∀ id ∈ operandsNodes args, id ∉ b.slots i ∧
      nodeValue? p.values id = nodeValue? U id)
    (hslots : ∀ id ∈ b.slots i, nodeValue? p'.values id = nodeValue? U id) :
    b.OperatorHolds U result op args := by
  cases h with
  | ground node isGround operands width =>
    rw [slots_ground hcmd node isGround] at hslots
    have hlt : result.index.toNat < p.values.length := by
      rw [hlen]
      exact lt_of_width width
    have hval := hslots result (List.mem_singleton_self _)
    rw [nodeValue?_write _ hlt] at hval
    rw [mapM_value?_congr fun id hid => (hreads id hid).2] at operands
    exact (operatorHolds_ground node isGround).2 ⟨_, _, width, operands, hval.symm⟩
  | @fields _ _ cond t f c _ _ node aggregate condition whenTrue whenFalse leaves =>
    rw [slots_fields hcmd node aggregate] at hslots hnodup hreads
    have hfst := map_fst_zip_selected c.isTrue whenTrue whenFalse
    have hleaves : ∀ pair ∈ (b.circuit.fieldNodes result).zip (if c.isTrue then t else f),
        ∀ id ∈ pair.2.nodes,
          id ∉ ((b.circuit.fieldNodes result).zip (if c.isTrue then t else f)).map (·.1) ∧
            nodeValue? p.values id = nodeValue? U id := by
      intro pair hpair id hid
      rw [hfst]
      refine hreads id ?_
      have hsource := (List.of_mem_zip hpair).2
      simp only [operandsNodes, Operand.nodes, List.mem_append, mem_operandsNodes]
      cases hc : c.isTrue with
      | true => exact .inr (.inl ⟨pair.2, by simpa [hc] using hsource, hid⟩)
      | false => exact .inr (.inr (.inl ⟨pair.2, by simpa [hc] using hsource, hid⟩))
    rw [← hfst] at hslots hnodup
    have hrest := selectLeaves_walked leaves hnodup hlen hleaves hslots
    have hcond : b.value? p.values cond = b.value? U cond :=
      value?_congr fun id hid => (hreads id (List.mem_append_left _ hid)).2
    refine (operatorHolds_fields node aggregate).2
      ⟨cond, t, f, c, rfl, rfl, hcond ▸ condition, whenTrue, whenFalse, ?_⟩
    intro k leaf x y hleaf hx hy
    have hpair : (leaf, if c.isTrue then x else y) ∈
        (b.circuit.fieldNodes result).zip (if c.isTrue then t else f) := by
      refine List.mem_iff_getElem?.2 ⟨k, List.getElem?_zip_eq_some.2 ⟨hleaf, ?_⟩⟩
      cases c.isTrue
      · exact hy
      · exact hx
    obtain ⟨v, w, hv, hw, hval⟩ := hrest _ hpair
    refine ⟨w, v, v, hw, ?_, ?_, ?_⟩
    · intro hc
      simpa [hc] using hv
    · intro hc
      simpa [hc] using hv
    · rw [hval]
      simp [Operator.apply, Operator.result]
  | idle noResult inactive => exact absurd rfl (noResult result op args)

/-- The connection at a position only depends on the nodes of its source. -/
theorem driverAt_congr {values values' : List Nat} {i : Nat}
    (h : ∀ id ∈ b.reads (i, none), nodeValue? values id = nodeValue? values' id) :
    b.driverAt values i = b.driverAt values' i := by
  unfold driverAt
  split
  · next target source hcmd =>
    have hreads : b.reads (i, none) = source.nodes := by simp [reads, hcmd, Command.reads]
    rw [hreads] at h
    rw [drive?_congr h]
  · rfl

theorem Drivable.congr {values values' : List Nat} {i : Nat} (hd : b.Drivable values i)
    (h : ∀ id ∈ b.reads (i, none), nodeValue? values id = nodeValue? values' id) :
    b.Drivable values' i := by
  intro target source hcmd
  have hreads : b.reads (i, none) = source.nodes := by simp [reads, hcmd, Command.reads]
  rw [hreads] at h
  rw [← drive?_congr h]
  exact hd target source hcmd

/-! ## Walks -/

/-- The commands that take effect in a block, which may lie in a region that is not active. -/
def taken (holds : Operand → Bool) (active : Bool) (blk : Block) : List Nat :=
  if active then blk.active holds else []

section Taken

variable (holds : Operand → Bool) (active : Bool) (pred : Operand) (i : Nat)
  (body alternative rest : Block)

theorem taken_command :
    taken holds active (.command i rest) = (if active then [i] else []) ++ taken holds active rest := by
  cases active <;> rfl

theorem taken_clause : taken holds active (.clause pred i body rest) =
    taken holds (active && holds pred) body ++ taken holds active rest := by
  cases active <;> cases h : holds pred <;> simp [taken, Block.active, h]

theorem taken_clauseElse : taken holds active (.clauseElse pred i body alternative rest) =
    taken holds (active && holds pred) body ++
      (taken holds (active && !holds pred) alternative ++ taken holds active rest) := by
  cases active <;> cases h : holds pred <;> simp [taken, Block.active, h]

end Taken

/-- What a part of a walk has come to, for the values `U` at the end of the pass: it has come by
    `visits`, and the commands at `taken` have taken effect. -/
structure Walked (b : Bench) (U : List Nat) (taken : List Nat) (visits : List Visit) (p p' : Pass) :
    Prop where
  drivers : p'.drivers = (taken.filterMap (b.driverAt U)).reverse ++ p.drivers
  drivable : ∀ i ∈ taken, b.Drivable U i
  active : ∀ i, (∀ pred, (i, some pred) ∉ visits) → (i ∈ p'.active ↔ i ∈ taken ∨ i ∈ p.active)
  operators : ∀ i, (i, none) ∈ visits → ∀ result op args,
    b.circuit.commands[i]? = some (.defPrim result op args) → b.OperatorHolds U result op args

namespace Walked

theorem nothing (p : Pass) : b.Walked U [] [] p p := ⟨rfl, nofun, fun _ _ => by simp, nofun⟩

/-- One part after the other. -/
theorem append {ts ts' : List Nat} {vs vs' : List Visit} {p p₁ p' : Pass}
    (h : b.Walked U ts vs p p₁) (h' : b.Walked U ts' vs' p₁ p') :
    b.Walked U (ts ++ ts') (vs ++ vs') p p' := by
  refine ⟨?_, ?_, ?_, ?_⟩
  · rw [h'.drivers, h.drivers, List.filterMap_append, List.reverse_append, List.append_assoc]
  · intro i hi
    rcases List.mem_append.1 hi with hi | hi
    · exact h.drivable i hi
    · exact h'.drivable i hi
  · intro i hi
    have h₁ := h.active i fun pred hmem => hi pred (List.mem_append_left _ hmem)
    have h₂ := h'.active i fun pred hmem => hi pred (List.mem_append_right _ hmem)
    rw [h₂, h₁, List.mem_append]
    tauto
  · intro i hi
    rcases List.mem_append.1 hi with hi | hi
    · exact h.operators i hi
    · exact h'.operators i hi

/-- The beginning of a clause. -/
theorem begun (p : Pass) (i : Nat) (pred : Operand) (active : Bool) :
    b.Walked U [] [(i, some pred)] p (p.mark i active) := by
  refine ⟨by rw [drivers_mark]; rfl, nofun, fun j hj => ?_, ?_⟩
  · have hne : j ≠ i := fun he => hj pred (by simp [he])
    rw [active_mark]
    cases active <;> simp [hne]
  · intro j hj
    cases List.mem_singleton.1 hj

/-- A single command, which reads what there is at the end. -/
theorem command {active : Bool} {i : Nat} {p p' : Pass}
    (hreads : ∀ id ∈ b.reads (i, none), nodeValue? p.values id = nodeValue? U id)
    (hsome : ∀ cmd, b.circuit.commands[i]? = some cmd →
      b.Executed active (p.mark i active) cmd p')
    (hnone : b.circuit.commands[i]? = none → p' = p.mark i active)
    (hop : ∀ result op args, b.circuit.commands[i]? = some (.defPrim result op args) →
      b.OperatorHolds U result op args) :
    b.Walked U (if active then [i] else []) [(i, none)] p p' := by
  have hactive : p'.active = (if active then [i] else []) ++ p.active := by
    rw [← active_mark]
    cases hcmd : b.circuit.commands[i]? with
    | none => rw [hnone hcmd]
    | some cmd => rw [(hsome cmd hcmd).active_eq]
  have hdrivers : p'.drivers = (if active then (b.driverAt U i).toList else []) ++ p.drivers ∧
      (active = true → b.Drivable U i) := by
    cases hcmd : b.circuit.commands[i]? with
    | none =>
      rw [hnone hcmd, drivers_mark]
      refine ⟨by simp [driverAt, hcmd], fun _ t s hc => ?_⟩
      rw [hcmd] at hc
      cases hc
    | some cmd =>
      obtain ⟨hd, hdrivable⟩ := (hsome cmd hcmd).drivers_eq hcmd
      rw [values_mark, drivers_mark, driverAt_congr hreads] at hd
      rw [values_mark] at hdrivable
      exact ⟨hd, fun ha => (hdrivable ha).congr hreads⟩
  refine ⟨?_, ?_, ?_, ?_⟩
  · rw [hdrivers.1]
    cases active <;> cases hd : b.driverAt U i <;> simp [hd]
  · intro j hj
    cases ha : active with
    | false => simp [ha] at hj
    | true =>
      obtain rfl : j = i := by simpa [ha] using hj
      exact hdrivers.2 ha
  · intro j _
    rw [hactive, List.mem_append]
  · intro j hj result op args hcmd
    obtain rfl := (Prod.mk.inj (List.mem_singleton.1 hj)).1
    exact hop result op args hcmd

end Walked

theorem holds_eq {values : List Nat} {pred : Operand} {v : Value}
    (h : b.value? values pred = some v) : b.holds values pred = v.isTrue := by
  simp [holds, h]

/-- What is not written any more has its last value. -/
theorem exec_sameExcept_later {blk : Block} {active : Bool} {p p' : Pass} {later : List Visit}
    (h : b.exec active blk p = .ok p') (hlater : SameExcept (b.written later) p'.values U) :
    SameExcept (b.written (blk.visits ++ later)) p.values U := by
  rw [written_append]
  exact (exec_sameExcept blk h).trans hlater

/-- **Reads see the end of the pass.**  On a walk through a block, with `later` still to come, every read
    sees the values that there are in the end. -/
theorem exec_walked (hlen : U.length = b.circuit.nodes.length) (blk : Block) :
    ∀ {later : List Visit} {active : Bool} {p p' : Pass}, b.exec active blk p = .ok p' →
    b.Ordered (blk.visits ++ later) → (b.written (blk.visits ++ later)).Nodup →
    SameExcept (b.written later) p'.values U →
    b.Walked U (taken (b.holds U) active blk) blk.visits p p' := by
  -- on the block, in the order of the pass; what is still to come stands in `later`
  induction blk with
  | empty =>
    intro later active p p' h _ _ _
    obtain rfl := Except.ok.inj h
    have htaken : taken (b.holds U) active .empty = [] := by cases active <;> rfl
    rw [htaken]
    exact .nothing p
  | command i rest ih =>
    intro later active p p' h hordered hnodup hlater
    have hbefore := exec_sameExcept_later h hlater
    obtain ⟨p₁, hsome, hnone, hrest⟩ := exec_command h
    have hafter := exec_sameExcept_later hrest hlater
    rw [Block.visits, List.cons_append] at hordered
    rw [Block.visits, List.cons_append, written_cons] at hnodup hbefore
    obtain ⟨hnodupSlots, hnodupRest, hapart⟩ := List.nodup_append.1 hnodup
    -- what the command reads is written neither by it nor later
    have hreads : ∀ id ∈ b.reads (i, none), id ∉ b.slots i ∧
        nodeValue? p.values id = nodeValue? U id := by
      intro id hid
      have hnot := hordered.1 id hid
      exact ⟨fun hmem => hnot (List.mem_append_left _ hmem), (hbefore.rest id hnot).symm⟩
    -- and what it writes is not written again
    have hslots : ∀ id ∈ b.slots i, nodeValue? p₁.values id = nodeValue? U id := by
      intro id hid
      exact (hafter.rest id fun hmem => hapart id hid id hmem rfl).symm
    have hr := ih hrest hordered.2 hnodupRest hlater
    rw [taken_command]
    refine (Walked.command (fun id hid => (hreads id hid).2) hsome hnone ?_).append hr
    intro result op args hcmd
    have heq : b.reads (i, none) = operandsNodes args := by simp [reads, hcmd, Command.reads]
    rw [heq] at hreads
    refine (hsome _ hcmd).operatorHolds hcmd hnodupSlots ?_ ?_ hslots
    · rw [values_mark, ← hbefore.length, hlen]
    · rw [values_mark]
      exact hreads
  | clause pred i body rest ihb ih =>
    intro later active p p' h hordered hnodup hlater
    have hbefore := exec_sameExcept_later h hlater
    obtain ⟨v, p₁, hv, hbody, hrest⟩ := exec_clause h
    have hafter := exec_sameExcept_later hrest hlater
    rw [Block.visits, List.cons_append, List.append_assoc] at hordered
    rw [Block.visits, List.cons_append, List.append_assoc, written_cons] at hnodup hbefore
    have hpred : b.value? p.values pred = b.value? U pred :=
      value?_congr fun id hid => (hbefore.rest id (hordered.1 id hid)).symm
    have hnodup' := (List.nodup_append.1 hnodup).2.1
    have hb := ihb hbody hordered.2 hnodup' hafter
    rw [written_append] at hnodup'
    have hr := ih hrest hordered.2.of_append (List.nodup_append.1 hnodup').2.1 hlater
    rw [taken_clause, holds_eq (hpred ▸ hv)]
    exact (Walked.begun p i pred active).append (hb.append hr)
  | clauseElse pred i body alternative rest ihb iha ih =>
    intro later active p p' h hordered hnodup hlater
    have hbefore := exec_sameExcept_later h hlater
    obtain ⟨v, p₁, p₂, hv, hbody, halternative, hrest⟩ := exec_clauseElse h
    have hafter := exec_sameExcept_later hrest hlater
    have hmiddle := exec_sameExcept_later halternative hafter
    rw [Block.visits, List.cons_append, List.append_assoc, List.append_assoc] at hordered
    rw [Block.visits, List.cons_append, List.append_assoc, List.append_assoc, written_cons]
      at hnodup hbefore
    have hpred : b.value? p.values pred = b.value? U pred :=
      value?_congr fun id hid => (hbefore.rest id (hordered.1 id hid)).symm
    have hnodup' := (List.nodup_append.1 hnodup).2.1
    have hb := ihb hbody hordered.2 hnodup' hmiddle
    rw [written_append] at hnodup'
    have hnodup'' := (List.nodup_append.1 hnodup').2.1
    have ha := iha halternative hordered.2.of_append hnodup'' hafter
    rw [written_append] at hnodup''
    have hr := ih hrest hordered.2.of_append.of_append (List.nodup_append.1 hnodup'').2.1 hlater
    rw [taken_clauseElse, holds_eq (hpred ▸ hv)]
    exact (Walked.begun p i pred active).append (hb.append (ha.append hr))

end Circuitry.Bench
