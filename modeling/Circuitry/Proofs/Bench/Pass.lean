/-
  What one pass can do.

  A pass takes the commands of a block in order.  `Executed` lists what a single command can do to it:
  write the result of an operator, write the leaves of a selection, drive a target, or nothing.  The
  nodes that a command writes are its `slots`; a pass leaves all other nodes alone
  (`exec_sameExcept`).

  The walk itself is taken apart by `exec_command`, `exec_clause` and `exec_clauseElse`, one for each
  form of a block.
-/
import Circuitry.Proofs.Bench.Equations
import Circuitry.Proofs.Nesting.Visits

namespace Circuitry.Bench

variable {b : Bench}

/-! ## What is written -/

/-- The nodes that the command at a position writes. -/
def slots (b : Bench) (i : Nat) : List NodeId :=
  match b.circuit.commands[i]? with
  | some (.defPrim result _ _) =>
    match b.circuit.node? result with
    | some ⟨.aggregate _, _, _, _, _⟩ => b.circuit.fieldNodes result
    | _ => [result]
  | _ => []

/-- The nodes that are written on a walk. -/
def written (b : Bench) (visits : List Visit) : List NodeId := visits.flatMap fun v => b.slots v.1

@[simp] theorem written_cons (v : Visit) (visits : List Visit) :
    b.written (v :: visits) = b.slots v.1 ++ b.written visits := rfl

@[simp] theorem written_append (xs ys : List Visit) :
    b.written (xs ++ ys) = b.written xs ++ b.written ys :=
  List.flatMap_append

/-- Except for the given nodes, and in number, the values are the same. -/
structure SameExcept (ids : List NodeId) (before after : List Nat) : Prop where
  length : after.length = before.length
  rest : ∀ id, id ∉ ids → nodeValue? after id = nodeValue? before id

namespace SameExcept

theorem refl (ids : List NodeId) (values : List Nat) : SameExcept ids values values :=
  ⟨rfl, fun _ _ => rfl⟩

theorem mono {ids ids' : List NodeId} {before after : List Nat} (h : SameExcept ids before after)
    (hsub : ∀ id ∈ ids, id ∈ ids') : SameExcept ids' before after :=
  ⟨h.length, fun id hid => h.rest id fun hmem => hid (hsub id hmem)⟩

theorem trans {ids ids' : List NodeId} {u v w : List Nat} (h : SameExcept ids u v)
    (h' : SameExcept ids' v w) : SameExcept (ids ++ ids') u w := by
  refine ⟨h'.length.trans h.length, fun id hid => ?_⟩
  rw [List.mem_append, not_or] at hid
  rw [h'.rest id hid.2, h.rest id hid.1]

/-- Where the given nodes are the same too, everything is. -/
theorem eq {ids : List NodeId} {before after : List Nat} (h : SameExcept ids before after)
    (hids : ∀ id ∈ ids, nodeValue? after id = nodeValue? before id)
    (hsize : before.length ≤ 2 ^ 32) : after = before := by
  refine List.ext_getElem? fun i => ?_
  by_cases hi : i < before.length
  · have hid := Draft.toNat_idAt (Nat.lt_of_lt_of_le hi hsize)
    have hval : nodeValue? after (Draft.idAt i) = nodeValue? before (Draft.idAt i) := by
      by_cases hmem : Draft.idAt i ∈ ids
      · exact hids _ hmem
      · exact h.rest _ hmem
    rwa [nodeValue?, nodeValue?, hid] at hval
  · rw [List.getElem?_eq_none (Nat.le_of_not_lt hi),
      List.getElem?_eq_none (by rw [h.length]; exact Nat.le_of_not_lt hi)]

end SameExcept

theorem sameExcept_write (p : Pass) (id : NodeId) (n : Nat) :
    SameExcept [id] p.values (p.write id n).values := by
  refine ⟨List.length_set, fun j hj => ?_⟩
  rw [List.mem_singleton] at hj
  refine List.getElem?_set_ne fun he => hj ?_
  exact (NodeId.ext_toNat he).symm

/-- What has been written is there. -/
theorem nodeValue?_write {p : Pass} {id : NodeId} (n : Nat)
    (h : id.index.toNat < p.values.length) : nodeValue? (p.write id n).values id = some n := by
  simp [nodeValue?, Pass.write, h]

/-- A ground node has a place among the values. -/
theorem lt_of_width {id : NodeId} {w : Nat} (h : b.width id = .ok w) :
    id.index.toNat < b.circuit.nodes.length := by
  unfold width Circuit.node? at h
  by_contra hle
  rw [List.getElem?_eq_none (Nat.le_of_not_lt hle)] at h
  cases h

/-! ## The results of parts -/

theorem bind_eq_ok {ε α β : Type} {x : Except ε α} {f : α → Except ε β} {y : β} :
    (x >>= f) = .ok y ↔ ∃ a, x = .ok a ∧ f a = .ok y := by
  cases x with
  | ok a => simp [bind, Except.bind]
  | error e => simp [bind, Except.bind]

theorem selectLeaves_cons {i : Nat} {leaf : NodeId} {source : Operand}
    {rest : List (NodeId × Operand)} {p p' : Pass} :
    b.selectLeaves i ((leaf, source) :: rest) p = .ok p' ↔
      ∃ v w, b.value? p.values source = some v ∧ b.width leaf = .ok w ∧
        b.selectLeaves i rest (p.write leaf (cut w v.reading)) = .ok p' := by
  simp only [selectLeaves, bind_eq_ok, operand_eq_ok]
  constructor
  · rintro ⟨v, hv, w, hw, hrest⟩
    exact ⟨v, w, hv, hw, hrest⟩
  · rintro ⟨v, w, hv, hw, hrest⟩
    exact ⟨v, hv, w, hw, hrest⟩

theorem sameExcept_selectLeaves {i : Nat} {pairs : List (NodeId × Operand)} : ∀ {p p' : Pass},
    b.selectLeaves i pairs p = .ok p' → SameExcept (pairs.map (·.1)) p.values p'.values ∧
      p'.drivers = p.drivers ∧ p'.active = p.active := by
  induction pairs with
  | nil =>
    intro p p' h
    obtain rfl := Except.ok.inj h
    exact ⟨.refl _ _, rfl, rfl⟩
  | cons pair rest ih =>
    intro p p' h
    obtain ⟨v, w, -, -, hrest⟩ := selectLeaves_cons.1 h
    obtain ⟨hsame, hdrivers, hactive⟩ := ih hrest
    exact ⟨(sameExcept_write p pair.1 _).trans hsame, hdrivers, hactive⟩

/-! ## Single commands -/

theorem mapM_operand_eq_ok {values : List Nat} {i : Nat} : ∀ (args : List Operand)
    {vs : List Value}, args.mapM (b.operand values i) = .ok vs ↔
      args.mapM (b.value? values) = some vs
  | [], vs => by simp [pure, Except.pure, eq_comm]
  | a :: args, vs => by
    simp only [List.mapM_cons, bind_eq_ok, operand_eq_ok, mapM_operand_eq_ok args,
      Option.bind_eq_bind, Option.bind_eq_some_iff]
    simp [pure, Except.pure]

/-- What a command can do to a pass. -/
inductive Executed (b : Bench) (active : Bool) (p : Pass) : Command → Pass → Prop
  /-- An operator with a ground result writes it. -/
  | ground {result : NodeId} {op : Operator} {args : List Operand} {n : Node} {w : Nat}
      {vs : List Value} (node : b.circuit.node? result = some n) (isGround : n.IsGround)
      (operands : args.mapM (b.value? p.values) = some vs) (width : b.width result = .ok w) :
      Executed b active p (.defPrim result op args) (p.write result (op.apply vs w))
  /-- A selection between aggregates writes their leaves. -/
  | fields {result : NodeId} {n : Node} {cond : Operand} {t f : List Operand} {c : Value}
      {p' : Pass} {i : Nat} (node : b.circuit.node? result = some n) (aggregate : ¬ n.IsGround)
      (condition : b.value? p.values cond = some c)
      (whenTrue : t.length = (b.circuit.fieldNodes result).length)
      (whenFalse : f.length = (b.circuit.fieldNodes result).length)
      (leaves : b.selectLeaves i
        ((b.circuit.fieldNodes result).zip (if c.isTrue then t else f)) p = .ok p')
      (inhabited : b.circuit.fieldNodes result ≠ []) :
      Executed b active p (.defPrim result .mux [cond, .aggregate t, .aggregate f]) p'
  /-- A connection in an active region drives its target. -/
  | connect {target : NodeId} {source : Operand} {w : Nat} {v : Value} (isActive : active = true)
      (width : b.width target = .ok w) (value : b.value? p.values source = some v) :
      Executed b active p (.connect target source)
        { p with drivers := (target, cut w v.reading) :: p.drivers }
  /-- Anything else does nothing. -/
  | idle {cmd : Command} (noResult : ∀ r op args, cmd ≠ .defPrim r op args)
      (inactive : active = true → ∀ t s, cmd ≠ .connect t s) : Executed b active p cmd p

theorem executed_aggregate {i : Nat} {active : Bool} {result : NodeId} {op : Operator}
    {args : List Operand} {n : Node} {p p' : Pass} (hnode : b.circuit.node? result = some n)
    (hn : ¬ n.IsGround) (h : b.execAggregate i result op args p = .ok p') :
    b.Executed active p (.defPrim result op args) p' := by
  unfold execAggregate at h
  split at h
  · next cond t f =>
    dsimp only at h
    by_cases hempty : (b.circuit.fieldNodes result).isEmpty = true
    · rw [if_pos hempty] at h
      cases h
    rw [if_neg hempty] at h
    by_cases hlen : t.length ≠ (b.circuit.fieldNodes result).length ∨
        f.length ≠ (b.circuit.fieldNodes result).length
    · rw [if_pos hlen] at h
      cases h
    rw [if_neg hlen] at h
    obtain ⟨c, hc, hleaves⟩ := bind_eq_ok.1 h
    rw [not_or, Decidable.not_not, Decidable.not_not] at hlen
    exact .fields hnode hn (operand_eq_ok.1 hc) hlen.1 hlen.2 hleaves fun hnil =>
      hempty (List.isEmpty_iff.2 hnil)
  · cases h

theorem executed_of_execCommand {i : Nat} {active : Bool} {cmd : Command} {p p' : Pass}
    (h : b.execCommand i active cmd p = .ok p') : b.Executed active p cmd p' := by
  cases cmd with
  | defPrim result op args =>
    simp only [execCommand] at h
    split at h
    · cases h
    split at h
    · cases h
    · next fs role name origin loc hnode =>
      exact executed_aggregate hnode (Node.not_isGround rfl) h
    · next n hnot hnode =>
      have hground : n.IsGround := Node.isGround_of_ne hnot
      simp only [bind_eq_ok] at h
      obtain ⟨vs, hvs, w, hw, hwrite⟩ := h
      obtain rfl := Except.ok.inj hwrite
      exact .ground hnode hground ((mapM_operand_eq_ok args).1 hvs) hw
  | connect target source =>
    simp only [execCommand] at h
    split at h
    · next hactive =>
      simp only [bind_eq_ok] at h
      obtain ⟨w, hw, v, hv, hdrive⟩ := h
      obtain rfl := Except.ok.inj hdrive
      exact .connect hactive hw (operand_eq_ok.1 hv)
    · next hinactive =>
      obtain rfl := Except.ok.inj h
      exact .idle nofun fun hactive => absurd hactive hinactive
  | _ =>
    obtain rfl := Except.ok.inj h
    exact .idle nofun fun _ => nofun

theorem slots_ground {i : Nat} {result : NodeId} {op : Operator} {args : List Operand} {n : Node}
    (hcmd : b.circuit.commands[i]? = some (.defPrim result op args))
    (hnode : b.circuit.node? result = some n) (hn : n.IsGround) : b.slots i = [result] := by
  obtain ⟨ty, role, name, origin, loc⟩ := n
  obtain ⟨kind, width, rfl⟩ := hn
  simp [slots, hcmd, hnode]

theorem slots_fields {i : Nat} {result : NodeId} {op : Operator} {args : List Operand} {n : Node}
    (hcmd : b.circuit.commands[i]? = some (.defPrim result op args))
    (hnode : b.circuit.node? result = some n) (hn : ¬ n.IsGround) :
    b.slots i = b.circuit.fieldNodes result := by
  obtain ⟨ty, role, name, origin, loc⟩ := n
  cases ty with
  | element kind width => exact absurd ⟨kind, width, rfl⟩ hn
  | aggregate fs => simp [slots, hcmd, hnode]

/-- The leaves of a selection, with the operands selected. -/
theorem map_fst_zip_selected {leaves : List NodeId} {t f : List Operand} (c : Bool)
    (ht : t.length = leaves.length) (hf : f.length = leaves.length) :
    (leaves.zip (if c then t else f)).map (·.1) = leaves := by
  refine List.map_fst_zip ?_
  cases c
  · exact Nat.le_of_eq hf.symm
  · exact Nat.le_of_eq ht.symm

/-- A command leaves all nodes alone but its slots. -/
theorem Executed.sameExcept {i : Nat} {active : Bool} {cmd : Command} {p p' : Pass}
    (h : b.Executed active p cmd p') (hcmd : b.circuit.commands[i]? = some cmd) :
    SameExcept (b.slots i) p.values p'.values := by
  cases h with
  | ground node isGround operands width =>
    rw [slots_ground hcmd node isGround]
    exact sameExcept_write _ _ _
  | fields node aggregate condition whenTrue whenFalse leaves =>
    rw [slots_fields hcmd node aggregate]
    obtain ⟨hsame, -, -⟩ := sameExcept_selectLeaves leaves
    rwa [map_fst_zip_selected _ whenTrue whenFalse] at hsame
  | connect isActive width value => exact .refl _ _
  | idle noResult inactive => exact .refl _ _

theorem Executed.active_eq {active : Bool} {cmd : Command} {p p' : Pass}
    (h : b.Executed active p cmd p') : p'.active = p.active := by
  cases h with
  | fields node aggregate condition whenTrue whenFalse leaves =>
    exact (sameExcept_selectLeaves leaves).2.2
  | _ => rfl

/-- What the connection at a position drives, if it is one and its source has a value. -/
def driverAt (b : Bench) (values : List Nat) (i : Nat) : Option (NodeId × Nat) :=
  match b.circuit.commands[i]? with
  | some (.connect target source) => (b.drive? values target source).map (target, ·)
  | _ => none

/-- The connection at a position has something to drive. -/
def Drivable (b : Bench) (values : List Nat) (i : Nat) : Prop :=
  ∀ target source, b.circuit.commands[i]? = some (.connect target source) →
    ∃ n, b.drive? values target source = some n

theorem drive?_eq {values : List Nat} {target : NodeId} {source : Operand} {w : Nat} {v : Value}
    (hw : b.width target = .ok w) (hv : b.value? values source = some v) :
    b.drive? values target source = some (cut w v.reading) := by
  simp [drive?, hw, hv]

/-- Connections count in active regions. -/
theorem Executed.drivers_eq {i : Nat} {active : Bool} {cmd : Command} {p p' : Pass}
    (h : b.Executed active p cmd p') (hcmd : b.circuit.commands[i]? = some cmd) :
    p'.drivers = (if active then (b.driverAt p.values i).toList else []) ++ p.drivers ∧
      (active = true → b.Drivable p.values i) := by
  cases h with
  | ground node isGround operands width =>
    refine ⟨?_, fun _ t s hc => ?_⟩
    · simp [driverAt, hcmd, Pass.write]
    · rw [hcmd] at hc
      cases hc
  | fields node aggregate condition whenTrue whenFalse leaves =>
    obtain ⟨-, hdrivers, -⟩ := sameExcept_selectLeaves leaves
    refine ⟨?_, fun _ t s hc => ?_⟩
    · simp [driverAt, hcmd, hdrivers]
    · rw [hcmd] at hc
      cases hc
  | connect isActive width value =>
    refine ⟨?_, fun _ t s hc => ?_⟩
    · simp [driverAt, hcmd, isActive, drive?_eq width value]
    · rw [hcmd] at hc
      obtain ⟨rfl, rfl⟩ := Command.connect.inj (Option.some.inj hc)
      exact ⟨_, drive?_eq width value⟩
  | idle noResult inactive =>
    cases active with
    | false => exact ⟨rfl, nofun⟩
    | true =>
      have hnone : b.driverAt p.values i = none := by
        unfold driverAt
        split
        · next t s hc =>
          rw [hcmd] at hc
          exact absurd (Option.some.inj hc) (inactive rfl t s)
        · rfl
      refine ⟨?_, fun _ t s hc => ?_⟩
      · rw [hnone]
        rfl
      · rw [hcmd] at hc
        exact absurd (Option.some.inj hc) (inactive rfl t s)

/-! ## Walks -/

/-- The position is noted, whatever the command does. -/
@[simp] theorem values_mark (p : Pass) (i : Nat) (active : Bool) :
    (p.mark i active).values = p.values := by
  cases active <;> rfl

@[simp] theorem drivers_mark (p : Pass) (i : Nat) (active : Bool) :
    (p.mark i active).drivers = p.drivers := by
  cases active <;> rfl

theorem active_mark (p : Pass) (i : Nat) (active : Bool) :
    (p.mark i active).active = (if active then [i] else []) ++ p.active := by
  cases active <;> rfl

variable {active : Bool} {i : Nat} {pred : Operand} {body alternative rest : Block} {p p' : Pass}

theorem exec_command (h : b.exec active (.command i rest) p = .ok p') :
    ∃ p₁, (∀ cmd, b.circuit.commands[i]? = some cmd →
        b.Executed active (p.mark i active) cmd p₁) ∧
      (b.circuit.commands[i]? = none → p₁ = p.mark i active) ∧ b.exec active rest p₁ = .ok p' := by
  simp only [exec] at h
  split at h
  · next hnone =>
    obtain ⟨p₁, hp₁, hrest⟩ := bind_eq_ok.1 h
    obtain rfl := Except.ok.inj hp₁
    refine ⟨_, fun cmd hcmd => ?_, fun _ => rfl, hrest⟩
    rw [hnone] at hcmd
    cases hcmd
  · next cmd hcmd =>
    obtain ⟨p₁, hp₁, hrest⟩ := bind_eq_ok.1 h
    refine ⟨p₁, fun cmd' hcmd' => ?_, fun hnone => ?_, hrest⟩
    · obtain rfl := Option.some.inj (hcmd.symm.trans hcmd')
      exact executed_of_execCommand hp₁
    · rw [hcmd] at hnone
      cases hnone

theorem exec_clause (h : b.exec active (.clause pred i body rest) p = .ok p') :
    ∃ v p₁, b.value? p.values pred = some v ∧
      b.exec (active && v.isTrue) body (p.mark i active) = .ok p₁ ∧
      b.exec active rest p₁ = .ok p' := by
  simp only [exec, bind_eq_ok, operand_eq_ok, values_mark] at h
  obtain ⟨v, hv, p₁, hbody, hrest⟩ := h
  exact ⟨v, p₁, hv, hbody, hrest⟩

theorem exec_clauseElse (h : b.exec active (.clauseElse pred i body alternative rest) p = .ok p') :
    ∃ v p₁ p₂, b.value? p.values pred = some v ∧
      b.exec (active && v.isTrue) body (p.mark i active) = .ok p₁ ∧
      b.exec (active && !v.isTrue) alternative p₁ = .ok p₂ ∧ b.exec active rest p₂ = .ok p' := by
  simp only [exec, bind_eq_ok, operand_eq_ok, values_mark] at h
  obtain ⟨v, hv, p₁, hbody, p₂, halternative, hrest⟩ := h
  exact ⟨v, p₁, p₂, hv, hbody, halternative, hrest⟩

/-- A walk leaves all nodes alone but those it writes. -/
theorem exec_sameExcept (blk : Block) : ∀ {active : Bool} {p p' : Pass},
    b.exec active blk p = .ok p' → SameExcept (b.written blk.visits) p.values p'.values := by
  induction blk with
  | empty =>
    intro active p p' h
    obtain rfl := Except.ok.inj h
    exact .refl _ _
  | command i rest ih =>
    intro active p p' h
    obtain ⟨p₁, hsome, hnone, hrest⟩ := exec_command h
    refine SameExcept.trans ?_ (ih hrest)
    cases hcmd : b.circuit.commands[i]? with
    | none =>
      rw [hnone hcmd, values_mark]
      exact .refl _ _
    | some cmd =>
      have hsame := (hsome cmd hcmd).sameExcept hcmd
      rwa [values_mark] at hsame
  | clause pred i body rest ihb ih =>
    intro active p p' h
    obtain ⟨v, p₁, -, hbody, hrest⟩ := exec_clause h
    have hsame := (ihb hbody).trans (ih hrest)
    rw [values_mark] at hsame
    refine hsame.mono fun id hid => ?_
    rw [Block.visits, written_cons, written_append]
    exact List.mem_append_right _ hid
  | clauseElse pred i body alternative rest ihb iha ih =>
    intro active p p' h
    obtain ⟨v, p₁, p₂, -, hbody, halternative, hrest⟩ := exec_clauseElse h
    have hsame := (ihb hbody).trans ((iha halternative).trans (ih hrest))
    rw [values_mark] at hsame
    refine hsame.mono fun id hid => ?_
    rw [Block.visits, written_cons, written_append, written_append]
    exact List.mem_append_right _ hid

end Circuitry.Bench
