/-
  Values keep within their widths.

  Whatever a run writes is cut to the width of its place: the values given to inputs and registers, the
  results of operators, the leaves of selections, and what connections drive.  So the value of every
  ground node is below the power of two of its width, in any circuit, also one that no description has
  made.

  1. `Executed.inRange` says it of one command, `exec_inRange` of a walk, and `run_inRange` of a run, by
     induction on its passes;
  2. every operand that has a value has one of at most 128 bits, within its width (`Prepared.fits`).
-/
import Circuitry.Proofs.Bench.Solution
import Circuitry.Proofs.Folding.Literal
import Circuitry.Proofs.Operator.Numbers

namespace Circuitry

namespace Bench

variable {b : Bench}

/-- The number is one that the node can hold. -/
def Holds (b : Bench) (id : NodeId) (n : Nat) : Prop := ∀ w, b.width id = .ok w → n < 2 ^ w

/-- Every node holds what it can. -/
def InRange (b : Bench) (values : List Nat) : Prop :=
  ∀ id n, nodeValue? values id = some n → b.Holds id n

/-- So does every node, and every driver is one that its target can hold. -/
structure Pass.InRange (b : Bench) (p : Pass) : Prop where
  values : b.InRange p.values
  drivers : ∀ e ∈ p.drivers, b.Holds e.1 e.2

theorem holds_zero (id : NodeId) : b.Holds id 0 := fun w _ => Nat.two_pow_pos w

theorem holds_cut {id : NodeId} {w : Nat} (hw : b.width id = .ok w) (i : Int) :
    b.Holds id (cut w i) := by
  intro w' hw'
  obtain rfl := Except.ok.inj (hw.symm.trans hw')
  exact cut_lt w i

/-- What is looked up among numbers that their nodes can hold. -/
theorem holds_lookup {l : List (NodeId × Nat)} (h : ∀ e ∈ l, b.Holds e.1 e.2) (id : NodeId) :
    b.Holds id ((l.lookup id).getD 0) := by
  cases hl : l.lookup id with
  | none => exact holds_zero id
  | some n => exact h _ (mem_of_lookup hl)

/-! ## One pass -/

theorem Pass.InRange.write {p : Pass} (h : p.InRange b) {id : NodeId} {n : Nat}
    (hn : b.Holds id n) : (p.write id n).InRange b := by
  refine ⟨fun id' m hm => ?_, h.drivers⟩
  by_cases hid : id' = id
  · subst hid
    have hlt : id'.index.toNat < p.values.length := by
      have hwritten := (List.getElem?_eq_some_iff.1 hm).1
      rwa [(sameExcept_write p id' n).length] at hwritten
    rw [nodeValue?_write n hlt] at hm
    exact Option.some.inj hm ▸ hn
  · have hsame := (sameExcept_write p id n).rest id' (by simpa using hid)
    exact h.values id' m (hsame ▸ hm)

theorem Pass.InRange.mark {p : Pass} (h : p.InRange b) (i : Nat) (active : Bool) :
    (p.mark i active).InRange b :=
  ⟨by rw [values_mark]; exact h.values, by rw [drivers_mark]; exact h.drivers⟩

theorem selectLeaves_inRange {i : Nat} {pairs : List (NodeId × Operand)} : ∀ {p p' : Pass},
    b.selectLeaves i pairs p = .ok p' → p.InRange b → p'.InRange b := by
  induction pairs with
  | nil =>
    intro p p' h hp
    obtain rfl := Except.ok.inj h
    exact hp
  | cons pair rest ih =>
    intro p p' h hp
    obtain ⟨v, w, -, hw, hrest⟩ := selectLeaves_cons.1 h
    exact ih hrest (hp.write (holds_cut hw _))

/-- A command writes what its nodes can hold, and drives what its target can. -/
theorem Executed.inRange {active : Bool} {cmd : Command} {p p' : Pass}
    (h : b.Executed active p cmd p') (hp : p.InRange b) : p'.InRange b := by
  cases h with
  | ground _ _ _ width => exact hp.write (holds_cut width _)
  | fields _ _ _ _ _ leaves => exact selectLeaves_inRange leaves hp
  | connect _ width _ =>
    refine ⟨hp.values, fun e he => ?_⟩
    rcases List.mem_cons.1 he with rfl | he
    · exact holds_cut width _
    · exact hp.drivers e he
  | idle _ _ => exact hp

theorem exec_inRange (blk : Block) : ∀ {active : Bool} {p p' : Pass},
    b.exec active blk p = .ok p' → p.InRange b → p'.InRange b := by
  induction blk with
  | empty =>
    intro active p p' h hp
    obtain rfl := Except.ok.inj h
    exact hp
  | command i rest ih =>
    intro active p p' h hp
    obtain ⟨p₁, hsome, hnone, hrest⟩ := exec_command h
    refine ih hrest ?_
    cases hcmd : b.circuit.commands[i]? with
    | none => exact hnone hcmd ▸ hp.mark i active
    | some cmd => exact (hsome cmd hcmd).inRange (hp.mark i active)
  | clause pred i body rest ihb ih =>
    intro active p p' h hp
    obtain ⟨v, p₁, -, hbody, hrest⟩ := exec_clause h
    exact ih hrest (ihb hbody (hp.mark i active))
  | clauseElse pred i body alternative rest ihb iha ih =>
    intro active p p' h hp
    obtain ⟨v, p₁, p₂, -, hbody, halternative, hrest⟩ := exec_clauseElse h
    exact ih hrest (iha halternative (ihb hbody (hp.mark i active)))

/-! ## Whole runs -/

/-- After a pass, nodes hold what they held in it, or what drives them. -/
theorem drive_inRange {p : Pass} (hp : p.InRange b) : b.InRange (b.drive p) := by
  intro id n hn
  obtain ⟨⟨⟨id', m⟩, v⟩, hzip, rfl⟩ := Option.map_eq_some_iff.1 (List.getElem?_map.symm.trans hn)
  obtain ⟨hnumbered, hv⟩ := List.getElem?_zip_eq_some.1 hzip
  obtain rfl : id' = id := Circuit.fst_of_numbered hnumbered
  dsimp only
  split
  · exact holds_lookup hp.drivers id'
  · exact hp.values id' v hv

/-- What inputs and registers have been given has been cut to their widths. -/
theorem Prepared.given_cut {c : Circuit} {gs : List Setting} (h : Prepared c gs b) :
    ∀ e ∈ b.inputs ++ b.state, ∃ (w : Nat) (i : Int), b.width e.1 = .ok w ∧ e.2 = cut w i := by
  induction h with
  | fresh h =>
    obtain ⟨-, -, hinputs, hstate⟩ := of_eq_ok h
    rw [hinputs, hstate]
    exact List.forall_mem_nil _
  | set before g h ih =>
    rw [List.forall_mem_append] at ih ⊢
    -- the widths are those of the circuit, which stays the same
    cases g with
    | input name n =>
      obtain ⟨port, w, -, hw, rfl⟩ := setInput_eq_ok h
      exact ⟨List.forall_mem_cons.2 ⟨⟨w, n, hw, rfl⟩, ih.1⟩, ih.2⟩
    | register name n =>
      obtain ⟨id, w, -, hw, rfl⟩ := setRegister_eq_ok h
      exact ⟨ih.1, List.forall_mem_cons.2 ⟨⟨w, n, hw, rfl⟩, ih.2⟩⟩

/-- So it is what they can hold. -/
theorem Prepared.given_holds {c : Circuit} {gs : List Setting} (h : Prepared c gs b) :
    ∀ e ∈ b.inputs ++ b.state, b.Holds e.1 e.2 := by
  intro e he
  obtain ⟨w, i, hw, hcut⟩ := h.given_cut e he
  rw [hcut]
  exact holds_cut hw i

theorem initial_inRange {c : Circuit} {gs : List Setting} (h : Prepared c gs b) :
    b.InRange b.initial := by
  obtain ⟨hinputs, hstate⟩ := List.forall_mem_append.1 h.given_holds
  intro id n hn
  obtain ⟨⟨id', m⟩, hnumbered, rfl⟩ := Option.map_eq_some_iff.1 (List.getElem?_map.symm.trans hn)
  obtain rfl : id' = id := Circuit.fst_of_numbered hnumbered
  dsimp only
  cases hlookup : b.state.lookup id' with
  | none => exact holds_lookup hinputs id'
  | some n => exact hstate _ (mem_of_lookup hlookup)

/-- **Values in range.**  However a bench has been prepared, a run that comes to rest leaves every node
    with a value within its width. -/
theorem run_inRange {c : Circuit} {gs : List Setting} (h : Prepared c gs b) {e : Settled}
    (hrun : b.run = .ok e) : b.InRange e.values := by
  obtain ⟨p, hrange, -⟩ := Elaborated.settle_induction
    (fun values p hv hexec => drive_inRange (exec_inRange b.block hexec ⟨hv, List.forall_mem_nil _⟩))
    b.passLimit (initial_inRange h) hrun
  exact hrange

/-! ## Operands -/

/-- The nodes that have a width. -/
theorem width_eq_ok {id : NodeId} {w : Nat} : b.width id = .ok w ↔ ∃ n kind W,
    b.circuit.node? id = some n ∧ n.ty = .element kind (.known W) ∧ w = W.toNat := by
  constructor
  · intro h
    unfold width at h
    split at h
    · next W hty =>
      obtain ⟨n, hn, hwidth⟩ := Option.bind_eq_some_iff.1 hty
      cases hnty : n.ty with
      | aggregate fs => simp [hnty, Ty.width?] at hwidth
      | element kind width =>
        obtain rfl : width = .known W := by simpa [hnty, Ty.width?] using hwidth
        exact ⟨n, kind, W, hn, hnty, (Except.ok.inj h).symm⟩
    · cases h
  · rintro ⟨n, kind, W, hn, hty, rfl⟩
    simp [width, hn, hty, Ty.width?]

/-- The value of an operand that is a node. -/
theorem value?_node {values : List Nat} {id : NodeId} {v : Value} :
    b.value? values (.node id) = some v ↔ ∃ n w, b.circuit.node? id = some n ∧
      b.width id = .ok w ∧ v = ⟨valueAt values id, w, n.ty.kind? = some .sint⟩ := by
  rw [← @operand_eq_ok _ _ 0]
  cases hn : b.circuit.node? id with
  | none => simp [operand, hn]
  | some n =>
    cases hw : b.width id <;> simp [operand, hn, hw, bind, Except.bind, pure, Except.pure, eq_comm]

theorem value?_constant {values : List Nat} {k : Constant} {v : Value} :
    b.value? values (.constant k) = some v ↔ constant k = .ok v := by
  rw [← @operand_eq_ok _ _ 0]
  rfl

theorem InRange.valueAt_lt {values : List Nat} (h : b.InRange values) {id : NodeId} {w : Nat}
    (hw : b.width id = .ok w) : valueAt values id < 2 ^ w := by
  rw [valueAt, List.getD_eq_getElem?_getD]
  cases hn : values[id.index.toNat]? with
  | none => exact Nat.two_pow_pos w
  | some n => exact h id n hn w hw

/-- The widths of a bench are those of values. -/
theorem Prepared.width_le {c : Circuit} {gs : List Setting} (h : Prepared c gs b) {id : NodeId}
    {w : Nat} (hw : b.width id = .ok w) : w ≤ Value.maxWidth := by
  obtain ⟨n, kind, W, hn, hty, -⟩ := width_eq_ok.1 hw
  obtain ⟨w', hw', hle⟩ := h.exists_width (h.circuit_eq ▸ hn) ⟨kind, .known W, hty⟩
  obtain rfl := Except.ok.inj (hw.symm.trans hw')
  exact hle

/-- An operand that has a value has one that fits. -/
theorem Prepared.fits {c : Circuit} {gs : List Setting} (h : Prepared c gs b)
    {values : List Nat} (hrange : b.InRange values) {a : Operand} {v : Value}
    (hv : b.value? values a = some v) : v.Fits := by
  cases a with
  | node id =>
    obtain ⟨n, w, -, hw, rfl⟩ := value?_node.1 hv
    exact ⟨hrange.valueAt_lt hw, h.width_le hw⟩
  | constant k =>
    obtain ⟨hle, rfl⟩ := Constant.constant_eq_ok (value?_constant.1 hv)
    exact ⟨Nat.mod_lt _ (Nat.two_pow_pos _), hle⟩
  | aggregate as => cases hv

end Bench

end Circuitry
