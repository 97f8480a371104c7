/-
  What can go wrong in a run.

  A run stops at the first fault.  Either the values never settle, or there is a command that a pass
  cannot take: `CommandFault` lists why, for any bench.

  1. `operand_error` and `execCommand_error` say what is the matter where a command has failed;
  2. `exec_error` and `settle_error` find that command for a pass and for a run;
  3. the other way round, `exec_executed` says that a pass which ends well has executed all it visits.
-/
import Circuitry.Proofs.Bench.Pass

namespace Circuitry

/-- The constant is wider than values can be, by the width `w` that counts for it, or by its bits. -/
def Constant.IsWide (k : Constant) (w : UInt32) : Prop :=
  (w = k.width.get?.getD k.value.width ∧ Value.maxWidth < w.toNat) ∨
    (w = k.value.width ∧ Value.maxWidth < k.value.significantBits)

namespace Bench

variable {b : Bench} {values : List Nat} {i : Nat} {f : Fault}

/-! ## Failing actions -/

theorem bind_eq_error {ε α β : Type} {x : Except ε α} {g : α → Except ε β} {e : ε} :
    x >>= g = .error e ↔ x = .error e ∨ ∃ a, x = .ok a ∧ g a = .error e := by
  cases x <;> simp [bind, Except.bind]

theorem mapM_eq_error {ε α β : Type} {g : α → Except ε β} {e : ε} : ∀ {xs : List α},
    xs.mapM g = .error e → ∃ x ∈ xs, g x = .error e
  | [], h => by cases h
  | x :: xs, h => by
    rw [List.mapM_cons] at h
    rcases bind_eq_error.1 h with hx | ⟨y, -, h⟩
    · exact ⟨x, List.mem_cons_self .., hx⟩
    rcases bind_eq_error.1 h with hxs | ⟨ys, -, h⟩
    · obtain ⟨x', hx', hfail⟩ := mapM_eq_error hxs
      exact ⟨x', List.mem_cons_of_mem _ hx', hfail⟩
    · cases h

theorem forM_eq_error {ε α : Type} {g : α → Except ε Unit} {e : ε} : ∀ {xs : List α},
    xs.forM g = .error e → ∃ x ∈ xs, g x = .error e
  | [], h => by cases h
  | x :: xs, h => by
    rcases bind_eq_error.1 h with hx | ⟨⟨⟩, -, h⟩
    · exact ⟨x, List.mem_cons_self .., hx⟩
    · obtain ⟨x', hx', hfail⟩ := forM_eq_error h
      exact ⟨x', List.mem_cons_of_mem _ hx', hfail⟩

/-! ## Single commands -/

/-- The node has no width, since it is missing or an aggregate, or its width is open. -/
def Unsized (b : Bench) (id : NodeId) : Prop := ∀ w, b.width id ≠ .ok w

theorem width_error {id : NodeId} (h : b.width id = .error f) :
    f = .danglingNode id ∧ b.Unsized id := by
  constructor
  · unfold width at h
    split at h
    · cases h
    · exact (Except.error.inj h).symm
  · intro w hw
    rw [hw] at h
    cases h

/-- Why an operand of the command at a position has no value. -/
inductive OperandFault (b : Bench) (i : Nat) : Operand → Fault → Prop
  | node {id : NodeId} (unsized : b.Unsized id) : OperandFault b i (.node id) (.danglingNode id)
  | constant {k : Constant} {w : UInt32} (wide : k.IsWide w) :
      OperandFault b i (.constant k) (.tooWide w)
  | aggregate (as : List Operand) :
      OperandFault b i (.aggregate as) (.malformedOperands i .mux)

theorem constant_error {k : Constant} (h : constant k = .error f) :
    ∃ w, k.IsWide w ∧ f = .tooWide w := by
  unfold constant at h
  dsimp only at h
  split at h
  · next hwidth => exact ⟨_, .inl ⟨rfl, hwidth⟩, (Except.error.inj h).symm⟩
  split at h
  · next hnone =>
    refine ⟨_, .inr ⟨rfl, ?_⟩, (Except.error.inj h).symm⟩
    unfold Bits.toUnsigned? at hnone
    split at hnone
    · cases hnone
    · next hbits => exact Nat.lt_of_not_le hbits
  · cases h

theorem operand_error {a : Operand} (h : b.operand values i a = .error f) :
    b.OperandFault i a f := by
  cases a with
  | node id =>
    simp only [operand] at h
    split at h
    · next hnode =>
      obtain rfl := Except.error.inj h
      refine .node fun w hw => ?_
      simp [width, hnode] at hw
    · next n hnode =>
      rcases bind_eq_error.1 h with hw | ⟨w, -, h⟩
      · obtain ⟨rfl, hunsized⟩ := width_error hw
        exact .node hunsized
      · cases h
  | constant k =>
    obtain ⟨w, hwide, rfl⟩ := constant_error h
    exact .constant hwide
  | aggregate as =>
    obtain rfl := Except.error.inj h
    exact .aggregate as

/-- The operands suit the leaves of an aggregate result. -/
structure Selects (b : Bench) (result : NodeId) (op : Operator) (args : List Operand) (cond : Operand)
    (t f : List Operand) : Prop where
  op_eq : op = .mux
  args_eq : args = [cond, .aggregate t, .aggregate f]
  leaves : b.circuit.fieldNodes result ≠ []
  whenTrue : t.length = (b.circuit.fieldNodes result).length
  whenFalse : f.length = (b.circuit.fieldNodes result).length

/-- Why the command at a position cannot be taken. -/
inductive CommandFault (b : Bench) (i : Nat) : Command → Fault → Prop
  | arity {result : NodeId} {op : Operator} {args : List Operand} (wrong : args.length ≠ op.arity) :
      CommandFault b i (.defPrim result op args) (.malformedOperands i op)
  | missing {result : NodeId} {op : Operator} {args : List Operand}
      (missing : b.circuit.node? result = none) :
      CommandFault b i (.defPrim result op args) (.danglingNode result)
  | operand {result : NodeId} {op : Operator} {args : List Operand} {n : Node} {a : Operand}
      {f : Fault} (node : b.circuit.node? result = some n) (ground : n.IsGround) (mem : a ∈ args)
      (fault : b.OperandFault i a f) : CommandFault b i (.defPrim result op args) f
  | unsized {result : NodeId} {op : Operator} {args : List Operand} {n : Node}
      (node : b.circuit.node? result = some n) (ground : n.IsGround) (unsized : b.Unsized result) :
      CommandFault b i (.defPrim result op args) (.danglingNode result)
  | shape {result : NodeId} {op : Operator} {args : List Operand} {n : Node}
      (node : b.circuit.node? result = some n) (fields : ¬ n.IsGround)
      (unsuited : ∀ cond t f, ¬ b.Selects result op args cond t f) :
      CommandFault b i (.defPrim result op args) (.malformedOperands i op)
  | leaf {result : NodeId} {n : Node} {cond a : Operand} {ts fs : List Operand} {f : Fault}
      (node : b.circuit.node? result = some n) (fields : ¬ n.IsGround)
      (mem : a ∈ cond :: (ts ++ fs)) (fault : b.OperandFault i a f) :
      CommandFault b i (.defPrim result .mux [cond, .aggregate ts, .aggregate fs]) f
  | unsizedLeaf {result leaf : NodeId} {op : Operator} {args : List Operand}
      (mem : leaf ∈ b.circuit.fieldNodes result) (unsized : b.Unsized leaf) :
      CommandFault b i (.defPrim result op args) (.danglingNode leaf)
  | target {target : NodeId} {source : Operand} (unsized : b.Unsized target) :
      CommandFault b i (.connect target source) (.danglingNode target)
  | source {target : NodeId} {source : Operand} {f : Fault} (fault : b.OperandFault i source f) :
      CommandFault b i (.connect target source) f
  | predicate {pred : Operand} {depth : UInt32} {f : Fault} (fault : b.OperandFault i pred f) :
      CommandFault b i (.whenBegin pred depth) f

/-- A selection of leaves fails at an operand or at a leaf. -/
theorem selectLeaves_error {pairs : List (NodeId × Operand)} : ∀ {p : Pass},
    b.selectLeaves i pairs p = .error f → (∃ pair ∈ pairs, b.OperandFault i pair.2 f) ∨
      ∃ pair ∈ pairs, f = .danglingNode pair.1 ∧ b.Unsized pair.1 := by
  induction pairs with
  | nil => exact nofun
  | cons pair rest ih =>
    intro p h
    rcases bind_eq_error.1 h with hv | ⟨v, -, h⟩
    · exact .inl ⟨pair, List.mem_cons_self .., operand_error hv⟩
    rcases bind_eq_error.1 h with hw | ⟨w, -, h⟩
    · exact .inr ⟨pair, List.mem_cons_self .., width_error hw⟩
    rcases ih h with ⟨q, hq, hfault⟩ | ⟨q, hq, hfault⟩
    · exact .inl ⟨q, List.mem_cons_of_mem _ hq, hfault⟩
    · exact .inr ⟨q, List.mem_cons_of_mem _ hq, hfault⟩

theorem execAggregate_error {result : NodeId} {op : Operator} {args : List Operand} {n : Node}
    {p : Pass} (node : b.circuit.node? result = some n) (fields : ¬ n.IsGround)
    (h : b.execAggregate i result op args p = .error f) :
    b.CommandFault i (.defPrim result op args) f := by
  unfold execAggregate at h
  split at h
  · next cond t f' =>
    dsimp only at h
    by_cases hempty : (b.circuit.fieldNodes result).isEmpty = true
    · rw [if_pos hempty] at h
      obtain rfl := Except.error.inj h
      exact .shape node fields fun _ _ _ hs => hs.leaves (List.isEmpty_iff.1 hempty)
    rw [if_neg hempty] at h
    by_cases hlen : t.length ≠ (b.circuit.fieldNodes result).length ∨
        f'.length ≠ (b.circuit.fieldNodes result).length
    · rw [if_pos hlen] at h
      obtain rfl := Except.error.inj h
      refine .shape node fields fun _ _ _ hs => ?_
      obtain ⟨rfl, rfl, rfl⟩ : cond = _ ∧ t = _ ∧ f' = _ := by simpa using hs.args_eq
      rcases hlen with hlen | hlen
      · exact hlen hs.whenTrue
      · exact hlen hs.whenFalse
    rw [if_neg hlen] at h
    rcases bind_eq_error.1 h with hcond | ⟨c, -, h⟩
    · exact .leaf node fields (List.mem_cons_self ..) (operand_error hcond)
    rcases selectLeaves_error h with ⟨pair, hpair, hfault⟩ | ⟨pair, hpair, rfl, hunsized⟩
    · refine .leaf node fields (List.mem_cons_of_mem _ (List.mem_append.2 ?_)) hfault
      have hsource := (List.of_mem_zip hpair).2
      split at hsource
      · exact .inl hsource
      · exact .inr hsource
    · exact .unsizedLeaf (List.of_mem_zip hpair).1 hunsized
  · next hshape =>
    obtain rfl := Except.error.inj h
    exact .shape node fields fun cond t f' hs => hshape cond t f' hs.op_eq hs.args_eq

theorem execCommand_error {active : Bool} {cmd : Command} {p : Pass}
    (h : b.execCommand i active cmd p = .error f) : b.CommandFault i cmd f := by
  cases cmd with
  | defPrim result op args =>
    simp only [execCommand] at h
    split at h
    · next harity =>
      obtain rfl := Except.error.inj h
      exact .arity harity
    split at h
    · next hnode =>
      obtain rfl := Except.error.inj h
      exact .missing hnode
    · next fs role name origin loc hnode =>
      exact execAggregate_error hnode (Node.not_isGround rfl) h
    · next n hnot hnode =>
      have hground : n.IsGround := Node.isGround_of_ne hnot
      rcases bind_eq_error.1 h with hargs | ⟨vs, -, h⟩
      · obtain ⟨a, ha, hfail⟩ := mapM_eq_error hargs
        exact .operand hnode hground ha (operand_error hfail)
      rcases bind_eq_error.1 h with hw | ⟨w, -, h⟩
      · obtain ⟨rfl, hunsized⟩ := width_error hw
        exact .unsized hnode hground hunsized
      · cases h
  | connect target source =>
    simp only [execCommand] at h
    split at h
    · rcases bind_eq_error.1 h with hw | ⟨w, -, h⟩
      · obtain ⟨rfl, hunsized⟩ := width_error hw
        exact .target hunsized
      rcases bind_eq_error.1 h with hv | ⟨v, -, h⟩
      · exact .source (operand_error hv)
      · cases h
    · cases h
  | _ => cases h

/-! ## Passes and runs -/

/-- Why a pass cannot go on where it has come by. -/
def VisitFault (b : Bench) : Visit → Fault → Prop
  | (i, none), f => ∃ cmd, b.circuit.commands[i]? = some cmd ∧ b.CommandFault i cmd f
  | (i, some pred), f => b.OperandFault i pred f

/-- A pass fails at something that it visits. -/
theorem exec_error (blk : Block) : ∀ {active : Bool} {p : Pass},
    b.exec active blk p = .error f → ∃ v ∈ blk.visits, b.VisitFault v f := by
  induction blk with
  | empty => exact nofun
  | command i rest ih =>
    intro active p h
    have hrest : ∀ {p₁ : Pass}, b.exec active rest p₁ = .error f →
        ∃ v ∈ (Block.command i rest).visits, b.VisitFault v f := by
      intro p₁ h
      obtain ⟨v, hv, hfault⟩ := ih h
      exact ⟨v, List.mem_cons_of_mem _ hv, hfault⟩
    simp only [exec] at h
    split at h
    · rcases bind_eq_error.1 h with hp | ⟨p₁, -, h⟩
      · cases hp
      · exact hrest h
    · next cmd hat =>
      rcases bind_eq_error.1 h with hcmd | ⟨p₁, -, h⟩
      · exact ⟨(i, none), List.mem_cons_self .., cmd, hat, execCommand_error hcmd⟩
      · exact hrest h
  | clause pred i body rest ihb ih =>
    intro active p h
    unfold exec at h
    rcases bind_eq_error.1 h with hpred | ⟨c, -, h⟩
    · exact ⟨(i, some pred), List.mem_cons_self .., operand_error hpred⟩
    rcases bind_eq_error.1 h with hbody | ⟨p₁, -, h⟩
    · obtain ⟨v, hv, hfault⟩ := ihb hbody
      exact ⟨v, List.mem_cons_of_mem _ (List.mem_append_left _ hv), hfault⟩
    · obtain ⟨v, hv, hfault⟩ := ih h
      exact ⟨v, List.mem_cons_of_mem _ (List.mem_append_right _ hv), hfault⟩
  | clauseElse pred i body alternative rest ihb iha ih =>
    intro active p h
    unfold exec at h
    rcases bind_eq_error.1 h with hpred | ⟨c, -, h⟩
    · exact ⟨(i, some pred), List.mem_cons_self .., operand_error hpred⟩
    rcases bind_eq_error.1 h with hbody | ⟨p₁, -, h⟩
    · obtain ⟨v, hv, hfault⟩ := ihb hbody
      exact ⟨v, by simp [Block.visits, hv], hfault⟩
    rcases bind_eq_error.1 h with halternative | ⟨p₂, -, h⟩
    · obtain ⟨v, hv, hfault⟩ := iha halternative
      exact ⟨v, by simp [Block.visits, hv], hfault⟩
    · obtain ⟨v, hv, hfault⟩ := ih h
      exact ⟨v, by simp [Block.visits, hv], hfault⟩

/-- A run fails for want of passes, or at something that its passes visit. -/
theorem settle_error : ∀ {left : Nat} {values : List Nat}, b.settle left values = .error f →
    f = .noConvergence b.passLimit ∨ ∃ v ∈ b.block.visits, b.VisitFault v f
  | 0, values, h => .inl (Except.error.inj h).symm
  | left + 1, values, h => by
    unfold settle at h
    rcases bind_eq_error.1 h with hexec | ⟨p, -, h⟩
    · exact .inr (exec_error _ hexec)
    dsimp only at h
    split at h
    · cases h
    · exact settle_error h

/-- What a pass has got past, it has executed. -/
theorem exec_executed (blk : Block) {i : Nat} {cmd : Command}
    (hcmd : b.circuit.commands[i]? = some cmd) : ∀ {active : Bool} {p p' : Pass},
    b.exec active blk p = .ok p' → (i, none) ∈ blk.visits →
      ∃ active' q q', b.Executed active' q cmd q' := by
  induction blk with
  | empty => exact fun _ hv => nomatch hv
  | command j rest ih =>
    intro active p p' h hv
    obtain ⟨p₁, hsome, -, hrest⟩ := exec_command h
    rcases List.mem_cons.1 hv with heq | hv
    · obtain rfl : i = j := (Prod.mk.inj heq).1
      exact ⟨_, _, _, hsome cmd hcmd⟩
    · exact ih hrest hv
  | clause pred j body rest ihb ih =>
    intro active p p' h hv
    obtain ⟨v, p₁, -, hbody, hrest⟩ := exec_clause h
    rcases List.mem_cons.1 hv with heq | hv
    · cases heq
    rcases List.mem_append.1 hv with hv | hv
    · exact ihb hbody hv
    · exact ih hrest hv
  | clauseElse pred j body alternative rest ihb iha ih =>
    intro active p p' h hv
    obtain ⟨v, p₁, p₂, -, hbody, halternative, hrest⟩ := exec_clauseElse h
    rcases List.mem_cons.1 hv with heq | hv
    · cases heq
    rcases List.mem_append.1 hv with hv | hv
    · exact ihb hbody hv
    rcases List.mem_append.1 hv with hv | hv
    · exact iha halternative hv
    · exact ih hrest hv

theorem OperandFault.ne_noConvergence {a : Operand} (h : b.OperandFault i a f) (passes : Nat) :
    f ≠ .noConvergence passes := by
  cases h <;> exact nofun

theorem CommandFault.ne_noConvergence {cmd : Command} (h : b.CommandFault i cmd f) (passes : Nat) :
    f ≠ .noConvergence passes := by
  cases h with
  | operand _ _ _ fault => exact fault.ne_noConvergence passes
  | leaf _ _ _ fault => exact fault.ne_noConvergence passes
  | source fault => exact fault.ne_noConvergence passes
  | predicate fault => exact fault.ne_noConvergence passes
  | _ => exact nofun

/-- A single pass does not run out of passes. -/
theorem exec_ne_noConvergence {blk : Block} {active : Bool} {p : Pass} (passes : Nat) :
    b.exec active blk p ≠ .error (.noConvergence passes) := by
  intro h
  obtain ⟨⟨i, pred⟩, -, hfault⟩ := exec_error blk h
  cases pred with
  | none =>
    obtain ⟨cmd, -, hfault⟩ := hfault
    exact hfault.ne_noConvergence passes rfl
  | some pred => exact OperandFault.ne_noConvergence hfault passes rfl

end Bench

end Circuitry
