/-
  Reading a layout back from its stream.

  `Block.ofCommands` scans a flat stream with a stack and a look-behind of one command.  The stream
  of a layout is read back to exactly the nesting that was laid down (`ofCommands_commands`).

  The scan of a layout inside a longer stream changes one thing: the block being read grows by the
  layout's block.  It may end with a clause that is still apart from its block, so the statement is
  about the reader once it is settled.  What follows a clause closes several else-regions with one
  command; its statement says that the whole of it acts like putting the finished clause into the
  present block and then closing the else-regions of the chain that were open before
  (`Ends`).
-/
import Circuitry.Proofs.Nesting.Reader

namespace Circuitry.Region.Reader

/-! ## Streams that add to the present block -/

/-- Read at position `n`, the commands add `b` to the present block, whatever was read before. -/
def Adds (n : Nat) (cmds : List Command) (b : Block) : Prop :=
  ∀ r : Reader, ∃ r', r.run n cmds = .ok r' ∧ r'.settle = r.settle.grow b

/-- The same for a present block that is the body of an else-region, if a depth is given: what is read
    may rely on the depth. -/
def AddsIn (inside : Option UInt32) (n : Nat) (cmds : List Command) (b : Block) : Prop :=
  ∀ r : Reader, (∀ depth, inside = some depth → r.settle.insideElse depth = true) →
    ∃ r', r.run n cmds = .ok r' ∧ r'.settle = r.settle.grow b

theorem Adds.inside {n : Nat} {cmds : List Command} {b : Block} (h : Adds n cmds b)
    (inside : Option UInt32) : AddsIn inside n cmds b := fun r _ => h r

theorem AddsIn.adds {n : Nat} {cmds : List Command} {b : Block} (h : AddsIn none n cmds b) :
    Adds n cmds b := fun r => h r fun _ hd => by cases hd

theorem AddsIn.append {inside : Option UInt32} {n : Nat} {xs ys : List Command} {a b : Block}
    (hx : AddsIn inside n xs a) (hy : AddsIn inside (n + xs.length) ys b) :
    AddsIn inside n (xs ++ ys) (a ++ b) := by
  intro r hr
  obtain ⟨r₁, h₁, hs₁⟩ := hx r hr
  obtain ⟨r₂, h₂, hs₂⟩ := hy r₁ fun depth hd => by
    rw [hs₁]
    exact hr depth hd
  refine ⟨r₂, ?_, ?_⟩
  · rw [run_append_of_ok ys h₁, h₂]
  · rw [hs₂, hs₁, grow_grow]

theorem adds_nil (n : Nat) : Adds n [] .empty :=
  fun r => ⟨r, rfl, (settle_grow_empty r).symm⟩

theorem Adds.append {n : Nat} {xs ys : List Command} {a b : Block} (hx : Adds n xs a)
    (hy : Adds (n + xs.length) ys b) : Adds n (xs ++ ys) (a ++ b) :=
  ((hx.inside none).append (hy.inside none)).adds

theorem adds_plain (n : Nat) {cmd : Command} (h : cmd.isControl = false) :
    Adds n [cmd] (.command n .empty) := by
  intro r
  refine ⟨r.settle.grow (.command n .empty), ?_, settle_grow _ _⟩
  rw [run_cons_of_ok [] (step_iff.2 (.plain h))]
  rfl

/-- A body between the two commands of its region is read as a clause just closed. -/
theorem run_clauseCommands {r : Reader} {n : Nat} {p : Operand} {depth : UInt32}
    {body : List Command} {b : Block} (hopen : depth = 0 ∨ r.settle.insideElse depth)
    (hbody : Adds (n + 1) body b) :
    r.run n (Layout.clauseCommands p depth body) =
      .ok ⟨r.settle.stack, r.settle.block, some ⟨p, n, b, depth⟩⟩ := by
  obtain ⟨r₁, h₁, hs₁⟩ := hbody (r.settle.enter (.thenRegion p n depth))
  have hstack : r₁.settle.stack = (.thenRegion p n depth, r.settle.block) :: r.settle.stack := by
    rw [hs₁]
    rfl
  have hblock : r₁.settle.block = b := by
    rw [hs₁]
    exact Block.empty_append b
  rw [Layout.clauseCommands, run_cons_of_ok _ (step_iff.2 (.whenBegin hopen)),
    run_append_of_ok _ h₁, run_cons_of_ok _ (step_iff.2 (.whenEnd hstack)), hblock]
  rfl

/-! ## Whole layouts -/

/-- A clause just closed, put into the present block together with its else-part. -/
def complete (r : Reader) (c : Clause) (alternative : Option Block) : Reader :=
  r.grow (Layout.arm c.pred c.begun c.body alternative)

/-- What follows a clause, read behind that clause: it completes the clause and closes the
    else-regions that the chain had open before. -/
def Ends (depth : UInt32) (n : Nat) (cmds : List Command) (alternative : Option Block) : Prop :=
  ∀ (r : Reader) (c : Clause) (q : Reader), r.closed = some c → c.depth.toNat + 1 = depth.toNat →
    closeElses n (depth.toNat - 1) (r.complete c alternative) = .ok q →
    ∃ r', r.run n cmds = .ok r' ∧ r'.settle = q.settle

theorem ends_close (depth : UInt32) (n : Nat) :
    Ends depth n (Layout.Tail.commands depth .close) none := by
  intro r c q hc hd hq
  have hs : r.settle = r.complete c none := by
    unfold settle
    rw [hc]
    rfl
  rw [Layout.Tail.commands]
  -- a chain of a single clause has no else-region to close
  by_cases h : 1 < depth
  · have hpos : 1 < depth.toNat := h
    have hsub : (depth - 1).toNat = depth.toNat - 1 := by
      rw [UInt32.toNat_sub_of_le _ _ (UInt32.le_iff_toNat_le.2 (by simpa using Nat.le_of_lt hpos))]
      rfl
    have hne : depth - 1 ≠ 0 := by
      intro h0
      have := congrArg UInt32.toNat h0
      rw [hsub] at this
      simp at this
      omega
    have hcloses : Closes (depth - 1).toNat r.settle q := by
      rw [hs, hsub]
      exact closeElses_iff.1 hq
    rw [if_pos h, run_cons_of_ok [] (step_iff.2 (.otherwiseEnd hne hcloses))]
    exact ⟨q, rfl, rfl⟩
  · have h1 : depth.toNat - 1 = 0 := by
      have : ¬ 1 < depth.toNat := h
      omega
    rw [if_neg h]
    rw [h1] at hq
    obtain rfl : r.complete c none = q := by injection hq
    exact ⟨r, rfl, by rw [hs]; rfl⟩

/-- Opening the else-region of the clause just closed. -/
theorem run_altBegin {r : Reader} {c : Clause} {depth : UInt32} (n : Nat) (cmds : List Command)
    (hc : r.closed = some c) (hd : c.depth.toNat + 1 = depth.toNat) :
    r.run n (.altBegin depth :: cmds) =
      run ⟨(.elseRegion c depth, r.block) :: r.stack, .empty, none⟩ (n + 1) cmds :=
  run_cons_of_ok cmds (step_iff.2 (.altBegin hc hd))

/-- With its else-part read, a clause is complete: its else-region can be closed wherever those of the
    chain before it can be. -/
theorem closes_inside {n : Nat} {r q : Reader} {c : Clause} {depth : UInt32} {b : Block}
    {closed : Option Clause} (hd : c.depth.toNat + 1 = depth.toNat)
    (hq : closeElses n (depth.toNat - 1) (r.complete c (some b)) = .ok q) :
    Closes depth.toNat ⟨(.elseRegion c depth, r.block) :: r.stack, b, closed⟩ q := by
  have hrest := closeElses_iff.1 hq
  rw [← hd, Nat.add_sub_cancel] at hrest
  rw [← hd]
  exact .next hd.symm hrest

/-- An else-region just opened is where its body is read. -/
theorem insideElse_opened (r : Reader) (c : Clause) (depth : UInt32) : ∀ d, some depth = some d →
    (settle ⟨(.elseRegion c depth, r.block) :: r.stack, .empty, none⟩).insideElse d = true := by
  rintro d ⟨⟩
  exact beq_self_eq_true depth

theorem ends_otherwise {depth : UInt32} {n : Nat} {body : List Command} {b : Block}
    (hbody : AddsIn (some depth) (n + 1) body b) :
    Ends depth n (.altBegin depth :: (body ++ [.otherwiseEnd depth])) (some b) := by
  intro r c q hc hd hq
  obtain ⟨r₁, h₁, hs₁⟩ := hbody _ (insideElse_opened r c depth)
  have hne : depth ≠ 0 := by
    rintro rfl
    simp at hd
  have hcloses : Closes depth.toNat r₁.settle q := by
    rw [hs₁]
    exact closes_inside hd hq
  refine ⟨q, ?_, rfl⟩
  rw [run_altBegin n _ hc hd, run_append_of_ok _ h₁,
    run_cons_of_ok [] (step_iff.2 (.otherwiseEnd hne hcloses))]
  rfl

theorem ends_elseWhen {depth : UInt32} {n : Nat} {pred : Operand} {cond body tail : List Command}
    {bc bb : Block} {alternative : Option Block} (hnext : (depth + 1).toNat = depth.toNat + 1)
    (hcond : AddsIn (some depth) (n + 1) cond bc)
    (hbody : Adds (n + 1 + cond.length + 1) body bb)
    (htail : Ends (depth + 1) (n + 1 + cond.length + (body.length + 2)) tail alternative) :
    Ends depth n (.altBegin depth :: (cond ++ (Layout.clauseCommands pred depth body ++ tail)))
      (some (bc ++ Layout.arm pred (n + 1 + cond.length) bb alternative)) := by
  intro r c q hc hd hq
  obtain ⟨r₁, h₁, hs₁⟩ := hcond _ (insideElse_opened r c depth)
  have hinside : r₁.settle.insideElse depth = true := by
    rw [hs₁]
    exact beq_self_eq_true depth
  have hclause := run_clauseCommands (p := pred) (Or.inr hinside) hbody
  -- the regions that are closed are the one of this else-part and those of the chain before it
  have hclose : closeElses (n + 1 + cond.length + (body.length + 2)) ((depth + 1).toNat - 1)
      (complete ⟨r₁.settle.stack, r₁.settle.block, some ⟨pred, n + 1 + cond.length, bb, depth⟩⟩
        ⟨pred, n + 1 + cond.length, bb, depth⟩ alternative) = .ok q := by
    rw [hs₁, hnext, Nat.add_sub_cancel]
    exact closeElses_iff.2 (closes_inside hd hq)
  obtain ⟨r', h', hs'⟩ := htail _ _ q rfl hnext.symm hclose
  refine ⟨r', ?_, hs'⟩
  rw [run_altBegin n _ hc hd, run_append_of_ok _ h₁, run_append_of_ok _ hclause,
    Layout.length_clauseCommands, h']

/-- A chain adds the commands of its first condition, and the clause with all that follows. -/
theorem adds_chain {n : Nat} {p : Operand} {cond body tail : List Command} {bc bb : Block}
    {alternative : Option Block} (hcond : Adds n cond bc)
    (hbody : Adds (n + cond.length + 1) body bb)
    (htail : Ends 1 (n + cond.length + (body.length + 2)) tail alternative) :
    Adds n (cond ++ (Layout.clauseCommands p 0 body ++ tail))
      (bc ++ Layout.arm p (n + cond.length) bb alternative) := by
  intro r
  obtain ⟨r₁, h₁, hs₁⟩ := hcond r
  have hclause := run_clauseCommands (r := r₁) (p := p) (Or.inl rfl) hbody
  obtain ⟨r', h', hs'⟩ := htail
    ⟨r₁.settle.stack, r₁.settle.block, some ⟨p, n + cond.length, bb, 0⟩⟩ _ _ rfl rfl rfl
  refine ⟨r', ?_, ?_⟩
  · rw [run_append_of_ok _ h₁, run_append_of_ok _ hclause, Layout.length_clauseCommands, h']
  · rw [hs', hs₁]
    simp [complete, grow, settle, Block.append_assoc]

/-- The next depth, as long as no depth of the chain leaves 32 bits. -/
theorem toNat_succ {d : UInt32} (h : d.toNat + 1 < 2 ^ 32) :
    (d + 1).toNat = d.toNat + 1 := by
  rw [UInt32.toNat_add]
  exact Nat.mod_eq_of_lt h

mutual

/-- **Readback.**  The stream of a layout adds the layout's nesting to the present block. -/
theorem adds_layout : ∀ (l : Layout) (n : Nat), l.Counted → Adds n l.commands (l.block n)
  | .done, n, _ => adds_nil n
  | .command cmd plain rest, n, h => (adds_plain n plain).append (adds_layout rest (n + 1) h)
  | .chain cond pred body tail rest, n, h => by
    obtain ⟨hc, hb, ht, hr⟩ := h
    have hcond := adds_layout cond n hc
    have hbody := adds_layout body (n + cond.commands.length + 1) hb
    have htail := ends_tail tail 1 (Layout.clauseEnd (n + cond.commands.length) body) ht
    have hrest := adds_layout rest
      (Layout.clauseEnd (n + cond.commands.length) body + (tail.commands 1).length) hr
    have hchain := adds_chain (p := pred) hcond hbody htail
    simp only [Layout.commands, Layout.block]
    -- the four parts of the chain go together, and the rest of the layout follows them
    rw [← List.append_assoc, ← List.append_assoc, ← Block.append_assoc]
    rw [List.append_assoc cond.commands]
    refine hchain.append ?_
    have hlen : n + (cond.commands ++ (Layout.clauseCommands pred 0 body.commands ++
        tail.commands 1)).length =
        Layout.clauseEnd (n + cond.commands.length) body + (tail.commands 1).length := by
      simp only [List.length_append, Layout.length_clauseCommands, Layout.clauseEnd]
      omega
    rw [hlen]
    exact hrest

/-- What follows `depth` clauses completes the last of them and closes the rest of the chain. -/
theorem ends_tail : ∀ (t : Layout.Tail) (depth : UInt32) (n : Nat), t.Counted depth.toNat →
    Ends depth n (t.commands depth) (t.alternative n)
  | .close, depth, n, _ => ends_close depth n
  | .otherwise body, depth, n, h => ends_otherwise ((adds_layout body (n + 1) h).inside _)
  | .elseWhen cond pred body tail, depth, n, h => by
    obtain ⟨hlt, hc, hb, ht⟩ := h
    have hnext := toNat_succ (d := depth) hlt
    rw [← hnext] at ht
    have hcond := adds_layout cond (n + 1) hc
    have hbody := adds_layout body (n + 1 + cond.commands.length + 1) hb
    have htail := ends_tail tail (depth + 1)
      (Layout.clauseEnd (n + 1 + cond.commands.length) body) ht
    exact ends_elseWhen hnext (hcond.inside _) hbody htail

end

end Circuitry.Region.Reader

namespace Circuitry.Block

/-- Reading back the stream of a layout gives the nesting that was laid down. -/
theorem ofCommands_commands (l : Layout) (h : l.Counted) :
    ofCommands l.commands = .ok (l.block 0) := by
  obtain ⟨r, hr, hs⟩ := Region.Reader.adds_layout l 0 h Region.Reader.start
  have hstack : r.stack = [] := by
    rw [← Region.Reader.stack_settle, hs]
    rfl
  refine ofCommands_eq_ok.2 ⟨r, hr, hstack, ?_⟩
  rw [hs]
  rfl

end Circuitry.Block
