/-
  The reader of a stream, step by step.

  What a command can do to the reader is said once.  `Takes` has a case for commands that mark no
  region and one for each kind of marker, with all that the reader asks of it, and `Closes` is the
  closing of several else-regions by one command.  These are all the steps that the reader takes
  (`closeElses_iff`, `step_iff`), so what every step keeps is shown by their cases.
-/
import Circuitry.Proofs.Nesting.Layout

namespace Circuitry

namespace Region.Reader

/-! ## Settling -/

@[simp] theorem settle_closed (r : Reader) : r.settle.closed = none := by
  unfold settle
  split <;> simp_all

theorem stack_settle (r : Reader) : r.settle.stack = r.stack := by
  unfold settle
  split <;> rfl

theorem settle_of_closed (r : Reader) (h : r.closed = none) : r.settle = r := by
  unfold settle
  rw [h]

/-- A clause settles into its block without an else-part. -/
theorem settle_some (stack : List (Opened × Block)) (block : Block) (c : Clause) :
    settle ⟨stack, block, some c⟩ = ⟨stack, block ++ .clause c.pred c.begun c.body .empty, none⟩ :=
  rfl

/-- A reader with a longer block. -/
def grow (r : Reader) (b : Block) : Reader := ⟨r.stack, r.block ++ b, none⟩

@[simp] theorem grow_stack (r : Reader) (b : Block) : (r.grow b).stack = r.stack := rfl

@[simp] theorem grow_block (r : Reader) (b : Block) : (r.grow b).block = r.block ++ b := rfl

@[simp] theorem settle_grow (r : Reader) (b : Block) : (r.grow b).settle = r.grow b := rfl

@[simp] theorem grow_grow (r : Reader) (a b : Block) : (r.grow a).grow b = r.grow (a ++ b) := by
  simp [grow, Block.append_assoc]

theorem settle_grow_empty (r : Reader) : r.settle.grow .empty = r.settle := by
  have h := r.settle_closed
  simp only [grow, Block.append_empty]
  cases hs : r.settle
  simp_all

/-! ## Single steps -/

/-- Closing so many else-regions, from the inside out: each puts its clause, now complete, into the
    block around it. -/
inductive Closes : Nat → Reader → Reader → Prop
  | none (r : Reader) : Closes 0 r r
  | next {n : Nat} {c : Clause} {depth : UInt32} {outer block : Block}
      {stack : List (Opened × Block)} {closed : Option Clause} {q : Reader}
      (innermost : depth.toNat = n + 1)
      (rest : Closes n ⟨stack, outer ++ .clauseElse c.pred c.begun c.body block .empty, none⟩ q) :
      Closes (n + 1) ⟨(.elseRegion c depth, outer) :: stack, block, closed⟩ q

theorem closeElses_iff {i n : Nat} {r q : Reader} : closeElses i n r = .ok q ↔ Closes n r q := by
  constructor
  · intro h
    induction n generalizing r with
    | zero =>
      obtain rfl := Except.ok.inj h
      exact .none r
    | succ n ih =>
      obtain ⟨stack, block, closed⟩ := r
      unfold closeElses at h
      split at h
      · next c depth outer rest hs =>
        obtain rfl := hs
        split at h
        · next innermost => exact .next innermost (ih h)
        · cases h
      · cases h
  · intro h
    induction h with
    | none r => rfl
    | next innermost rest ih =>
      simp only [closeElses]
      rw [if_pos innermost]
      exact ih

/-- What the command at a position does to the reader. -/
inductive Takes (r : Reader) (i : Nat) : Command → Reader → Prop
  | plain {cmd : Command} (plain : cmd.isControl = false) :
      Takes r i cmd (r.settle.grow (.command i .empty))
  | whenBegin {pred : Operand} {depth : UInt32}
      (stands : depth = 0 ∨ r.settle.insideElse depth = true) :
      Takes r i (.whenBegin pred depth) (r.settle.enter (.thenRegion pred i depth))
  | whenEnd {pred : Operand} {begun : Nat} {depth : UInt32} {outer : Block}
      {stack : List (Opened × Block)}
      (innermost : r.settle.stack = (.thenRegion pred begun depth, outer) :: stack) :
      Takes r i (.whenEnd depth) ⟨stack, outer, some ⟨pred, begun, r.settle.block, depth⟩⟩
  | altBegin {c : Clause} {depth : UInt32} (follows : r.closed = some c)
      (succ : c.depth.toNat + 1 = depth.toNat) :
      Takes r i (.altBegin depth) (r.enter (.elseRegion c depth))
  | otherwiseEnd {depth : UInt32} {q : Reader} (nonzero : depth ≠ 0)
      (closes : Closes depth.toNat r.settle q) : Takes r i (.otherwiseEnd depth) q

theorem takes_of_step {r q : Reader} {i : Nat} {cmd : Command} (h : r.step i cmd = .ok q) :
    Takes r i cmd q := by
  cases cmd with
  | whenBegin pred depth =>
    simp only [step] at h
    split at h
    · next stands =>
      obtain rfl := Except.ok.inj h
      exact .whenBegin stands
    · cases h
  | whenEnd depth =>
    simp only [step] at h
    split at h
    · next innermost =>
      split at h
      · next hdepth =>
        subst hdepth
        obtain rfl := Except.ok.inj h
        exact .whenEnd innermost
      · cases h
    · cases h
  | altBegin depth =>
    simp only [step] at h
    split at h
    · next c follows =>
      split at h
      · next succ =>
        obtain rfl := Except.ok.inj h
        exact .altBegin follows succ
      · cases h
    · cases h
  | otherwiseEnd depth =>
    simp only [step] at h
    split at h
    · cases h
    · next nonzero => exact .otherwiseEnd nonzero (closeElses_iff.1 h)
  | _ =>
    have hgrown : { r.settle with block := r.settle.block ++ .command i .empty } =
        r.settle.grow (.command i .empty) := by
      rw [grow, ← r.settle_closed]
    obtain rfl := hgrown.symm.trans (Except.ok.inj h)
    exact .plain rfl

/-- **One command.**  The reader takes a command in one of these ways or refuses it. -/
theorem step_iff {r q : Reader} {i : Nat} {cmd : Command} :
    r.step i cmd = .ok q ↔ Takes r i cmd q := by
  refine ⟨takes_of_step, fun h => ?_⟩
  cases h with
  | plain plain =>
    cases cmd with
    | whenBegin _ _ | whenEnd _ | altBegin _ | otherwiseEnd _ => cases plain
    | _ => simp [step, grow]
  | whenBegin stands =>
    simp only [step]
    rw [if_pos stands]
  | whenEnd innermost => simp only [step, innermost, if_true]
  | altBegin follows succ =>
    simp only [step, follows]
    rw [if_pos succ]
  | otherwiseEnd nonzero closes =>
    simp only [step]
    rw [if_neg nonzero]
    exact closeElses_iff.2 closes

/-! ## Scanning in parts -/

theorem run_cons (r : Reader) (i : Nat) (cmd : Command) (rest : List Command) :
    r.run i (cmd :: rest) = r.step i cmd >>= fun r' => r'.run (i + 1) rest := by
  rw [run]
  cases r.step i cmd <;> rfl

theorem run_cons_of_ok {r r' : Reader} {i : Nat} {cmd : Command} (rest : List Command)
    (h : r.step i cmd = .ok r') : r.run i (cmd :: rest) = r'.run (i + 1) rest := by
  rw [run_cons, h]
  rfl

theorem run_cons_eq_ok {r q : Reader} {i : Nat} {cmd : Command} {rest : List Command} :
    r.run i (cmd :: rest) = .ok q ↔
      ∃ r', r.step i cmd = .ok r' ∧ r'.run (i + 1) rest = .ok q := by
  refine ⟨fun h => ?_, fun ⟨r', hstep, hrest⟩ => (run_cons_of_ok rest hstep).trans hrest⟩
  cases hstep : r.step i cmd with
  | ok r' => exact ⟨r', rfl, (run_cons_of_ok rest hstep).symm.trans h⟩
  | error f =>
    rw [run_cons, hstep] at h
    cases h

theorem run_append (r : Reader) (i : Nat) (xs ys : List Command) :
    r.run i (xs ++ ys) = r.run i xs >>= fun r' => r'.run (i + xs.length) ys := by
  induction xs generalizing r i with
  | nil => rfl
  | cons c xs ih =>
    rw [List.cons_append, run_cons, run_cons, bind_assoc]
    congr 1
    funext r'
    rw [ih, List.length_cons, Nat.add_right_comm, Nat.add_assoc]

theorem run_append_of_ok {r r' : Reader} {i : Nat} {xs : List Command} (ys : List Command)
    (h : r.run i xs = .ok r') : r.run i (xs ++ ys) = r'.run (i + xs.length) ys := by
  rw [run_append, h]
  rfl

/-- At the end every region is closed. -/
theorem finish_eq_ok {r : Reader} {b : Block} :
    r.finish = .ok b ↔ r.stack = [] ∧ r.settle.block = b := by
  simp only [finish]
  rw [stack_settle]
  cases r.stack with
  | nil => simp
  | cons e stack => simp

end Region.Reader

/-- The nesting of a stream is the block that the reader ends with. -/
theorem Block.ofCommands_eq_ok {cs : List Command} {b : Block} : ofCommands cs = .ok b ↔
    ∃ r, Region.Reader.start.run 0 cs = .ok r ∧ r.stack = [] ∧ r.settle.block = b := by
  unfold ofCommands
  cases hrun : Region.Reader.start.run 0 cs with
  | ok r => simp [Region.Reader.finish_eq_ok]
  | error f => simp

end Circuitry
