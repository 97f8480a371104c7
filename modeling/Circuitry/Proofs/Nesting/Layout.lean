/-
  What a description lays down, as it was written.

  A description is a list of calls and of chains of clauses; each call lays down some commands that
  mark no region.  `Layout` keeps that structure: commands in call order, and chains with the layout
  of every condition and of every body.  It can be read in three ways:

  1. `commands` — the flat stream that the description emits;
  2. `block start` — the nesting that was meant, for a stream in which the layout begins at position
     `start`: a chain `when c₁ A, else when c₂ B, otherwise Z` is the clause of `c₁` with body `A` and an
     else-part that holds the commands of `c₂`'s condition and then the clause of `c₂`, and so on;
     the last clause has an else-part exactly if the chain has an `otherwise`;
  3. `chains path start` — every chain below the guards `path`, as the list of its arms.  An arm knows
     the guards that its body stands under: the predicates of the earlier clauses negated, its own
     positive.

  The three are definitions of their own; that reading back the first gives the second is
  `Circuitry.Proofs.Nesting.Readback`, and what the third says about truth assignments is
  `Circuitry.Proofs.Nesting.Arms`.
-/
import Circuitry.Region.Guard

namespace Circuitry

mutual

/-- Commands in call order, and chains with everything inside them. -/
inductive Layout where
  | done
  /-- A command that marks no region. -/
  | command (cmd : Command) (plain : cmd.isControl = false) (rest : Layout)
  /-- A chain: what its first condition lays down, the predicate, the first body, what follows in
      the chain, and what follows the chain. -/
  | chain (cond : Layout) (pred : Operand) (body : Layout) (tail : Layout.Tail) (rest : Layout)

/-- What follows a clause. -/
inductive Layout.Tail where
  | close
  | elseWhen (cond : Layout) (pred : Operand) (body : Layout) (tail : Layout.Tail)
  | otherwise (body : Layout)

end

namespace Layout

/-! ## The stream -/

/-- A body between the two commands of its region. -/
def clauseCommands (pred : Operand) (depth : UInt32) (body : List Command) : List Command :=
  .whenBegin pred depth :: (body ++ [.whenEnd depth])

mutual

/-- The stream of a layout. -/
def commands : Layout → List Command
  | .done => []
  | .command cmd _ rest => cmd :: rest.commands
  | .chain cond pred body tail rest =>
    cond.commands ++ (clauseCommands pred 0 body.commands ++ (tail.commands 1 ++ rest.commands))

/-- The stream of what follows `depth` clauses of a chain. -/
def Tail.commands (depth : UInt32) : Tail → List Command
  | .close => if 1 < depth then [.otherwiseEnd (depth - 1)] else []
  | .elseWhen cond pred body tail =>
    .altBegin depth ::
      (cond.commands ++ (clauseCommands pred depth body.commands ++ tail.commands (depth + 1)))
  | .otherwise body => .altBegin depth :: (body.commands ++ [.otherwiseEnd depth])

end

/-- Commands that mark no region, before a layout. -/
def prepend : (cmds : List Command) → (∀ c ∈ cmds, c.isControl = false) → Layout → Layout
  | [], _, l => l
  | c :: cs, h, l =>
    .command c (h c (List.mem_cons_self ..))
      (prepend cs (fun d hd => h d (List.mem_cons_of_mem c hd)) l)

theorem commands_prepend : ∀ (cmds : List Command) (h : ∀ c ∈ cmds, c.isControl = false)
    (l : Layout), (prepend cmds h l).commands = cmds ++ l.commands
  | [], _, _ => rfl
  | c :: cs, h, l => by
    rw [prepend, commands, commands_prepend cs, List.cons_append]

theorem length_clauseCommands (pred : Operand) (depth : UInt32) (body : List Command) :
    (clauseCommands pred depth body).length = body.length + 2 := by
  simp [clauseCommands]

mutual

/-- Every chain has fewer than `2 ^ 32` clauses, so that their number is a depth. -/
def Counted : Layout → Prop
  | .done => True
  | .command _ _ rest => rest.Counted
  | .chain cond _ body tail rest =>
    cond.Counted ∧ body.Counted ∧ tail.Counted 1 ∧ rest.Counted

/-- The same for what follows `depth` clauses of a chain. -/
def Tail.Counted (depth : Nat) : Tail → Prop
  | .close => True
  | .elseWhen cond _ body tail =>
    depth + 1 < 2 ^ 32 ∧ cond.Counted ∧ body.Counted ∧ tail.Counted (depth + 1)
  | .otherwise body => body.Counted

end

mutual

/-- A stream of fewer than `2 ^ 32` commands has no chain with too many clauses. -/
theorem counted_of_length : ∀ l : Layout, l.commands.length < 2 ^ 32 → l.Counted
  | .done, _ => trivial
  | .command _ _ rest, h => by
    simp only [commands, List.length_cons] at h
    exact counted_of_length rest (by omega)
  | .chain cond pred body tail rest, h => by
    simp only [commands, List.length_append, length_clauseCommands] at h
    have htail := tailCounted_of_length tail 1 1 (by omega)
    exact ⟨counted_of_length cond (by omega), counted_of_length body (by omega), htail,
      counted_of_length rest (by omega)⟩

theorem tailCounted_of_length : ∀ (t : Tail) (depth : UInt32) (n : Nat),
    n + (t.commands depth).length < 2 ^ 32 → t.Counted n
  | .close, _, _, _ => trivial
  | .elseWhen cond pred body tail, depth, n, h => by
    simp only [Tail.commands, List.length_cons, List.length_append, length_clauseCommands] at h
    have htail := tailCounted_of_length tail (depth + 1) (n + 1) (by omega)
    exact ⟨by omega, counted_of_length cond (by omega), counted_of_length body (by omega), htail⟩
  | .otherwise body, depth, n, h => by
    simp only [Tail.commands, List.length_cons, List.length_append] at h
    exact counted_of_length body (by omega)

end

/-! ## The nesting -/

/-- A clause with or without an else-part. -/
def arm (pred : Operand) (begun : Nat) (body : Block) (alternative : Option Block) : Block :=
  match alternative with
  | none => .clause pred begun body .empty
  | some a => .clauseElse pred begun body a .empty

/-- Where a clause ends whose region begins at `begun`. -/
def clauseEnd (begun : Nat) (body : Layout) : Nat := begun + (body.commands.length + 2)

mutual

/-- The nesting of a layout that begins at position `start`. -/
def block (start : Nat) : Layout → Block
  | .done => .empty
  | .command _ _ rest => .command start (rest.block (start + 1))
  | .chain cond pred body tail rest =>
    let begun := start + cond.commands.length
    let next := clauseEnd begun body
    cond.block start ++
      (arm pred begun (body.block (begun + 1)) (tail.alternative next) ++
        rest.block (next + (tail.commands 1).length))

/-- The else-part of a clause, if what follows it begins at position `start`. -/
def Tail.alternative (start : Nat) : Tail → Option Block
  | .close => none
  | .elseWhen cond pred body tail =>
    let begun := start + 1 + cond.commands.length
    some (cond.block (start + 1) ++
      arm pred begun (body.block (begun + 1)) (tail.alternative (clauseEnd begun body)))
  | .otherwise body => some (body.block (start + 1))

end

/-! ## The arms of each chain -/

/-- One arm of a chain. -/
structure Arm where
  /-- The guards that its body stands under. -/
  path : List Guard
  /-- Its predicate; none for the arm of an `otherwise`. -/
  pred : Option Operand
  /-- Where its body begins. -/
  start : Nat
  body : Layout

/-- A chain with the guards around it. -/
structure ChainAt where
  path : List Guard
  arms : List Arm
  /-- Whether the chain ends with an `otherwise`. -/
  total : Bool

/-- Whether a chain ends with an `otherwise`. -/
def Tail.total : Tail → Bool
  | .close => false
  | .elseWhen _ _ _ tail => tail.total
  | .otherwise _ => true

/-- The arms that follow in a chain, where `path` negates the predicates of the earlier ones. -/
def Tail.arms (path : List Guard) (start : Nat) : Tail → List Arm
  | .close => []
  | .elseWhen cond pred body tail =>
    let begun := start + 1 + cond.commands.length
    ⟨path ++ [⟨pred, true⟩], some pred, begun + 1, body⟩ ::
      tail.arms (path ++ [⟨pred, false⟩]) (clauseEnd begun body)
  | .otherwise body => [⟨path, none, start + 1, body⟩]

mutual

/-- Every chain of a layout below the guards `path`, with those inside it. -/
def chains (path : List Guard) (start : Nat) : Layout → List ChainAt
  | .done => []
  | .command _ _ rest => rest.chains path (start + 1)
  | .chain cond pred body tail rest =>
    let begun := start + cond.commands.length
    let next := clauseEnd begun body
    let first : Arm := ⟨path ++ [⟨pred, true⟩], some pred, begun + 1, body⟩
    cond.chains path start ++
      (⟨path, first :: tail.arms (path ++ [⟨pred, false⟩]) next, tail.total⟩ ::
        (body.chains (path ++ [⟨pred, true⟩]) (begun + 1) ++
          (tail.chains (path ++ [⟨pred, false⟩]) next ++
            rest.chains path (next + (tail.commands 1).length))))

/-- Every chain inside what follows a clause. -/
def Tail.chains (path : List Guard) (start : Nat) : Tail → List ChainAt
  | .close => []
  | .elseWhen cond pred body tail =>
    let begun := start + 1 + cond.commands.length
    cond.chains path (start + 1) ++
      (body.chains (path ++ [⟨pred, true⟩]) (begun + 1) ++
        tail.chains (path ++ [⟨pred, false⟩]) (clauseEnd begun body))
  | .otherwise body => body.chains path (start + 1)

end

end Layout

end Circuitry
