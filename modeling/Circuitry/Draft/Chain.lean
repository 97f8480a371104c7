/-
  Conditional chains.

  A chain is a first clause, later clauses and perhaps a last part for the case that no condition
  holds.  The condition of a clause is itself described by commands, which land before the region they
  guard; those of a later clause land inside the else-region of the clause before it.

  The parts of a chain are actions of any monad over `Build`, so that what describes them may keep a
  state of its own.  A part that fails leaves the regions open that were open at that moment: only
  what was closed by its own command is well formed, and `finish` finds the rest.
-/
import Circuitry.Draft

namespace Circuitry.Draft

/-- An open chain, with the number of clauses it has so far. -/
structure Chain where
  depth : UInt32
  deriving DecidableEq, Repr

namespace Chain

variable {m : Type → Type} [Monad m] [MonadLiftT Build m]

/-- A clause: its condition, and its body between the two commands of a region. -/
def clause (depth : UInt32) (cond : m Signal) (body : m Unit) : m Unit := do
  let pred ← operand (← cond)
  emit (.whenBegin pred depth)
  body
  emit (.whenEnd depth)

/-- Opens a chain with its first clause. -/
def start (cond : m Signal) (body : m Unit) : m Chain := do
  clause 0 cond body
  return ⟨1⟩

/-- Adds a clause for the case that no condition so far holds. -/
def elseWhen (c : Chain) (cond : m Signal) (body : m Unit) : m Chain := do
  emit (.altBegin c.depth)
  clause c.depth cond body
  return ⟨c.depth + 1⟩

/-- Ends the chain with a part for the case that no condition holds. -/
def otherwise (c : Chain) (body : m Unit) : m Unit := do
  emit (.altBegin c.depth)
  body
  emit (.otherwiseEnd c.depth)

/-- Ends the chain.  The else-regions opened by its later clauses are closed. -/
def close (c : Chain) : Build Unit :=
  if 1 < c.depth then emit (.otherwiseEnd (c.depth - 1)) else return ()

end Chain

end Circuitry.Draft
