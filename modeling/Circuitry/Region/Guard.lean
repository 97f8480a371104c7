/-
  Guards.

  The guards of a command are the regions around it, outermost first: the predicate of each clause,
  positive in its body and negated in its else-part.  A command takes effect when all its guards hold.

  `guarded` lists every command with its guards; `active` walks the block under a truth assignment to
  predicates and keeps the commands that take effect.
-/
import Circuitry.Region

namespace Circuitry

/-- A predicate with the value that a region asks of it. -/
structure Guard where
  pred : Operand
  positive : Bool
  deriving DecidableEq, Repr

/-- Whether the predicate has the value that the region asks of it. -/
def Guard.met (holds : Operand → Bool) (g : Guard) : Bool := holds g.pred == g.positive

def Guard.text (g : Guard) : String := (if g.positive then "" else "!") ++ g.pred.text

/-- A path of guards in one line. -/
def guardsText (path : List Guard) : String := String.intercalate " & " (path.map Guard.text)

namespace Block

/-- Every command with its guards, below the given ones, in stream order. -/
def guardedBelow (path : List Guard) : Block → List (Nat × List Guard)
  | .empty => []
  | .command i rest => (i, path) :: rest.guardedBelow path
  | .clause p _ body rest =>
    body.guardedBelow (path ++ [⟨p, true⟩]) ++ rest.guardedBelow path
  | .clauseElse p _ body alternative rest =>
    body.guardedBelow (path ++ [⟨p, true⟩]) ++
      (alternative.guardedBelow (path ++ [⟨p, false⟩]) ++ rest.guardedBelow path)

/-- Every command with its guards. -/
def guarded (b : Block) : List (Nat × List Guard) := b.guardedBelow []

/-- The commands that take effect when the predicates have the given values. -/
def active (holds : Operand → Bool) : Block → List Nat
  | .empty => []
  | .command i rest => i :: rest.active holds
  | .clause p _ body rest => (if holds p then body.active holds else []) ++ rest.active holds
  | .clauseElse p _ body alternative rest =>
    (if holds p then body.active holds else alternative.active holds) ++ rest.active holds

end Block

end Circuitry
