/-
  Regions in text.

  The nesting of a circuit with braces: two blanks for each level, and each command with its own text.
  A position that the stream does not have is passed over.
-/
import Circuitry.Region

namespace Circuitry.Block

/-- The lines of a block inside `level` regions. -/
def lines (commands : List Command) (level : Nat) : Block → List String
  | .empty => []
  | .command i rest =>
    let here := match commands[i]? with
      | some cmd => [pad ++ cmd.text]
      | none => []
    here ++ rest.lines commands level
  | .clause p _ body rest =>
    (pad ++ "when " ++ p.text ++ " \x7b") :: (body.lines commands (level + 1) ++
      (pad ++ "\x7d") :: rest.lines commands level)
  | .clauseElse p _ body alternative rest =>
    (pad ++ "when " ++ p.text ++ " \x7b") :: (body.lines commands (level + 1) ++
      (pad ++ "\x7d else \x7b") :: (alternative.lines commands (level + 1) ++
        (pad ++ "\x7d") :: rest.lines commands level))
where
  /-- The blanks before a line. -/
  pad : String := String.ofList (List.replicate (2 * level) ' ')

/-- The block over its commands, each line ended by a line break. -/
def text (commands : List Command) (b : Block) : String :=
  String.join ((b.lines commands 0).map (· ++ "\n"))

end Circuitry.Block
