/-
  Listings.

  A listing shows the command stream one command to a line, indented by the regions that enclose it.
  A command that defines a node also shows the type of the node and, unless the command has named it
  already, its name.

  The indentation is a bare counter: one more inside each opened region, and fewer by the number of
  regions that a closing command names.  The digest of the listing is the circuit's fingerprint.
-/
import Circuitry.Circuit
import Circuitry.Digest

namespace Circuitry.Circuit

/-- How far a command moves its own line and those after it to the left. -/
def dedent : Command → Nat
  | .whenEnd _ => 1
  | .otherwiseEnd depth => depth.toNat
  | _ => 0

/-- How far a command moves the lines after it to the right. -/
def indentAfter : Command → Nat
  | .whenBegin _ _ | .altBegin _ => 1
  | _ => 0

/-- The type and the name of the node that a command defines. -/
def definitionText (c : Circuit) (cmd : Command) : String :=
  match cmd.defines?.bind c.node? with
  | none => ""
  | some n =>
    let name := match n.role, n.name with
      | .port _, _ => ""
      | _, none => ""
      | _, some name => " (" ++ name ++ ")"
    " : " ++ n.ty.text ++ name

/-- `level` steps of two blanks. -/
def indentation (level : Nat) : String := String.ofList (List.replicate (2 * level) ' ')

/-- The lines of a command stream, the first one at the given level. -/
def lines (c : Circuit) : Nat → List Command → List String
  | _, [] => []
  | level, cmd :: rest =>
    let here := level - dedent cmd
    (indentation here ++ cmd.text ++ c.definitionText cmd) :: c.lines (here + indentAfter cmd) rest

/-- The whole listing, each line ended by a line break. -/
def listing (c : Circuit) : String :=
  let all := ("circuit " ++ c.name ++ " :") :: c.lines 1 c.commands
  String.join (all.map (· ++ "\n"))

/-- The digest of the listing: equal for two runs of one description. -/
def fingerprint (c : Circuit) : Digest := Digest.ofText c.listing

end Circuitry.Circuit
