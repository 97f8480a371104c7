/-
  Circuits as JSON.

  The form of a whole circuit, and the two texts made of it.  A node may leave out its name.
  `Circuit.ofText?` reads what either text spells, and any other layout of the same data;
  `Circuit.ofJson?` takes a tree as well.
-/
import Circuitry.Circuit
import Circuitry.Json.CommandForm
import Circuitry.Json.Reader
import Circuitry.Json.Text

namespace Circuitry

namespace Location

def toJson (l : Location) : Json :=
  .object [("file", .string l.file), ("line", .nat l.line.toNat), ("column", .nat l.column.toNat)]

def ofJson? (j : Json) : Option Location := do
  let [some file, some line, some column] ← j.record? ["file", "line", "column"] | none
  return ⟨← file.string?, ← line.uint32?, ← column.uint32?⟩

end Location

namespace Role

def toJson : Role → Json
  | .unbound => .string "Unbound"
  | .port d => .tagged "Port" d.toJson
  | .wire => .string "Wire"
  | .register => .string "Register"
  | .literal => .string "Literal"
  | .result => .string "Op"

def ofJson? (j : Json) : Option Role :=
  match j.variant? with
  | some ("Port", some d) => (Direction.ofJson? d).map .port
  | _ =>
    match j.bareVariant? with
    | some "Unbound" => some .unbound
    | some "Wire" => some .wire
    | some "Register" => some .register
    | some "Literal" => some .literal
    | some "Op" => some .result
    | _ => none

end Role

namespace Origin

def toJson : Origin → Json
  | .defined => .string "Defined"
  | .field parent index => .tagged "Field" <| .object
      [("parent", parent.toJson), ("index", .nat index.toNat)]

def ofJson? (src : Json.Source) (j : Json) : Option Origin :=
  match j.variant? with
  | some ("Field", some payload) => do
    let [some parent, some index] ← payload.fields? src ["parent", "index"] | none
    return .field (← NodeId.ofJson? parent) (← index.uint32?)
  | _ =>
    match j.bareVariant? with
    | some "Defined" => some .defined
    | _ => none

end Origin

namespace Node

def toJson (n : Node) : Json :=
  .object [("ty", n.ty.toJson), ("binding", n.role.toJson), ("name", .opt .string n.name),
    ("origin", n.origin.toJson), ("loc", n.loc.toJson)]

def ofJson? (src : Json.Source) (j : Json) : Option Node := do
  let [some ty, some role, name, some origin, some loc] ←
    j.record? ["ty", "binding", "name", "origin", "loc"] | none
  return ⟨← Ty.ofJson? src ty, ← Role.ofJson? role, ← Json.opt? Json.string? name,
    ← Origin.ofJson? src origin, ← Location.ofJson? loc⟩

end Node

namespace Port

def toJson (p : Port) : Json :=
  .object [("name", .string p.name), ("direction", p.direction.toJson), ("node", p.node.toJson)]

def ofJson? (j : Json) : Option Port := do
  let [some name, some direction, some node] ← j.record? ["name", "direction", "node"] | none
  return ⟨← name.string?, ← Direction.ofJson? direction, ← NodeId.ofJson? node⟩

end Port

namespace Circuit

def toJson (c : Circuit) : Json :=
  .object [("name", .string c.name), ("nodes", .object [("items", .list Node.toJson c.nodes)]),
    ("ports", .list Port.toJson c.ports), ("commands", .list Command.toJson c.commands)]

/-- The node table is a record of its own. -/
def nodesOfJson? (src : Json.Source) (j : Json) : Option (List Node) := do
  let [some items] ← j.record? ["items"] | none
  items.list? (Node.ofJson? src)

def ofJson? (src : Json.Source) (j : Json) : Option Circuit := do
  let [some name, some nodes, some ports, some commands] ←
    j.record? ["name", "nodes", "ports", "commands"] | none
  return ⟨← name.string?, ← nodesOfJson? src nodes, ← ports.list? Port.ofJson?,
    ← commands.list? (Command.ofJson? src)⟩

/-- The circuit as JSON in one line. -/
def jsonText (c : Circuit) : String := c.toJson.compact

/-- The circuit that a JSON text spells. -/
def ofText? (s : String) : Option Circuit := (Json.parse? s).bind (ofJson? .text)

end Circuit

end Circuitry
