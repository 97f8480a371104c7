/-
  Diagnostics as JSON.
-/
import Circuitry.Diagnostic
import Circuitry.Json.CircuitForm

namespace Circuitry

namespace Code

def toJson (c : Code) : Json := .object [("number", .nat c.number.toNat)]

def ofJson? (j : Json) : Option Code := do
  let [some number] ← j.record? ["number"] | none
  return ⟨← number.uint16?⟩

end Code

namespace LabelStyle

def toJson : LabelStyle → Json
  | .primary => .string "Primary"
  | .secondary => .string "Secondary"

def ofJson? (j : Json) : Option LabelStyle :=
  match j.bareVariant? with
  | some "Primary" => some .primary
  | some "Secondary" => some .secondary
  | _ => none

end LabelStyle

namespace Label

def toJson (l : Label) : Json :=
  .object [("loc", l.loc.toJson), ("message", .string l.message), ("style", l.style.toJson)]

def ofJson? (j : Json) : Option Label := do
  let [some loc, some message, some style] ← j.record? ["loc", "message", "style"] | none
  return ⟨← Location.ofJson? loc, ← message.string?, ← LabelStyle.ofJson? style⟩

end Label

namespace Diagnostic

def toJson (d : Diagnostic) : Json :=
  .object [("code", d.code.toJson), ("message", .string d.message), ("loc", d.loc.toJson),
    ("labels", .list Label.toJson d.labels), ("notes", .list .string d.notes),
    ("help", .list .string d.help)]

def ofJson? (j : Json) : Option Diagnostic := do
  let [some code, some message, some loc, some labels, some notes, some help] ←
    j.record? ["code", "message", "loc", "labels", "notes", "help"] | none
  return ⟨← Code.ofJson? code, ← message.string?, ← Location.ofJson? loc,
    ← labels.list? Label.ofJson?, ← notes.list? Json.string?, ← help.list? Json.string?⟩

end Diagnostic

end Circuitry
