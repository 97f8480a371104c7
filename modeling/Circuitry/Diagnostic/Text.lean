/-
  Diagnostics in text.

      error[E302]: invalid bit range [2:5]
        --> src/alu.x:10:5
         |
         - src/alu.x:8:13: operand created here
         = note: ...
         = help: ...

  The place is left out when it is unknown.  With color the part up to the colon is bold red.
-/
import Circuitry.Diagnostic

namespace Circuitry

def LabelStyle.marker : LabelStyle → String
  | .primary => "^"
  | .secondary => "-"

/-- Bold red, if color is asked for. -/
def paint (color : Bool) (s : String) : String :=
  if color then "\x1b[1;31m" ++ s ++ "\x1b[0m" else s

namespace Diagnostic

/-- The lines of a diagnostic. -/
def lines (color : Bool) (d : Diagnostic) : List String :=
  [paint color ("error[" ++ d.code.text ++ "]") ++ ": " ++ d.message] ++
    (if d.loc.isUnknown then [] else ["  --> " ++ d.loc.text]) ++
    (if d.labels.isEmpty then [] else ["   |"]) ++
    d.labels.map (fun l => "   " ++ l.style.marker ++ " " ++ l.loc.text ++ ": " ++ l.message) ++
    d.notes.map ("   = note: " ++ ·) ++
    d.help.map ("   = help: " ++ ·)

/-- The diagnostic in text, each line ended by a line break. -/
def text (color : Bool) (d : Diagnostic) : String := String.join ((d.lines color).map (· ++ "\n"))

end Diagnostic

end Circuitry
