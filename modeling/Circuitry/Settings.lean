/-
  Settings.

  Two groups: how descriptions are turned into circuits, and how results are shown.  Every setting has
  a default, and settings read from a file are checked before they are used.
-/

namespace Circuitry

/-- How a description becomes a circuit. -/
structure Settings.Elaboration where
  /-- Take bits of literals at once instead of through an operator. -/
  foldLiterals : Bool
  /-- The number of errors at which a description is given up; zero sets no limit. -/
  errorLimit : Nat
  /-- The widest amount of a dynamic left shift. -/
  dynamicShiftLimit : UInt32
  deriving DecidableEq, Inhabited, Repr

/-- The form in which a circuit is shown. -/
inductive Settings.Format where
  | text
  | json
  deriving DecidableEq, Inhabited, Repr

/-- How results are shown. -/
structure Settings.Output where
  format : Settings.Format
  color : Bool
  deriving DecidableEq, Inhabited, Repr

/-- All settings. -/
structure Settings where
  elaboration : Settings.Elaboration
  output : Settings.Output
  deriving DecidableEq, Inhabited, Repr

namespace Settings

/-- The settings of a description where nothing else is said. -/
def Elaboration.default : Elaboration := ⟨true, 0, 20⟩

def Output.default : Output := ⟨.text, true⟩

def default : Settings := ⟨.default, .default⟩

end Settings

end Circuitry
