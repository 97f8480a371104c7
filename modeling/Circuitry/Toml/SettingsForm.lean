/-
  Settings in TOML.

  A group of settings is a table whose keys are the settings, any of which may be left out; a key that
  is none of them is refused.  An array of values in the order of the settings is a group too.

  Every `ofToml?` gives nothing for data of another form.
-/
import Circuitry.Power
import Circuitry.Settings
import Circuitry.Toml

namespace Circuitry

namespace Toml

/-- The values of a group by their names.  Items of an array behind those for the last name are
    passed over. -/
def named? (names : List String) : Toml → Option (List (String × Toml))
  | .table fields => if fields.all fun p => names.contains p.1 then some fields else none
  | .array items => some (names.zip items)
  | _ => none

/-- The value of one name, or a default where it is left out. -/
def settingOr (default : α) (read : Toml → Option α) (fields : List (String × Toml))
    (name : String) : Option α :=
  match fields.lookup name with
  | none => some default
  | some v => read v

def boolean? : Toml → Option Bool
  | .boolean b => some b
  | _ => none

/-- A natural number. -/
def natural? : Toml → Option Nat
  | .integer (.ofNat n) => some n
  | _ => none

def uint32? (v : Toml) : Option UInt32 := (v.natural?.filter (· < 2 ^ 32)).map UInt32.ofNat

/-- Whether a value is an array or a table without content. -/
def isHollow : Toml → Bool
  | .array [] | .table [] => true
  | _ => false

/-- The name of a choice: a string, or a table with that name alone and nothing in it. -/
def choice? : Toml → Option String
  | .string s => some s
  | .table [(name, v)] => if v.isHollow then some name else none
  | _ => none

end Toml

namespace Settings

open Toml (named? settingOr)

def Elaboration.ofToml? (v : Toml) : Option Elaboration := do
  let fields ← named? ["fold_literals", "error_limit", "dynamic_shift_limit"] v
  let d := Elaboration.default
  return ⟨← settingOr d.foldLiterals Toml.boolean? fields "fold_literals",
    ← settingOr d.errorLimit Toml.natural? fields "error_limit",
    ← settingOr d.dynamicShiftLimit Toml.uint32? fields "dynamic_shift_limit"⟩

/-- The format of a name. -/
def Format.ofName? : String → Option Format
  | "text" => some .text
  | "json" => some .json
  | _ => none

def Output.ofToml? (v : Toml) : Option Output := do
  let fields ← named? ["format", "color"] v
  let d := Output.default
  return ⟨← settingOr d.format (fun v => v.choice?.bind Format.ofName?) fields "format",
    ← settingOr d.color Toml.boolean? fields "color"⟩

/-- Settings from the root table of a text. -/
def ofToml? (root : List (String × Toml)) : Option Settings := do
  let fields ← named? ["elaboration", "output"] (.table root)
  return ⟨← settingOr .default Elaboration.ofToml? fields "elaboration",
    ← settingOr .default Output.ofToml? fields "output"⟩

/-- Nothing said means the defaults. -/
example : ofToml? [] = some .default := rfl

end Settings

end Circuitry
