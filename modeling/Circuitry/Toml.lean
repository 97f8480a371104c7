/-
  TOML values.

  The data of a settings file.  Tables keep the order in which their keys first appear.  Fractional
  numbers and moments of time are kept as they are spelled: no setting takes one, but they may stand
  where nothing looks at them.
-/

namespace Circuitry

/-- TOML data. -/
inductive Toml where
  | string (s : String)
  | integer (i : Int)
  | boolean (b : Bool)
  /-- A number with a fraction or an exponent, infinity, or no number. -/
  | float (spelling : String)
  /-- A date, a time of day, or both. -/
  | moment (spelling : String)
  | array (items : List Toml)
  | table (fields : List (String × Toml))
  deriving Inhabited, Repr

end Circuitry
