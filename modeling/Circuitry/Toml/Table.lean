/-
  Tables that grow line by line.

  A table may be written in several places: under a header of its own, as part of the path of another
  header, or by dotted keys.  What may still be added to it depends on how it came about, so each
  table in the making remembers that:

  * a table with a header of its own is complete for dotted keys, and a second header for it is
    refused;
  * a table that only was on the way to another header may still get its own;
  * a table made by dotted keys may get more dotted keys, but no header.

  Paths lead into the last table of an array of tables.
-/
import Circuitry.Toml

namespace Circuitry.Toml

/-- How a table came about. -/
inductive Rise where
  /-- It has a header, or it is the root. -/
  | header
  /-- It was on the way to another header. -/
  | way
  /-- It was named by a dotted key. -/
  | dotted
  deriving DecidableEq, Repr

/-- A table entry in the making. -/
inductive Growing where
  | value (v : Toml)
  | table (rise : Rise) (fields : List (String × Growing))
  /-- An array of tables, the last one first. -/
  | tables (last : List (String × Growing)) (before : List (List (String × Growing)))
  deriving Inhabited

/-- The fields of a table in the making. -/
abbrev Fields := List (String × Growing)

namespace Fields

/-- Replaces the entry of a key, or adds it at the end. -/
def put (fields : Fields) (key : String) (g : Growing) : Fields :=
  if fields.any (·.1 = key) then fields.map fun p => if p.1 = key then (key, g) else p
  else fields ++ [(key, g)]

/-- Goes on inside the table at a key, which comes about if it is not there. -/
def enter (fields : Fields) (key : String) (go : Fields → Option Fields) : Option Fields :=
  match fields.lookup key with
  | none => (go []).map fun sub => fields.put key (.table .way sub)
  | some (.table rise sub) => (go sub).map fun sub => fields.put key (.table rise sub)
  | some (.tables last before) => (go last).map fun last => fields.put key (.tables last before)
  | some (.value _) => none

/-- Starts a table by its header. -/
def openTable : List String → Fields → Option Fields
  | [], _ => none
  | [key], fields =>
    match fields.lookup key with
    | none => some (fields.put key (.table .header []))
    | some (.table .way sub) => some (fields.put key (.table .header sub))
    | some _ => none
  | key :: path, fields => fields.enter key (openTable path)

/-- Starts another table of an array by its header. -/
def openItem : List String → Fields → Option Fields
  | [], _ => none
  | [key], fields =>
    match fields.lookup key with
    | none => some (fields.put key (.tables [] []))
    | some (.tables last before) => some (fields.put key (.tables [] (last :: before)))
    | some _ => none
  | key :: path, fields => fields.enter key (openItem path)

/-- Adds a key to a table, which must not have it yet. -/
def add (fields : Fields) (key : String) (v : Toml) : Option Fields :=
  if fields.any (·.1 = key) then none else some (fields ++ [(key, .value v)])

/-- Adds a value under a dotted key.  The table that takes it must have come about by dotted keys,
    and no table with a header may be on the way. -/
def addDotted : List String → String → Toml → Fields → Option Fields
  | [], last, v, fields => fields.add last v
  | key :: path, last, v, fields =>
    match fields.lookup key with
    | none => (addDotted path last v []).map fun sub => fields.put key (.table .dotted sub)
    | some (.table .header _) => none
    | some (.table .way sub) =>
      if path = [] then none
      else (addDotted path last v sub).map fun sub => fields.put key (.table .way sub)
    | some (.table .dotted sub) =>
      (addDotted path last v sub).map fun sub => fields.put key (.table .dotted sub)
    | some (.tables tail before) =>
      if path = [] then none
      else (addDotted path last v tail).map fun tail => fields.put key (.tables tail before)
    | some (.value _) => none

/-- Adds a value under a dotted key below the table of a header. -/
def addBelow : List String → List String → String → Toml → Fields → Option Fields
  | [], path, last, v, fields => fields.addDotted path last v
  | key :: header, path, last, v, fields => fields.enter key (addBelow header path last v)

end Fields

/-! ## Finished tables -/

mutual
/-- An entry as plain data. -/
def Growing.finish : Growing → Toml
  | .value v => v
  | .table _ fields => .table (finishFields fields)
  | .tables last before => .array (finishTables before ++ [.table (finishFields last)])

/-- Fields as plain data. -/
def finishFields : List (String × Growing) → List (String × Toml)
  | [] => []
  | (key, g) :: rest => (key, g.finish) :: finishFields rest

/-- Tables as plain data, first one first. -/
def finishTables : List (List (String × Growing)) → List Toml
  | [] => []
  | fields :: rest => finishTables rest ++ [.table (finishFields fields)]
end

end Circuitry.Toml
