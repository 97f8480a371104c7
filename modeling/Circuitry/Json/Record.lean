/-
  Records and variants in JSON.

  The conventions by which structured data is written as JSON, in one place:

  * a record is an object with its fields in order.  Reading takes them in any order and passes over
    members it does not know, but refuses a field that occurs twice; an array with exactly one item
    per field is also a record;
  * a variant without data is a string, any other an object whose only member is named for it;
  * the fields of a variant are a record too, but only a text may list them in an array: data that
    comes as a tree has to name them;
  * an optional value is the value or null, and a field for one may be left out.

  Every `ofJson?` in this library gives nothing for data of another form.
-/
import Circuitry.Json
import Circuitry.Power

namespace Circuitry.Json

/-- The one member of a name: nothing if it occurs twice. -/
def field? (members : List (String × Json)) (name : String) : Option (Option Json) :=
  match members.filter (·.1 = name) with
  | [] => some none
  | [(_, x)] => some (some x)
  | _ => none

/-- The fields of a record, in the order of the names; a field may be absent. -/
def record? (names : List String) : Json → Option (List (Option Json))
  | .object members => names.mapM (field? members)
  | .array xs => if xs.length = names.length then some (xs.map some) else none
  | _ => none

/-- The name of a variant, and its data if it has any. -/
def variant? : Json → Option (String × Option Json)
  | .string tag => some (tag, none)
  | .object [(tag, payload)] => some (tag, some payload)
  | _ => none

/-- The name of a variant that has no data. -/
def bareVariant? (j : Json) : Option String :=
  match j.variant? with
  | some (tag, none) => some tag
  | some (tag, some .null) => some tag
  | _ => none

/-- Where data comes from, which decides how the fields of a variant may be given. -/
inductive Source where
  /-- A text that spells the data: fields are named, or listed in order. -/
  | text
  /-- A tree that is at hand: fields are named. -/
  | tree
  deriving DecidableEq, Repr

/-- The fields of a variant, in the order of the names; a field may be absent. -/
def fields? (src : Source) (names : List String) (payload : Json) : Option (List (Option Json)) :=
  match src, payload with
  | .tree, .array _ => none
  | _, payload => payload.record? names

/-- A natural number below a limit. -/
def naturalBelow? (limit : Nat) (j : Json) : Option Nat := j.natural?.filter (· < limit)

def uint16? (j : Json) : Option UInt16 := (j.naturalBelow? (2 ^ 16)).map UInt16.ofNat

def uint32? (j : Json) : Option UInt32 := (j.naturalBelow? (2 ^ 32)).map UInt32.ofNat

def uint64? (j : Json) : Option UInt64 := (j.naturalBelow? (2 ^ 64)).map UInt64.ofNat

/-- A list of values of one kind. -/
def list? (f : Json → Option α) : Json → Option (List α)
  | .array xs => xs.mapM f
  | _ => none

/-- A value or null; an absent field counts as null. -/
def opt? (f : Json → Option α) : Option Json → Option (Option α)
  | none => some none
  | some .null => some none
  | some j => (f j).map some

end Circuitry.Json
