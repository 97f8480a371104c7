/-
  Types of hardware values.

  A ground value has a kind and a width; an aggregate is an ordered list of named fields, each with a
  type of its own.  The leaves of a type are its ground values, depth first; aggregates are compared,
  selected and connected leaf by leaf.
-/
import Circuitry.Width

namespace Circuitry

/-- What the bits of a ground value mean. -/
inductive Kind where
  | uint
  | sint
  | bool
  deriving DecidableEq, Inhabited, Repr

namespace Kind

def isSigned : Kind → Bool
  | .sint => true
  | _ => false

def text : Kind → String
  | .uint => "UInt"
  | .sint => "SInt"
  | .bool => "Bool"

end Kind

/-- The type of a ground value in text.  A boolean is one bit wide and shows no width. -/
def groundText (kind : Kind) (width : Width) : String :=
  match kind with
  | .bool => kind.text
  | _ => kind.text ++ width.text

/-- The type of a hardware value. -/
inductive Ty where
  | element (kind : Kind) (width : Width)
  | aggregate (fields : List (String × Ty))
  deriving Inhabited, Repr

namespace Ty

/-! ## Equality -/

mutual
/-- Equality of types, decided by structure. -/
def decEq : (a b : Ty) → Decidable (a = b)
  | .element k v, .element l w =>
    if h : k = l ∧ v = w then isTrue (by rw [h.1, h.2])
    else isFalse fun e => h (by injection e with e₁ e₂; exact ⟨e₁, e₂⟩)
  | .aggregate fs, .aggregate gs =>
    match decEqFields fs gs with
    | isTrue h => isTrue (by rw [h])
    | isFalse h => isFalse fun e => h (by injection e)
  | .element _ _, .aggregate _ => isFalse nofun
  | .aggregate _, .element _ _ => isFalse nofun

/-- Equality of field lists, decided field by field. -/
def decEqFields : (a b : List (String × Ty)) → Decidable (a = b)
  | [], [] => isTrue rfl
  | (m, s) :: fs, (n, t) :: gs =>
    if hn : m = n then
      match decEq s t, decEqFields fs gs with
      | isTrue h₁, isTrue h₂ => isTrue (by rw [hn, h₁, h₂])
      | isFalse h, _ => isFalse fun e => h (by injection e with e₁ _; exact (Prod.mk.inj e₁).2)
      | _, isFalse h => isFalse fun e => h (by injection e)
    else isFalse fun e => hn (by injection e with e₁ _; exact (Prod.mk.inj e₁).1)
  | [], _ :: _ => isFalse nofun
  | _ :: _, [] => isFalse nofun
end

instance : DecidableEq Ty := decEq

/-! ## Parts -/

/-- A boolean, which is one bit wide. -/
def bool : Ty := .element .bool (.known 1)

def kind? : Ty → Option Kind
  | .element k _ => some k
  | .aggregate _ => none

def width? : Ty → Option Width
  | .element _ w => some w
  | .aggregate _ => none

mutual
/-- The ground values, depth first. -/
def leaves : Ty → List (Kind × Width)
  | .element k w => [(k, w)]
  | .aggregate fs => fieldLeaves fs

/-- The ground values of a list of fields. -/
def fieldLeaves : List (String × Ty) → List (Kind × Width)
  | [] => []
  | (_, t) :: fs => t.leaves ++ fieldLeaves fs
end

/-! ## Text -/

mutual
/-- The type as listings show it: a kind with its width, or the fields between braces. -/
def text : Ty → String
  | .element k w => groundText k w
  | .aggregate fs => "\x7b" ++ fieldsText fs ++ "\x7d"

/-- Fields separated by commas. -/
def fieldsText : List (String × Ty) → String
  | [] => ""
  | [(n, t)] => n ++ ": " ++ t.text
  | (n, t) :: fs => n ++ ": " ++ t.text ++ ", " ++ fieldsText fs
end

example : leaves (.aggregate [("v", bool), ("d", .aggregate [("lo", .element .uint (.known 4))])])
    = [(.bool, .known 1), (.uint, .known 4)] := by decide

end Ty

end Circuitry
