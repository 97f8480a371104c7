/-
  JSON values.

  A tree of JSON data as it stands in a text: object members keep their order and repetitions, so a
  reader of records can refuse a member that occurs twice.

  Only whole numbers are numbers to this library.  A numeral with a fraction, an exponent or a
  negative zero is kept as it is spelled; no field of a circuit takes one.  Text that is well formed
  but stands for no tree is kept as a mark that nothing takes for data.
-/

namespace Circuitry

/-- JSON data. -/
inductive Json where
  | null
  | bool (b : Bool)
  | number (n : Int)
  /-- A numeral that is no whole number, as spelled. -/
  | decimal (spelling : String)
  | string (s : String)
  | array (items : List Json)
  | object (members : List (String × Json))
  /-- What has no place in the tree: an array or object that is nested too deep, or a string or
      member name with an escape that names no character. -/
  | unreadable
  deriving Inhabited, Repr

namespace Json

mutual
/-- Equality, decided by structure. -/
def decEq : (a b : Json) → Decidable (a = b)
  | .null, .null | .unreadable, .unreadable => isTrue rfl
  | .bool a, .bool b =>
    if h : a = b then isTrue (by rw [h]) else isFalse fun e => h (by injection e)
  | .number a, .number b =>
    if h : a = b then isTrue (by rw [h]) else isFalse fun e => h (by injection e)
  | .decimal a, .decimal b =>
    if h : a = b then isTrue (by rw [h]) else isFalse fun e => h (by injection e)
  | .string a, .string b =>
    if h : a = b then isTrue (by rw [h]) else isFalse fun e => h (by injection e)
  | .array xs, .array ys =>
    match decEqItems xs ys with
    | isTrue h => isTrue (by rw [h])
    | isFalse h => isFalse fun e => h (by injection e)
  | .object xs, .object ys =>
    match decEqMembers xs ys with
    | isTrue h => isTrue (by rw [h])
    | isFalse h => isFalse fun e => h (by injection e)
  | .null, .bool _ | .null, .number _ | .null, .decimal _ | .null, .string _ | .null, .array _
  | .null, .object _ | .null, .unreadable | .bool _, .null | .bool _, .number _
  | .bool _, .decimal _ | .bool _, .string _ | .bool _, .array _ | .bool _, .object _
  | .bool _, .unreadable | .number _, .null | .number _, .bool _ | .number _, .decimal _
  | .number _, .string _ | .number _, .array _ | .number _, .object _ | .number _, .unreadable
  | .decimal _, .null | .decimal _, .bool _ | .decimal _, .number _ | .decimal _, .string _
  | .decimal _, .array _ | .decimal _, .object _ | .decimal _, .unreadable | .string _, .null
  | .string _, .bool _ | .string _, .number _ | .string _, .decimal _ | .string _, .array _
  | .string _, .object _ | .string _, .unreadable | .array _, .null | .array _, .bool _
  | .array _, .number _ | .array _, .decimal _ | .array _, .string _ | .array _, .object _
  | .array _, .unreadable | .object _, .null | .object _, .bool _ | .object _, .number _
  | .object _, .decimal _ | .object _, .string _ | .object _, .array _ | .object _, .unreadable
  | .unreadable, .null | .unreadable, .bool _ | .unreadable, .number _ | .unreadable, .decimal _
  | .unreadable, .string _ | .unreadable, .array _ | .unreadable, .object _ => isFalse nofun

/-- Equality of item lists. -/
def decEqItems : (a b : List Json) → Decidable (a = b)
  | [], [] => isTrue rfl
  | x :: xs, y :: ys =>
    match decEq x y, decEqItems xs ys with
    | isTrue h₁, isTrue h₂ => isTrue (by rw [h₁, h₂])
    | isFalse h, _ => isFalse fun e => h (by injection e)
    | _, isFalse h => isFalse fun e => h (by injection e)
  | [], _ :: _ => isFalse nofun
  | _ :: _, [] => isFalse nofun

/-- Equality of member lists. -/
def decEqMembers : (a b : List (String × Json)) → Decidable (a = b)
  | [], [] => isTrue rfl
  | (m, x) :: xs, (n, y) :: ys =>
    if hn : m = n then
      match decEq x y, decEqMembers xs ys with
      | isTrue h₁, isTrue h₂ => isTrue (by rw [hn, h₁, h₂])
      | isFalse h, _ => isFalse fun e => h (by injection e with e₁ _; exact (Prod.mk.inj e₁).2)
      | _, isFalse h => isFalse fun e => h (by injection e)
    else isFalse fun e => hn (by injection e with e₁ _; exact (Prod.mk.inj e₁).1)
  | [], _ :: _ => isFalse nofun
  | _ :: _, [] => isFalse nofun
end

instance : DecidableEq Json := decEq

/-- A natural number. -/
def nat (n : Nat) : Json := .number n

/-- A value or null. -/
def opt (f : α → Json) : Option α → Json
  | none => .null
  | some a => f a

/-- A list of values. -/
def list (f : α → Json) (xs : List α) : Json := .array (xs.map f)

/-- A record with one member, the external tag of a variant. -/
def tagged (tag : String) (payload : Json) : Json := .object [(tag, payload)]

/-! ## Nesting -/

mutual
/-- How deep arrays and objects nest. -/
def height : Json → Nat
  | .array xs => itemsHeight xs + 1
  | .object ms => membersHeight ms + 1
  | _ => 0

/-- The greatest height among items. -/
def itemsHeight : List Json → Nat
  | [] => 0
  | x :: xs => max x.height (itemsHeight xs)

/-- The greatest height among members. -/
def membersHeight : List (String × Json) → Nat
  | [] => 0
  | (_, x) :: ms => max x.height (membersHeight ms)
end

/-! ## Access -/

/-- The first member of a name. -/
def member? (name : String) : Json → Option Json
  | .object members => (members.find? (·.1 = name)).map (·.2)
  | _ => none

def natural? : Json → Option Nat
  | .number n => n.toNat?
  | _ => none

def string? : Json → Option String
  | .string s => some s
  | _ => none

def bool? : Json → Option Bool
  | .bool b => some b
  | _ => none

def items? : Json → Option (List Json)
  | .array xs => some xs
  | _ => none

end Json

end Circuitry
