/-
  Reading JSON text.

  A strict reader: no trailing commas, no leading zeros, no raw control characters in strings, no
  escapes but those of the format, and nothing but blanks after the value.

  Two things are well formed and still no data: arrays and objects nested more than 127 deep, and
  strings in which an escaped surrogate lacks its partner.  They come out as `unreadable`, and so does
  an object with such a string for a name.  A record may therefore hold them in a member that is
  passed over, and nowhere else.

  The reader works on characters.  `value` spends one unit of fuel for each value, item and member it
  looks at, and each of these is at least one character long, so `parse?` never runs out.
-/
import Circuitry.Json

namespace Circuitry.Json

/-! ## Characters -/

/-- A blank between tokens. -/
def isBlank (c : Char) : Bool := c = ' ' || c = '\n' || c = '\t' || c = '\r'

def skipBlanks (cs : List Char) : List Char := cs.dropWhile isBlank

/-- The value of a hexadecimal digit. -/
def hexValue? (c : Char) : Option Nat :=
  if '0' ≤ c ∧ c ≤ '9' then some (c.toNat - '0'.toNat)
  else if 'a' ≤ c ∧ c ≤ 'f' then some (c.toNat - 'a'.toNat + 10)
  else if 'A' ≤ c ∧ c ≤ 'F' then some (c.toNat - 'A'.toNat + 10)
  else none

/-- The value of four hexadecimal digits. -/
def hex4? (a b c d : Char) : Option Nat := do
  let a ← hexValue? a
  let b ← hexValue? b
  let c ← hexValue? c
  let d ← hexValue? d
  return ((a * 16 + b) * 16 + c) * 16 + d

def isHighSurrogate (u : Nat) : Bool := 0xD800 ≤ u && u < 0xDC00

def isLowSurrogate (u : Nat) : Bool := 0xDC00 ≤ u && u < 0xE000

/-- The character of a surrogate pair. -/
def joinSurrogates (high low : Nat) : Char :=
  Char.ofNat (0x10000 + (high - 0xD800) * 0x400 + (low - 0xDC00))

/-- The character that a one-letter escape stands for. -/
def unescape? : Char → Option Char
  | '"' => some '"'
  | '\\' => some '\\'
  | '/' => some '/'
  | 'b' => some '\x08'
  | 'f' => some '\x0c'
  | 'n' => some '\n'
  | 'r' => some '\r'
  | 't' => some '\t'
  | _ => none

/-- Puts a character in front of what the rest of a string gives. -/
def consChar (c : Char) : Option (List Char × List Char) → Option (List Char × List Char)
  | some (cs, rest) => some (c :: cs, rest)
  | none => none

/-- The characters of a string up to its closing quote, and what follows the quote. -/
def stringBody : List Char → Option (List Char × List Char)
  | [] => none
  | '"' :: rest => some ([], rest)
  | '\\' :: 'u' :: a :: b :: c :: d :: rest =>
    match hex4? a b c d with
    | none => none
    | some u =>
      if isHighSurrogate u then
        match rest with
        | '\\' :: 'u' :: e :: f :: g :: h :: rest =>
          match hex4? e f g h with
          | none => none
          | some low =>
            if isLowSurrogate low then consChar (joinSurrogates u low) (stringBody rest) else none
        | _ => none
      else if isLowSurrogate u then none
      else consChar (Char.ofNat u) (stringBody rest)
  | '\\' :: c :: rest =>
    match unescape? c with
    | some c => consChar c (stringBody rest)
    | none => none
  | c :: rest => if c = '\\' || c.toNat < 32 then none else consChar c (stringBody rest)
termination_by structural cs => cs

/-- What follows a string, whether or not its escapes name characters. -/
def skipString : List Char → Option (List Char)
  | [] => none
  | '"' :: rest => some rest
  | '\\' :: 'u' :: a :: b :: c :: d :: rest =>
    if (hex4? a b c d).isSome then skipString rest else none
  | '\\' :: c :: rest => if (unescape? c).isSome then skipString rest else none
  | c :: rest => if c = '\\' || c.toNat < 32 then none else skipString rest
termination_by structural cs => cs

/-- A string behind its opening quote, if its escapes name characters, and what follows it. -/
def readString (cs : List Char) : Option (Option String × List Char) :=
  match stringBody cs with
  | some (s, rest) => some (some (String.ofList s), rest)
  | none => (skipString cs).map (none, ·)

/-! ## Numbers -/

/-- The digits at the front, and what follows them. -/
def digits (cs : List Char) : List Char × List Char := cs.span Char.isDigit

/-- The digits of a whole number: a zero stands alone. -/
def wholePart? (cs : List Char) : Option (List Char × List Char) :=
  match digits cs with
  | ([], _) => none
  | ('0' :: _ :: _, _) => none
  | (ds, rest) => some (ds, rest)

/-- A point and digits, if there is a point. -/
def fraction? : List Char → Option (List Char × List Char)
  | '.' :: cs =>
    match digits cs with
    | ([], _) => none
    | (ds, rest) => some ('.' :: ds, rest)
  | cs => some ([], cs)

/-- The sign of an exponent. -/
def exponentSign : List Char → List Char × List Char
  | '+' :: cs => (['+'], cs)
  | '-' :: cs => (['-'], cs)
  | cs => ([], cs)

/-- An exponent, if there is one. -/
def exponent? : List Char → Option (List Char × List Char)
  | [] => some ([], [])
  | c :: cs =>
    if c = 'e' || c = 'E' then
      let (sign, cs) := exponentSign cs
      match digits cs with
      | ([], _) => none
      | (ds, rest) => some (c :: sign ++ ds, rest)
    else some ([], c :: cs)

/-- A numeral after its sign. -/
def unsignedNumeral (negative : Bool) (cs : List Char) : Option (Json × List Char) := do
  let (whole, rest) ← wholePart? cs
  let (fraction, rest) ← fraction? rest
  let (exponent, rest) ← exponent? rest
  let n := Nat.ofDigitChars 10 whole 0
  if fraction = [] && exponent = [] && !(negative && n == 0) then
    return (.number (if negative then -n else n), rest)
  else
    let sign := if negative then ['-'] else []
    return (.decimal (String.ofList (sign ++ whole ++ fraction ++ exponent)), rest)

/-- A numeral. -/
def readNumeral : List Char → Option (Json × List Char)
  | '-' :: cs => unsignedNumeral true cs
  | cs => unsignedNumeral false cs

/-! ## Values -/

/-- How deep arrays and objects may nest. -/
def maxDepth : Nat := 127

/-- An array or object at a place where so many levels are left. -/
def nested (depth : Nat) (j : Json) : Json := if depth = 0 then .unreadable else j

/-- Puts a member in front of others, if its name and theirs are readable. -/
def consMember (name : Option String) (x : Json) (ms : Option (List (String × Json))) :
    Option (List (String × Json)) := do
  return (← name, x) :: (← ms)

/-- The object of some members, if their names are readable. -/
def ofMembers : Option (List (String × Json)) → Json
  | some ms => .object ms
  | none => .unreadable

mutual
/-- A value at the front of a text, after blanks, where so many levels are left. -/
def value : Nat → Nat → List Char → Option (Json × List Char)
  | 0, _, _ => none
  | fuel + 1, depth, cs =>
    match skipBlanks cs with
    | 'n' :: 'u' :: 'l' :: 'l' :: rest => some (.null, rest)
    | 't' :: 'r' :: 'u' :: 'e' :: rest => some (.bool true, rest)
    | 'f' :: 'a' :: 'l' :: 's' :: 'e' :: rest => some (.bool false, rest)
    | '"' :: rest =>
      match readString rest with
      | some (some s, rest) => some (.string s, rest)
      | some (none, rest) => some (.unreadable, rest)
      | none => none
    | '[' :: rest =>
      match skipBlanks rest with
      | ']' :: rest => some (nested depth (.array []), rest)
      | rest =>
        match items fuel (depth - 1) rest with
        | some (xs, rest) => some (nested depth (.array xs), rest)
        | none => none
    | '\x7b' :: rest =>
      match skipBlanks rest with
      | '\x7d' :: rest => some (nested depth (.object []), rest)
      | rest =>
        match members fuel (depth - 1) rest with
        | some (ms, rest) => some (nested depth (ofMembers ms), rest)
        | none => none
    | rest => readNumeral rest

/-- At least one item, and the bracket that ends them. -/
def items : Nat → Nat → List Char → Option (List Json × List Char)
  | 0, _, _ => none
  | fuel + 1, depth, cs =>
    match value fuel depth cs with
    | none => none
    | some (x, rest) =>
      match skipBlanks rest with
      | ']' :: rest => some ([x], rest)
      | ',' :: rest =>
        match items fuel depth rest with
        | some (xs, rest) => some (x :: xs, rest)
        | none => none
      | _ => none

/-- At least one member, and the brace that ends them. -/
def members : Nat → Nat → List Char → Option (Option (List (String × Json)) × List Char)
  | 0, _, _ => none
  | fuel + 1, depth, cs =>
    match skipBlanks cs with
    | '"' :: rest =>
      match readString rest with
      | none => none
      | some (name, rest) =>
        match skipBlanks rest with
        | ':' :: rest =>
          match value fuel depth rest with
          | none => none
          | some (x, rest) =>
            match skipBlanks rest with
            | '\x7d' :: rest => some (consMember name x (some []), rest)
            | ',' :: rest =>
              match members fuel depth rest with
              | some (ms, rest) => some (consMember name x ms, rest)
              | none => none
            | _ => none
        | _ => none
    | _ => none
end

/-- The value that a whole text spells. -/
def parse? (s : String) : Option Json :=
  let cs := s.toList
  match value (2 * cs.length + 1) maxDepth cs with
  | some (j, rest) => if skipBlanks rest = [] then some j else none
  | none => none

example : parse? " [1, -2, \"\\u00e9\"] " =
    some (.array [.number 1, .number (-2), .string "é"]) := by decide +kernel
example : parse? "[1,]" = none ∧ parse? "01" = none ∧ parse? "1 x" = none := by decide +kernel
example : parse? "[\"\\ud83d\", 1]" = some (.array [.unreadable, .number 1]) := by decide +kernel

end Circuitry.Json
