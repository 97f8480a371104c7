/-
  JSON in text.

  Two layouts of one tree: `compact` has no blanks at all, `pretty` puts every item and member on a
  line of its own, two blanks deeper for each level, with empty arrays and objects closed at once.

  In a string only quotes, backslashes and control characters are escaped: the five control characters
  that have a letter use it, the rest are written with four hexadecimal digits.
-/
import Circuitry.Json

namespace Circuitry.Json

/-! ## Pieces -/

/-- A character inside a quoted string. -/
def escape (c : Char) : List Char :=
  if c = '"' then ['\\', '"']
  else if c = '\\' then ['\\', '\\']
  else if c = '\x08' then ['\\', 'b']
  else if c = '\t' then ['\\', 't']
  else if c = '\n' then ['\\', 'n']
  else if c = '\x0c' then ['\\', 'f']
  else if c = '\r' then ['\\', 'r']
  else if c.toNat < 32 then
    ['\\', 'u', '0', '0', Nat.digitChar (c.toNat / 16), Nat.digitChar (c.toNat % 16)]
  else [c]

/-- A quoted string. -/
def quoted (s : String) : List Char := '"' :: s.toList.flatMap escape ++ ['"']

/-- A whole number in decimal digits. -/
def numeral (n : Int) : List Char :=
  if n < 0 then '-' :: Nat.toDigits 10 n.natAbs else Nat.toDigits 10 n.natAbs

/-- A value that is neither an array nor an object, in both layouts.  What is unreadable is written
    as null. -/
def scalar : Json → List Char
  | .null | .unreadable => ['n', 'u', 'l', 'l']
  | .bool true => ['t', 'r', 'u', 'e']
  | .bool false => ['f', 'a', 'l', 's', 'e']
  | .number n => numeral n
  | .decimal spelling => spelling.toList
  | .string s => quoted s
  | .array _ | .object _ => []

/-! ## Compact -/

mutual
/-- The characters of a value without blanks. -/
def chars : Json → List Char
  | .array xs => '[' :: itemChars xs ++ [']']
  | .object ms => '\x7b' :: memberChars ms ++ ['\x7d']
  | j => scalar j

/-- Items separated by commas. -/
def itemChars : List Json → List Char
  | [] => []
  | [x] => x.chars
  | x :: xs => x.chars ++ ',' :: itemChars xs

/-- Members separated by commas. -/
def memberChars : List (String × Json) → List Char
  | [] => []
  | [(n, x)] => quoted n ++ ':' :: x.chars
  | (n, x) :: ms => quoted n ++ ':' :: x.chars ++ ',' :: memberChars ms
end

/-- The value in one line without blanks. -/
def compact (j : Json) : String := String.ofList j.chars

/-! ## Pretty -/

/-- A line break and the blanks of a level. -/
def newline (level : Nat) : List Char := '\n' :: List.replicate (2 * level) ' '

mutual
/-- The characters of a value in the open layout, at a level. -/
def prettyChars (level : Nat) : Json → List Char
  | .array [] => ['[', ']']
  | .array xs => '[' :: prettyItems (level + 1) xs ++ newline level ++ [']']
  | .object [] => ['\x7b', '\x7d']
  | .object ms => '\x7b' :: prettyMembers (level + 1) ms ++ newline level ++ ['\x7d']
  | j => scalar j

/-- Items, one to a line. -/
def prettyItems (level : Nat) : List Json → List Char
  | [] => []
  | [x] => newline level ++ x.prettyChars level
  | x :: xs => newline level ++ x.prettyChars level ++ ',' :: prettyItems level xs

/-- Members, one to a line. -/
def prettyMembers (level : Nat) : List (String × Json) → List Char
  | [] => []
  | [(n, x)] => newline level ++ quoted n ++ ':' :: ' ' :: x.prettyChars level
  | (n, x) :: ms =>
    newline level ++ quoted n ++ ':' :: ' ' :: x.prettyChars level ++ ',' :: prettyMembers level ms
end

/-- The value with one item or member to a line. -/
def pretty (j : Json) : String := String.ofList (j.prettyChars 0)

example : compact (.object [("a", .array [.number 1, .null]), ("b", .string "x\ny")])
    = "\x7b\"a\":[1,null],\"b\":\"x\\ny\"\x7d" := by decide +kernel

end Circuitry.Json
