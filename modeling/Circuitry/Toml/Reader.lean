/-
  Reading TOML text.

  1. `value` reads a value, with arrays over several lines and tables in one line.  It spends a unit
     of fuel for each value, item and key it looks at, and each of these is at least one character
     long;
  2. `statements` reads the lines of a document: headers, keys with values, comments;
  3. `parse?` is the whole: the fields of the root table, or nothing.
-/
import Circuitry.Toml.Scalar
import Circuitry.Toml.Table

namespace Circuitry.Toml

/-! ## Between tokens -/

/-- Passes over blanks, line breaks and comments, inside a comment or not. -/
def skipFill (comment : Bool) : List Char → List Char
  | [] => []
  | '\r' :: '\n' :: rest => skipFill false rest
  | c :: rest =>
    if c = '\n' then skipFill false rest
    else if comment then
      if isText c then skipFill true rest else c :: rest
    else if isBlank c then skipFill false rest
    else if c = '#' then skipFill true rest
    else c :: rest

/-- Passes over a comment. -/
def skipComment : List Char → List Char
  | '#' :: rest => rest.dropWhile isText
  | rest => rest

/-- The rest after the end of a line: blanks, perhaps a comment, and a line break or the end. -/
def lineEnd? (cs : List Char) : Option (List Char) :=
  match skipComment (skipBlanks cs) with
  | [] => some []
  | '\n' :: rest => some rest
  | '\r' :: '\n' :: rest => some rest
  | _ => none

/-! ## Keys -/

/-- One part of a key: bare, or in quotes. -/
def simpleKey? : List Char → Option (String × List Char)
  | '"' :: rest => (basicBody rest).map fun (s, rest) => (String.ofList s, rest)
  | '\'' :: rest => (literalBody rest).map fun (s, rest) => (String.ofList s, rest)
  | cs =>
    match cs.takeWhile isBare with
    | [] => none
    | bare => some (String.ofList bare, cs.dropWhile isBare)

/-- The parts of a key, with blanks around each. -/
def keyParts : Nat → List Char → Option (List String × List Char)
  | 0, _ => none
  | fuel + 1, cs => do
    let (part, rest) ← simpleKey? (skipBlanks cs)
    match skipBlanks rest with
    | '.' :: rest => do
      let (parts, rest) ← keyParts fuel rest
      return (part :: parts, rest)
    | rest => return ([part], rest)

/-- How many parts a key may have, and how deep values may nest. -/
def maxDepth : Nat := 79

/-- A key: the parts before the last one, and the last one. -/
def key? (cs : List Char) : Option (List String × String × List Char) := do
  let (parts, rest) ← keyParts (cs.length + 1) cs
  if maxDepth < parts.length then none
  else return (parts.dropLast, ← parts.getLast?, rest)

/-! ## Values -/

mutual
/-- A value at the front of a text. -/
def value : (fuel depth : Nat) → List Char → Option (Toml × List Char)
  | 0, _, _ => none
  | fuel + 1, depth, cs =>
    match cs with
    | '[' :: rest =>
      match depth with
      | 0 => none
      | depth + 1 =>
        match items fuel depth rest with
        | some (xs, rest) => some (.array xs, rest)
        | none => none
    | '\x7b' :: rest =>
      match depth with
      | 0 => none
      | depth + 1 =>
        match skipBlanks rest with
        | '\x7d' :: rest => some (.table [], rest)
        | rest =>
          match pairs fuel depth [] rest with
          | some (fields, rest) => some (.table (finishFields fields), rest)
          | none => none
    | _ => scalar? cs

/-- The items of an array up to its closing bracket; a comma may follow the last one. -/
def items : (fuel depth : Nat) → List Char → Option (List Toml × List Char)
  | 0, _, _ => none
  | fuel + 1, depth, cs =>
    match skipFill false cs with
    | ']' :: rest => some ([], rest)
    | rest =>
      match value fuel depth rest with
      | none => none
      | some (x, rest) =>
        match skipFill false rest with
        | ']' :: rest => some ([x], rest)
        | ',' :: rest =>
          match items fuel depth rest with
          | some (xs, rest) => some (x :: xs, rest)
          | none => none
        | _ => none

/-- The keys and values of a table in one line up to its closing brace, added to what it has. -/
def pairs : (fuel depth : Nat) → Fields → List Char → Option (Fields × List Char)
  | 0, _, _, _ => none
  | fuel + 1, depth, fields, cs =>
    match key? cs with
    | some (path, last, '=' :: rest) =>
      match value fuel depth (skipBlanks rest) with
      | none => none
      | some (v, rest) =>
        match fields.addDotted path last v with
        | none => none
        | some fields =>
          match skipBlanks rest with
          | '\x7d' :: rest => some (fields, rest)
          | ',' :: rest => pairs fuel depth fields rest
          | _ => none
    | _ => none
end

/-! ## Documents -/

/-- A header behind its opening bracket: the path, and the rest behind the closing bracket. -/
def headerPath? (cs : List Char) : Option (List String × List Char) := do
  let (path, last, rest) ← key? cs
  match rest with
  | ']' :: rest => return (path ++ [last], rest)
  | _ => none

/-- The lines of a document below a header, added to what the root has. -/
def statements : (fuel : Nat) → (header : List String) → Fields → List Char → Option Fields
  | 0, _, _, _ => none
  | fuel + 1, header, root, cs =>
    match skipBlanks cs with
    | [] => some root
    | '[' :: '[' :: rest => do
      let (path, rest) ← headerPath? rest
      let root ← root.openItem path
      match rest with
      | ']' :: rest => statements fuel path root (← lineEnd? rest)
      | _ => none
    | '[' :: rest => do
      let (path, rest) ← headerPath? rest
      let root ← root.openTable path
      statements fuel path root (← lineEnd? rest)
    | '#' :: rest => do statements fuel header root (← lineEnd? ('#' :: rest))
    | '\n' :: rest => statements fuel header root rest
    | '\r' :: '\n' :: rest => statements fuel header root rest
    | rest => do
      let (path, last, rest) ← key? rest
      match rest with
      | '=' :: rest => do
        let rest := skipBlanks rest
        let (v, rest) ← value (2 * rest.length + 1) maxDepth rest
        let root ← root.addBelow header path last v
        statements fuel header root (← lineEnd? rest)
      | _ => none

/-- The characters of a text without a byte-order mark. -/
def withoutMark : List Char → List Char
  | '\ufeff' :: rest => rest
  | rest => rest

/-- The root table that a whole text spells. -/
def parse? (s : String) : Option (List (String × Toml)) :=
  let cs := withoutMark s.toList
  (statements (cs.length + 1) [] [] cs).map finishFields

end Circuitry.Toml
