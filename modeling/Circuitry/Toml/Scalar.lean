/-
  Scalars in TOML text.

  Strings in their four forms, numbers, moments of time and truth values.  Every reader takes what it
  can from the front of the text and leaves the rest, or gives nothing.

  A reader stops where its form ends.  What may follow a value is looked at afterwards, so a number
  with a stray letter behind it is refused by the reader of the line.
-/
import Circuitry.Numeral
import Circuitry.Toml

namespace Circuitry.Toml

/-! ## Characters -/

/-- A blank inside a line. -/
def isBlank (c : Char) : Bool := c = ' ' || c = '\t'

/-- A character that may stand in strings and comments: no control character but the tab. -/
def isText (c : Char) : Bool := c = '\t' || (32 ≤ c.toNat && c.toNat ≠ 127)

/-- A character of a bare key. -/
def isBare (c : Char) : Bool := c.isAlphanum || c = '_' || c = '-'

def skipBlanks (cs : List Char) : List Char := cs.dropWhile isBlank

/-! ## Strings in one line -/

/-- Puts a character in front of what the rest of a string gives. -/
def consChar (c : Char) : Option (List Char × List Char) → Option (List Char × List Char)
  | some (cs, rest) => some (c :: cs, rest)
  | none => none

/-- The character that a one-letter escape stands for. -/
def unescape? : Char → Option Char
  | 'b' => some '\x08'
  | 't' => some '\t'
  | 'n' => some '\n'
  | 'f' => some '\x0c'
  | 'r' => some '\r'
  | '"' => some '"'
  | '\\' => some '\\'
  | _ => none

/-- The character with a hexadecimal number. -/
def charOfHex? (digits : List Char) : Option Char := do
  let values ← digits.mapM (digitIn? 16)
  let n := values.foldl (fun acc d => 16 * acc + d) 0
  if n.isValidChar then some (Char.ofNat n) else none

/-- The characters up to a closing double quote. -/
def basicBody : List Char → Option (List Char × List Char)
  | [] => none
  | '"' :: rest => some ([], rest)
  | '\\' :: 'u' :: a :: b :: c :: d :: rest =>
    match charOfHex? [a, b, c, d] with
    | some x => consChar x (basicBody rest)
    | none => none
  | '\\' :: 'U' :: a :: b :: c :: d :: e :: f :: g :: h :: rest =>
    match charOfHex? [a, b, c, d, e, f, g, h] with
    | some x => consChar x (basicBody rest)
    | none => none
  | '\\' :: c :: rest =>
    match unescape? c with
    | some x => consChar x (basicBody rest)
    | none => none
  | c :: rest => if isText c && c ≠ '\\' then consChar c (basicBody rest) else none
termination_by structural cs => cs

/-- The characters up to a closing single quote. -/
def literalBody : List Char → Option (List Char × List Char)
  | [] => none
  | '\'' :: rest => some ([], rest)
  | c :: rest => if isText c then consChar c (literalBody rest) else none

/-! ## Strings over several lines -/

/-- The end of a string of several lines, after its three quotes: up to two more quotes belong to
    the string. -/
def closing (quote : Char) : List Char → List Char × List Char
  | c :: d :: rest =>
    if c = quote then
      if d = quote then ([quote, quote], rest) else ([quote], d :: rest)
    else ([], c :: d :: rest)
  | [c] => if c = quote then ([quote], []) else ([], [c])
  | [] => ([], [])

/-- Where a reader of several lines stands after a backslash at the end of a line. -/
inductive Folding where
  /-- Among the characters of the string. -/
  | text
  /-- Behind the backslash, before the line break. -/
  | lineEnd
  /-- Behind the line break, before the next character. -/
  | lineStart
  deriving DecidableEq

/-- The characters up to three double quotes.  A backslash at the end of a line takes away the line
    break and all blanks and line breaks after it. -/
def multilineBody (at_ : Folding) : List Char → Option (List Char × List Char)
  | [] => none
  | '"' :: '"' :: '"' :: rest =>
    if at_ = .lineEnd then none else some (closing '"' rest)
  | '\r' :: '\n' :: rest =>
    if at_ = .text then consChar '\n' (multilineBody .text rest) else multilineBody .lineStart rest
  | '\\' :: 'u' :: a :: b :: c :: d :: rest =>
    if at_ = .lineEnd then none
    else
      match charOfHex? [a, b, c, d] with
      | some x => consChar x (multilineBody .text rest)
      | none => none
  | '\\' :: 'U' :: a :: b :: c :: d :: e :: f :: g :: h :: rest =>
    if at_ = .lineEnd then none
    else
      match charOfHex? [a, b, c, d, e, f, g, h] with
      | some x => consChar x (multilineBody .text rest)
      | none => none
  | '\\' :: c :: rest =>
    if at_ = .lineEnd then none
    else if isBlank c then multilineBody .lineEnd rest
    else if c = '\n' then multilineBody .lineStart rest
    else if c = '\r' then
      match rest with
      | '\n' :: rest => multilineBody .lineStart rest
      | _ => none
    else
      match unescape? c with
      | some x => consChar x (multilineBody .text rest)
      | none => none
  | c :: rest =>
    if c = '\n' then
      if at_ = .text then consChar c (multilineBody .text rest) else multilineBody .lineStart rest
    else if isBlank c && at_ ≠ .text then multilineBody at_ rest
    else if isText c && c ≠ '\\' && at_ ≠ .lineEnd then consChar c (multilineBody .text rest)
    else none
termination_by structural cs => cs

/-- The characters up to three single quotes. -/
def multilineLiteralBody : List Char → Option (List Char × List Char)
  | [] => none
  | '\'' :: '\'' :: '\'' :: rest => some (closing '\'' rest)
  | '\r' :: '\n' :: rest => consChar '\n' (multilineLiteralBody rest)
  | c :: rest => if isText c || c = '\n' then consChar c (multilineLiteralBody rest) else none

/-- Passes over a line break right behind the opening quotes. -/
def skipFirstBreak : List Char → List Char
  | '\n' :: rest => rest
  | '\r' :: '\n' :: rest => rest
  | rest => rest

/-- A string in any of its forms. -/
def string? : List Char → Option (List Char × List Char)
  | '"' :: '"' :: '"' :: rest => multilineBody .text (skipFirstBreak rest)
  | '"' :: rest => basicBody rest
  | '\'' :: '\'' :: '\'' :: rest => multilineLiteralBody (skipFirstBreak rest)
  | '\'' :: rest => literalBody rest
  | _ => none

/-! ## Numbers -/

/-- Digits in which single underscores may stand between two digits.  They are dropped. -/
def moreDigits (isDigit : Char → Bool) : List Char → List Char × List Char
  | '_' :: c :: rest =>
    if isDigit c then
      let (ds, rest) := moreDigits isDigit rest
      (c :: ds, rest)
    else ([], '_' :: c :: rest)
  | c :: rest =>
    if isDigit c then
      let (ds, rest) := moreDigits isDigit rest
      (c :: ds, rest)
    else ([], c :: rest)
  | [] => ([], [])

/-- At least one digit. -/
def digits? (isDigit : Char → Bool) : List Char → Option (List Char × List Char)
  | c :: rest =>
    if isDigit c then
      let (ds, rest) := moreDigits isDigit rest
      some (c :: ds, rest)
    else none
  | [] => none

/-- A sign, if there is one. -/
def sign : List Char → List Char × List Char
  | '+' :: rest => (['+'], rest)
  | '-' :: rest => (['-'], rest)
  | rest => ([], rest)

/-- The digits of a decimal number: a zero stands alone. -/
def whole? : List Char → Option (List Char × List Char)
  | '0' :: rest => some (['0'], rest)
  | cs => digits? Char.isDigit cs

/-- An integer, if it fits 64 bits with its sign. -/
def integerOf? (negative : Bool) (n : Nat) : Option Toml :=
  let i : Int := if negative then -n else n
  if -2 ^ 63 ≤ i ∧ i < 2 ^ 63 then some (.integer i) else none

/-- The number that digits of a radix spell. -/
def ofDigits (radix : Nat) (digits : List Char) : Nat :=
  digits.foldl (fun acc c => radix * acc + (digitIn? radix c).getD 0) 0

/-- The digits of a number after its radix mark. -/
def marked? (radix : Nat) (cs : List Char) : Option (Toml × List Char) := do
  let (ds, rest) ← digits? (fun c => (digitIn? radix c).isSome) cs
  return (← integerOf? false (ofDigits radix ds), rest)

/-- An integer in any of its forms. -/
def integer? (cs : List Char) : Option (Toml × List Char) :=
  match cs with
  | '0' :: 'x' :: rest => marked? 16 rest
  | '0' :: 'o' :: rest => marked? 8 rest
  | '0' :: 'b' :: rest => marked? 2 rest
  | _ => do
    let (s, rest) := sign cs
    let (ds, rest) ← whole? rest
    return (← integerOf? (s = ['-']) (ofDigits 10 ds), rest)

/-- A point and digits. -/
def fraction? : List Char → Option (List Char × List Char)
  | '.' :: rest => digits? Char.isDigit rest
  | _ => none

/-- An exponent: its sign and its digits. -/
def exponent? : List Char → Option (List Char × List Char × List Char)
  | c :: rest =>
    if c = 'e' || c = 'E' then do
      let (s, rest) := sign rest
      let (ds, rest) ← digits? Char.isDigit rest
      return (s, ds, rest)
    else none
  | [] => none

/-- The least number that is nearer to infinity than to the largest number of double precision. -/
def floatLimit : Nat := 2 ^ 1024 - 2 ^ 970

/-- Whether the number `digits · 10 ^ exponent` has no finite value in double precision. -/
def isTooLarge (digits : List Char) (exponent : Int) : Bool :=
  let n := ofDigits 10 digits
  if n = 0 then false
  else
    let size := (Nat.toDigits 10 n).length + exponent
    if 310 < size then true
    else if size < 300 then false
    else if 0 ≤ exponent then floatLimit ≤ n * 10 ^ exponent.toNat
    else floatLimit * 10 ^ (-exponent).toNat ≤ n

/-- A number with a fraction, an exponent or both, or one of the special numbers.  A positive number
    too large for double precision is refused. -/
def float? (cs : List Char) : Option (Toml × List Char) :=
  let (s, rest) := sign cs
  match rest with
  | 'i' :: 'n' :: 'f' :: rest => some (.float (String.ofList (s ++ ['i', 'n', 'f'])), rest)
  | 'n' :: 'a' :: 'n' :: rest => some (.float (String.ofList (s ++ ['n', 'a', 'n'])), rest)
  | _ => do
    let (ds, rest) ← whole? rest
    let (fs, afterFraction) := (fraction? rest).getD ([], rest)
    let (es, xs, rest) := (exponent? afterFraction).getD ([], [], afterFraction)
    if fs = [] ∧ xs = [] then none
    else
      let e : Int := if es = ['-'] then -(ofDigits 10 xs) else ofDigits 10 xs
      if s ≠ ['-'] ∧ isTooLarge (ds ++ fs) (e - fs.length) then none
      else
        let point := if fs = [] then [] else '.' :: fs
        let power := if xs = [] then [] else 'e' :: es ++ xs
        some (.float (String.ofList (s ++ ds ++ point ++ power)), rest)

/-! ## Moments -/

/-- Two digits that spell a number of a range. -/
def twoDigits? (least greatest : Nat) : List Char → Option (Nat × List Char)
  | a :: b :: rest =>
    if a.isDigit && b.isDigit then
      let n := ofDigits 10 [a, b]
      if least ≤ n ∧ n ≤ greatest then some (n, rest) else none
    else none
  | _ => none

/-- One certain character. -/
def mark? (c : Char) : List Char → Option (List Char)
  | d :: rest => if c = d then some rest else none
  | [] => none

def isLeapYear (year : Nat) : Bool := year % 4 = 0 && (year % 100 ≠ 0 || year % 400 = 0)

/-- The number of days in a month. -/
def monthLength (year month : Nat) : Nat :=
  if month = 2 then (if isLeapYear year then 29 else 28)
  else if month = 4 ∨ month = 6 ∨ month = 9 ∨ month = 11 then 30
  else 31

/-- A day of the calendar: four digits, two and two.  Gives what follows. -/
def date? (cs : List Char) : Option (List Char) := do
  let year := cs.take 4
  if year.length = 4 ∧ year.all Char.isDigit then
    let rest ← mark? '-' (cs.drop 4)
    let (month, rest) ← twoDigits? 1 12 rest
    let (day, rest) ← twoDigits? 1 31 (← mark? '-' rest)
    if day ≤ monthLength (ofDigits 10 year) month then some rest else none
  else none

/-- A point and digits, if there are any. -/
def skipFraction : List Char → Option (List Char)
  | '.' :: rest =>
    if rest.takeWhile Char.isDigit = [] then none else some (rest.dropWhile Char.isDigit)
  | rest => some rest

/-- A time of day.  Gives what follows. -/
def time? (cs : List Char) : Option (List Char) := do
  let (_, rest) ← twoDigits? 0 23 cs
  let (_, rest) ← twoDigits? 0 59 (← mark? ':' rest)
  let (_, rest) ← twoDigits? 0 60 (← mark? ':' rest)
  skipFraction rest

/-- The offset of a time zone, if there is one. -/
def skipOffset (cs : List Char) : Option (List Char) :=
  match cs with
  | c :: rest =>
    if c = 'Z' || c = 'z' then some rest
    else if c = '+' || c = '-' then do
      let (_, rest) ← twoDigits? 0 23 rest
      let (_, rest) ← twoDigits? 0 59 (← mark? ':' rest)
      some rest
    else some cs
  | [] => some []

/-- A time of day behind a date, if there is one. -/
def skipTime (cs : List Char) : Option (List Char) :=
  match cs with
  | c :: rest =>
    if c = 'T' || c = 't' then (time? rest).bind skipOffset
    else if c = ' ' then
      match time? rest with
      | some rest => skipOffset rest
      | none => some cs
    else some cs
  | [] => some []

/-- A date, a time of day, or both. -/
def moment? (cs : List Char) : Option (Toml × List Char) := do
  let rest ← ((date? cs).bind skipTime).orElse fun _ => time? cs
  return (.moment (String.ofList (cs.take (cs.length - rest.length))), rest)

/-! ## Any scalar -/

/-- A scalar at the front of a text. -/
def scalar? (cs : List Char) : Option (Toml × List Char) :=
  match cs with
  | 't' :: 'r' :: 'u' :: 'e' :: rest => some (.boolean true, rest)
  | 'f' :: 'a' :: 'l' :: 's' :: 'e' :: rest => some (.boolean false, rest)
  | _ =>
    match string? cs with
    | some (s, rest) => some (.string (String.ofList s), rest)
    | none => ((moment? cs).orElse fun _ => float? cs).orElse fun _ => integer? cs

end Circuitry.Toml
