/-
  Numerals of any length.

  1. `Bits.ofDigits?` reads digits of a radix into the least width that holds them, one
     multiply-and-add over the words for each digit;
  2. `Numeral.read` reads a spelled literal: a radix letter, then digits in which underscores are
     only there to be read over.  Reading never fails: what is wrong is listed beside a value that
     still can be used, and binary and hexadecimal spellings also say a width;
  3. `unsignedBits` and `signedBits` are the least widths that hold an integer.
-/
import Circuitry.Bits
import Circuitry.Width

namespace Circuitry

/-- The value of a digit in bases up to 36, in either letter case. -/
def digitValue? (c : Char) : Option Nat :=
  if '0' ≤ c ∧ c ≤ '9' then some (c.toNat - '0'.toNat)
  else if 'a' ≤ c ∧ c ≤ 'z' then some (c.toNat - 'a'.toNat + 10)
  else if 'A' ≤ c ∧ c ≤ 'Z' then some (c.toNat - 'A'.toNat + 10)
  else none

/-- The value of a digit of one radix. -/
def digitIn? (radix : Nat) (c : Char) : Option Nat := (digitValue? c).filter (· < radix)

/-- The words of a numeral that continues one already read. -/
def digitWords? (radix : Nat) : List UInt64 → List Char → Option (List UInt64)
  | words, [] => some words
  | words, c :: cs =>
    (digitIn? radix c).bind fun d => digitWords? radix (Words.mulAdd radix d words) cs

namespace Bits

/-- The number that a digit string spells, in the least width (at least 1) that holds it. -/
def ofDigits? (radix : Nat) (digits : List Char) : Option Bits :=
  if digits = [] then none
  else (digitWords? radix [0] digits).map fun words =>
    let n := Words.toNat words
    ofNat (UInt32.ofNat (max 1 (Words.bitLength n))) n

end Bits

/-- Bits needed for a natural number, at least one. -/
def unsignedBits (n : Nat) : Nat := max 1 (Words.bitLength n)

/-- Bits needed for an integer in two's complement, its sign included. -/
def signedBits (i : Int) : Nat := Words.bitLength (if i < 0 then (-i - 1).toNat else i.toNat) + 1

namespace Numeral

/-- What is wrong with a spelled literal. -/
inductive Issue where
  /-- The first character names no radix. -/
  | unknownRadix (letter : Char)
  /-- There is no character at all. -/
  | empty
  /-- Nothing follows the radix letter. -/
  | noDigits
  /-- Some character is no digit of the radix. -/
  | badDigits (digits : List Char) (radix : Nat)
  deriving DecidableEq, Repr

/-- The wording for digits that cannot be read; an unknown radix is reported in its own words. -/
def Issue.reason : Issue → String
  | .unknownRadix letter => "unknown radix " ++ letter.toString
  | .empty => "literal is empty"
  | .noDigits => "no digits after the radix prefix"
  | .badDigits digits radix =>
    "\"" ++ String.ofList digits ++ "\" is not a valid base-" ++ toString radix ++ " number"

/-- The outcome of reading a literal. -/
structure Reading where
  /-- The value read, or one zero bit. -/
  value : Bits
  /-- The width that the spelling implies. -/
  width : Width
  /-- Everything wrong with the spelling, in the order found. -/
  issues : List Issue
  deriving DecidableEq, Repr

/-- The base that a radix letter names. -/
def radixOf? : Char → Option Nat
  | 'b' => some 2
  | 'o' => some 8
  | 'd' => some 10
  | 'h' => some 16
  | 'x' => some 16
  | _ => none

/-- The width of a numeral with this many digits: binary digits are one bit each, hexadecimal ones
    four, and the others say nothing. -/
def spelledWidth (radix digits : Nat) : Width :=
  if radix = 2 then .known (UInt32.ofNat digits)
  else if radix = 16 then .known (UInt32.ofNat (4 * digits))
  else .unknown

/-- Reads the digits of a numeral after its radix letter. -/
def readDigits (radix : Nat) (digits : List Char) : Bits × List Issue :=
  match Bits.ofDigits? radix digits with
  | some value => (value, [])
  | none => (Bits.zero 1, [if digits = [] then .noDigits else .badDigits digits radix])

/-- Reads a radix letter and digits.  After an unknown letter the digits are taken as binary; digits
    that cannot be read stand for zero. -/
def read : List Char → Reading
  | [] => ⟨Bits.zero 1, .unknown, [.empty]⟩
  | letter :: rest =>
    let (radix, unknown) := match radixOf? letter with
      | some radix => (radix, [])
      | none => (2, [Issue.unknownRadix letter])
    let digits := rest.filter (· ≠ '_')
    let (value, bad) := readDigits radix digits
    ⟨value, spelledWidth radix digits.length, unknown ++ bad⟩

example : (read "hdead_beef".toList).value = Bits.ofNat 32 0xdeadbeef := by decide +kernel
example : (read "q101".toList).issues = [.unknownRadix 'q'] := by decide +kernel
example : unsignedBits 8 = 4 ∧ signedBits (-4) = 3 ∧ signedBits (-5) = 4 := by decide

end Numeral

end Circuitry
