/-
  What can be wrong with a description.

  Each fault has a code, a message and a diagnostic.  Faults that only spoil one value are
  accumulated: they are reported, a stand-in takes the place of the value, and the description goes
  on, so that one run shows several of them.  Every other fault ends the call that meets it.
-/
import Circuitry.Diagnostic
import Circuitry.Numeral
import Circuitry.Operator

namespace Circuitry.Draft

/-- Why a signal cannot be an operand. -/
inductive Unfit where
  /-- It is still a template. -/
  | template
  /-- It belongs to another circuit. -/
  | foreign
  deriving DecidableEq, Repr

/-- What is wrong with a literal. -/
inductive LiteralIssue where
  /-- The number needs more bits than its width has. -/
  | tooWide (needed : Nat) (width : UInt32)
  /-- The number and its sign need more bits than its width has. -/
  | tooWideSigned (needed : Nat) (width : UInt32)
  /-- The spelling cannot be read. -/
  | spelling (issue : Numeral.Issue)
  deriving DecidableEq, Repr

def LiteralIssue.text : LiteralIssue → String
  | .tooWide needed width =>
    "value needs " ++ toString needed ++ " bits but the width is " ++ toString width
  | .tooWideSigned needed width =>
    "value needs " ++ toString needed ++ " signed bits but the width is " ++ toString width
  | .spelling issue => issue.reason

/-- How two widths or shapes disagree. -/
inductive WidthIssue where
  /-- A value that has to be one bit wide is not. -/
  | notOneBit (width : UInt32)
  /-- Two aggregates have different numbers of leaves. -/
  | leafCounts (left right : Nat)
  /-- Two leaves in one place have different widths. -/
  | leafWidths (path : String) (left right : Width)
  deriving DecidableEq, Repr

def WidthIssue.text : WidthIssue → String
  | .notOneBit width => "operand is " ++ toString width ++ " bits wide, expected 1"
  | .leafCounts left right => toString left ++ " leaves vs " ++ toString right ++ " leaves"
  | .leafWidths path left right =>
    "field `" ++ path ++ "` is " ++ left.bareText ++ " bits vs " ++ right.bareText ++ " bits"

/-- A fault of a description. -/
inductive Fault where
  /-- A signal was to be bound a second time. -/
  | alreadyBound (current requested : Role)
  | notSynthesizable (ty : Ty) (why : Unfit)
  | invalidBitRange (hi lo : Int)
  | negativeIndex (index : Int)
  /-- Two signals that have to be of one kind are not. -/
  | typeMismatch (context : String) (left right : Ty)
  | widthMismatch (context : String) (issue : WidthIssue)
  /-- The first character of a literal names no radix. -/
  | invalidRadix (letter : Char) (text : String)
  | invalidLiteral (text : String) (issue : LiteralIssue)
  | indexOutOfRange (index : Int) (width : UInt32)
  | notAssignable (role : Role)
  | shiftAmountTooWide (width limit : UInt32)
  | errorLimitReached (limit : Nat)
  /-- Something that no use of the description language should lead to. -/
  | internal (message : String)
  deriving DecidableEq, Repr

namespace Fault

/-- The kind of fault as a number. -/
def code : Fault → Code
  | .alreadyBound _ _ => ⟨300⟩
  | .notSynthesizable _ _ => ⟨301⟩
  | .invalidBitRange _ _ => ⟨302⟩
  | .negativeIndex _ => ⟨303⟩
  | .typeMismatch _ _ _ => ⟨304⟩
  | .widthMismatch _ _ => ⟨305⟩
  | .invalidRadix _ _ => ⟨306⟩
  | .invalidLiteral _ _ => ⟨307⟩
  | .indexOutOfRange _ _ => ⟨308⟩
  | .notAssignable _ => ⟨309⟩
  | .shiftAmountTooWide _ _ => ⟨310⟩
  | .errorLimitReached _ => ⟨311⟩
  | .internal _ => ⟨399⟩

/-- Whether the fault is reported and then made up for by a stand-in. -/
def accumulates : Fault → Bool
  | .invalidBitRange _ _ | .negativeIndex _ | .indexOutOfRange _ _ | .invalidRadix _ _
  | .invalidLiteral _ _ | .shiftAmountTooWide _ _ => true
  | _ => false

def message : Fault → String
  | .alreadyBound current requested =>
    "value is already bound as " ++ current.text ++ "; cannot bind it as " ++ requested.text
  | .notSynthesizable ty .template =>
    "operand is not synthesizable: " ++ ty.text ++
      " is an unbound type template; declare it as a port, wire or register first"
  | .notSynthesizable ty .foreign =>
    "operand is not synthesizable: " ++ ty.text ++ " belongs to a different elaboration context"
  | .invalidBitRange hi lo =>
    "invalid bit range [" ++ toString hi ++ ":" ++ toString lo ++ "]: requires hi >= lo >= 0"
  | .negativeIndex index => "negative bit index " ++ toString index
  | .typeMismatch context left right =>
    "type mismatch in " ++ context ++ ": " ++ left.text ++ " vs " ++ right.text
  | .widthMismatch context issue => "width mismatch in " ++ context ++ ": " ++ issue.text
  | .invalidRadix letter text =>
    "invalid radix prefix '" ++ letter.toString ++ "' in literal \"" ++ text ++
      "\"; parsing digits as binary"
  | .invalidLiteral text issue => "invalid literal \"" ++ text ++ "\": " ++ issue.text
  | .indexOutOfRange index width =>
    "bit index " ++ toString index ++ " out of range for " ++ toString width ++ "-bit value"
  | .notAssignable role =>
    "cannot connect to a " ++ role.text ++ "; only ports, wires and registers are assignable"
  | .shiftAmountTooWide width limit =>
    "dynamic shift amount is " ++ toString width ++ " bits wide; the limit is " ++ toString limit
  | .errorLimitReached limit => "aborting after " ++ toString limit ++ " errors"
  | .internal message => "internal elaborator error: " ++ message

/-- A label on the place where the offending signal was made, which is not kept. -/
def createdHere (message : String) : Label := ⟨.unknown, message, .secondary⟩

/-- The fault as it is reported. -/
def toDiagnostic (f : Fault) : Diagnostic :=
  let d := Diagnostic.error f.code f.message .unknown
  match f with
  | .alreadyBound _ _ =>
    { d with
      labels := [createdHere "value created here"]
      help := ["create a fresh template for each declaration"] }
  | .notSynthesizable _ _ => { d with labels := [createdHere "operand created here"] }
  | .invalidRadix _ _ => { d with notes := ["valid prefixes are b, o, d, h and x"] }
  | .internal _ => { d with notes := ["this is a bug in the elaborator"] }
  | _ => d

end Fault

end Circuitry.Draft
