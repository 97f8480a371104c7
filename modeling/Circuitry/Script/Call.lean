/-
  Calls.

  A call is one use of the description language, with its operands named by variables.  Some calls add
  to the circuit, some only make or look at signals, and each gives an answer.

  Operators are particular about kinds: arithmetic is for numbers, the logical connectives are for
  booleans, and most operators want two operands of one kind.  A call that does not keep to this, or
  that names a variable which is not there, has no meaning at all.
-/
import Circuitry.Draft.Bundle
import Circuitry.Draft.Finish

namespace Circuitry.Script

open Draft (Build Bundle Checked)

/-! ## Operators by name -/

/-- Whether a kind is a number. -/
def isNumeric : Kind → Bool
  | .bool => false
  | .uint | .sint => true

/-- Operators on two signals. -/
inductive Binary where
  | addWide
  | add
  | subWide
  | sub
  | mul
  | div
  | rem
  | lt
  | leq
  | gt
  | geq
  | eq
  | neq
  | and
  | or
  | xor
  | logicAnd
  | logicOr
  | concat
  | shiftLeftBy
  | shiftRightBy
  deriving DecidableEq, Repr

namespace Binary

/-- The kinds that an operator takes. -/
def accepts (op : Binary) (a b : Kind) : Bool :=
  match op with
  | .addWide | .add | .subWide | .sub | .mul | .div | .rem | .lt | .leq | .gt | .geq =>
    isNumeric a && a = b
  | .and | .or | .xor => a = b
  | .eq | .neq | .concat => true
  | .logicAnd | .logicOr => a = .bool && b = .bool
  | .shiftLeftBy | .shiftRightBy => isNumeric a && b = .uint

def build : Binary → Signal → Signal → Build Signal
  | .addWide => Draft.addWide
  | .add => Draft.add
  | .subWide => Draft.subWide
  | .sub => Draft.sub
  | .mul => Draft.binary .mul
  | .div => Draft.binary .div
  | .rem => Draft.binary .rem
  | .lt => Draft.compare .lt
  | .leq => Draft.compare .leq
  | .gt => Draft.compare .gt
  | .geq => Draft.compare .geq
  | .eq => Draft.compare .eq
  | .neq => Draft.compare .neq
  | .and | .logicAnd => Draft.binary .and
  | .or | .logicOr => Draft.binary .or
  | .xor => Draft.binary .xor
  | .concat => Draft.concat
  | .shiftLeftBy => Draft.shiftLeftBy
  | .shiftRightBy => Draft.binary .dshr

end Binary

/-- Operators on one signal. -/
inductive Unary where
  | not
  | asSInt
  | asUInt
  | asBool
  | andReduce
  | orReduce
  | xorReduce
  | shl (n : UInt32)
  | shr (n : UInt32)
  | pad (n : UInt32)
  deriving DecidableEq, Repr

namespace Unary

/-- The kinds that an operator takes. -/
def accepts (op : Unary) (a : Kind) : Bool :=
  match op with
  | .not | .asSInt | .asUInt | .andReduce | .orReduce | .xorReduce => true
  | .asBool | .shl _ | .shr _ | .pad _ => isNumeric a

def build : Unary → Signal → Build Signal
  | .not => Draft.unary .not
  | .asSInt => Draft.asSInt
  | .asUInt => Draft.asUInt
  | .asBool => Draft.asBool
  | .andReduce => Draft.reduce .andReduce
  | .orReduce => Draft.reduce .orReduce
  | .xorReduce => Draft.reduce .xorReduce
  | .shl n => Draft.unary (.shl n)
  | .shr n => Draft.unary (.shr n)
  | .pad n => Draft.unary (.pad n)

end Unary

/-! ## Calls -/

/-- A leaf of a shape in a call: a variable, or a new template. -/
inductive Leaf where
  | variable (name : String)
  | template (kind : Kind) (width : Width)
  deriving DecidableEq, Inhabited, Repr

/-- One use of the description language. -/
inductive Call where
  | template (kind : Kind) (width : Width)
  /-- Another name for the same value. -/
  | alias (a : String)
  | look (a : String)
  | aggregate (fields : Shape Leaf)
  | fresh (a : String)
  | field (a name : String)
  | leaf (a : String) (index : Nat)
  | fields (a : String)
  | debug (a : String)
  | sameSignal (a b : String)
  | declare (role : Draft.Declared) (name : String) (shape : Shape Leaf)
  | literalUInt (n : Nat) (width : Width)
  | literalSInt (i : Int) (width : Width)
  | literalBool (b : Bool)
  | literalText (text : String)
  | connect (target source : String)
  | mux (cond t f : String)
  | muxBundle (cond t f : String)
  | binary (op : Binary) (a b : String)
  | unary (op : Unary) (a : String)
  | extract (a : String) (hi lo : Int)
  | bit (a : String) (index : Int)
  | hasCode (code : Code)
  | drain
  | name

/-- A direct field of an aggregate. -/
structure Part where
  name : String
  isElement : Bool
  /-- The number of fields of a nested aggregate. -/
  size : Option Nat
  /-- The first field of that name, if it is a ground value. -/
  element : Option Portrait

/-- What a call answers. -/
inductive Answer where
  | nothing
  | value (v : Shape Portrait)
  | truth (b : Bool)
  | text (s : String)
  | parts (fields : List Part)
  /-- Whether a code is among the reports held, and how many those are. -/
  | held (found : Bool) (count : Nat)
  | reports (ds : List Diagnostic)

/-! ## Meaning -/

/-- Why a run ends. -/
inductive Stop where
  | fault (f : Draft.Fault)
  /-- A call has no meaning. -/
  | nonsense
  /-- A sum that a call needs does not fit 32 bits. -/
  | overflow

/-- One step as it is remembered. -/
inductive Entry where
  /-- A clause of a chain has been closed; the chain has so many by now. -/
  | clause (depth : UInt32)
  /-- A step has ended, with the numbers of commands and errors at that moment. -/
  | step (label : String) (commands errors : Nat) (outcome : Except Draft.Fault Answer)

/-- Where a run stands. -/
structure World where
  session : Draft.Session
  /-- The values of the variables, latest first. -/
  values : List (String × Bundle)
  /-- What has been remembered, latest first. -/
  log : List Entry

/-- A step of a run. -/
abbrev Run := EStateM Stop World

/-- Part of a description as part of a run. -/
def liftBuild (act : Build α) : Run α := fun w =>
  match act w.session with
  | .ok a session => .ok a { w with session }
  | .error f session => .error (.fault f) { w with session }

instance : MonadLift Build Run := ⟨liftBuild⟩

def nonsense : Run α := throw .nonsense

/-- The value of a variable. -/
def bundle (name : String) : Run Bundle := do
  match (← get).values.lookup name with
  | some b => return b
  | none => nonsense

/-- The value of a variable that is a ground value. -/
def signal (name : String) : Run Signal := do
  match ← bundle name with
  | .leaf s => return s
  | .group _ => nonsense

/-- The value of a variable that is a boolean. -/
def boolean (name : String) : Run Signal := do
  let s ← signal name
  if s.kind = .bool then return s else nonsense

/-- The value of a variable that is a number. -/
def numeric (name : String) : Run Signal := do
  let s ← signal name
  if isNumeric s.kind then return s else nonsense

/-- The leaves of a shape in a call: new templates are made one after the other. -/
def resolveLeaf (values : List (String × Bundle)) (signals : Signals) :
    Leaf → Option Bundle × Signals
  | .variable name => (values.lookup name, signals)
  | .template kind width =>
    let (s, signals) := signals.create kind width none
    (some (.leaf s), signals)

/-- The value of a shape in a call. -/
def resolve (shape : Shape Leaf) : Run Bundle := do
  let w ← get
  let (found, signals) := shape.mapAccum (resolveLeaf w.values) w.session.signals
  match found.bind? id with
  | none => nonsense
  | some b => do
    set { w with session := { w.session with signals } }
    return b

/-- A value as it is now. -/
def portrait (b : Bundle) : Run (Shape Portrait) := do
  let signals := (← get).session.signals
  return b.map signals.portrait

/-- A value together with its portrait as the answer. -/
def answerValue (b : Bundle) : Run (Answer × Option Bundle) := do
  return (.value (← portrait b), some b)

/-- Makes a signal and answers it. -/
def answerSignal (act : Build Signal) : Run (Answer × Option Bundle) := do
  answerValue (.leaf (← act))

/-- Makes a signal by an action that may stop, and answers it. -/
def answerChecked (act : Checked Signal) : Run (Answer × Option Bundle) := do
  match ← act.run with
  | none => throw .overflow
  | some s => answerValue (.leaf s)

/-- An answer without a value. -/
def answerOnly (a : Answer) : Run (Answer × Option Bundle) := return (a, none)

/-- A field or leaf, if there is one. -/
def answerPart : Option Bundle → Run (Answer × Option Bundle)
  | none => answerOnly .nothing
  | some b => answerValue b

/-- The description of a direct field. -/
def part (signals : Signals) (fields : Shape.Fields Signal) : String × Bundle → Part
  | (name, b) =>
    { name
      isElement := match b with
        | .leaf _ => true
        | .group _ => false
      size := match b with
        | .leaf _ => none
        | .group fs => some fs.length
      element := match fields.lookup name with
        | some (.leaf s) => some (signals.portrait s)
        | _ => none }

/-- The meaning of a call: its answer, and the value that it makes. -/
def meaning : Call → Run (Answer × Option Bundle)
  | .template kind width => answerSignal (Draft.template kind width)
  | .alias a | .look a => do answerValue (← bundle a)
  | .aggregate fields => do
    match ← resolve fields with
    | .leaf _ => nonsense
    | b => answerValue b
  | .fresh a => do
    match ← bundle a with
    | .leaf _ => nonsense
    | b => answerValue (← Draft.fresh b)
  | .field a name => do
    match ← bundle a with
    | .leaf _ => nonsense
    | .group fs => answerPart (fs.lookup name)
  | .leaf a index => do
    match ← bundle a with
    | .leaf _ => nonsense
    | .group fs => answerPart ((Shape.fieldLeaves fs)[index]?.map .leaf)
  | .fields a => do
    match ← bundle a with
    | .leaf _ => nonsense
    | .group fs => do answerOnly (.parts (fs.map (part (← get).session.signals fs)))
  | .debug a => do
    let s ← signal a
    answerOnly (.text ((← get).session.signals.portrait s).debugText)
  | .sameSignal a b => do
    answerOnly (.truth (Bundle.sameSignal (← signal a) (← signal b)))
  | .declare role name shape => do
    let b ← resolve shape
    match b with
    | .leaf s => Draft.declare role name s
    | .group fs => Draft.declareFields role name fs
    answerValue b
  | .literalUInt n width => answerSignal (Draft.literalUInt n width)
  | .literalSInt i width => answerSignal (Draft.literalSInt i width)
  | .literalBool b => answerSignal (Draft.literalBool b)
  | .literalText text => answerSignal (Draft.literalText text)
  | .connect target source => do
    match ← bundle target, ← bundle source with
    | .leaf t, .leaf s => Draft.connect t s
    | .group t, .group s => Draft.connectFields t s
    | _, _ => nonsense
    answerOnly .nothing
  | .mux cond t f => do
    let c ← boolean cond
    match ← bundle t, ← bundle f with
    | .leaf a, .leaf b => answerSignal (Draft.mux c a b)
    | .group a, .group b => do answerValue (.group (← Draft.muxFields c a b))
    | _, _ => nonsense
  | .muxBundle cond t f => do
    let c ← boolean cond
    answerValue (← Draft.muxBundle c (← bundle t) (← bundle f))
  | .binary op a b => do
    let x ← signal a
    let y ← signal b
    if op.accepts x.kind y.kind then answerSignal (op.build x y) else nonsense
  | .unary op a => do
    let x ← signal a
    if op.accepts x.kind then answerSignal (op.build x) else nonsense
  | .extract a hi lo => do answerChecked (Draft.extract (← numeric a) hi lo)
  | .bit a index => do answerChecked (Draft.bit (← numeric a) index)
  | .hasCode code => do
    let sink := (← get).session.draft.sink
    answerOnly (.held (sink.hasCode code) sink.held.length)
  | .drain => do
    let (held, sink) := (← get).session.draft.sink.drain
    Draft.modifyDraft fun d => { d with sink }
    answerOnly (.reports held)
  | .name => do answerOnly (.text (← get).session.draft.name)

end Circuitry.Script
