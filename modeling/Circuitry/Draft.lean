/-
  Circuits under construction.

  A draft is a circuit that is still being described: its nodes, ports and commands so far, and the
  faults reported on the way.  Every step of a description is a `Build` action.  An action that fails
  leaves the draft as it is at that moment; nothing is taken back.

  1. `operand` is the one gate through which a signal gets into a command: it lets literals pass, and
     signals that are bound in this very draft;
  2. `assignable` is the same for the target of a connection;
  3. `allocate` and `emit` append to the node table and the command stream;
  4. `report` records a fault that is made up for by a stand-in, and fails only once the limit of
     errors is reached.
-/
import Circuitry.Draft.Fault
import Circuitry.Settings
import Circuitry.Signal

namespace Circuitry

/-- A circuit under construction. -/
structure Draft where
  /-- The number that tells this circuit from all others. -/
  context : Nat
  name : String
  settings : Settings.Elaboration
  nodes : List Node
  ports : List Port
  commands : List Command
  sink : Sink
  deriving Inhabited

namespace Draft

/-- Nothing described yet. -/
def empty (context : Nat) (name : String) (settings : Settings.Elaboration) : Draft :=
  ⟨context, name, settings, [], [], [], .empty⟩

/-- A draft together with the signals, which it shares with other drafts. -/
structure Session where
  signals : Signals
  draft : Draft
  deriving Inhabited

/-- A step of a description. -/
abbrev Build := EStateM Fault Session

/-! ## Operands -/

/-- The signal as an operand of a command of this draft. -/
def operand (s : Signal) : Build Operand := do
  let ⟨signals, draft⟩ ← get
  match signals.standing s with
  | .literal v => return .constant ⟨s.kind, s.width, v⟩
  | .template => throw (.notSynthesizable s.ty .template)
  | .bound b =>
    if b.context = draft.context then return .node b.id
    else throw (.notSynthesizable s.ty .foreign)

/-- Several operands, checked in order. -/
def operands : List Signal → Build (List Operand)
  | [] => return []
  | s :: rest => return (← operand s) :: (← operands rest)

/-- Checks that signals can be operands. -/
def checkOperands (signals : List Signal) : Build Unit := do let _ ← operands signals

/-- The node of a signal that can be driven. -/
def assignable (s : Signal) : Build NodeId := do
  let ⟨signals, draft⟩ ← get
  match signals.standing s with
  | .literal _ => throw (.notAssignable .literal)
  | .template => throw (.notSynthesizable s.ty .template)
  | .bound b =>
    if b.context ≠ draft.context then throw (.notSynthesizable s.ty .foreign)
    else if b.role.isAssignable then return b.id
    else throw (.notAssignable b.role)

/-- Fails unless a signal is still a template. -/
def checkTemplate (s : Signal) (requested : Role) : Build Unit := do
  match (← get).signals.standing s with
  | .template => return ()
  | current => throw (.alreadyBound current.role requested)

/-! ## Additions -/

/-- Changes the draft. -/
def modifyDraft (f : Draft → Draft) : Build Unit :=
  modify fun w => { w with draft := f w.draft }

/-- Appends a command. -/
def emit (cmd : Command) : Build Unit :=
  modifyDraft fun d => { d with commands := d.commands ++ [cmd] }

/-- Appends an entry to the node table. -/
def allocate (ty : Ty) (role : Role) (name : Option String) (origin : Origin) : Build NodeId := do
  let id : NodeId := ⟨UInt32.ofNat (← get).draft.nodes.length⟩
  modifyDraft fun d => { d with nodes := d.nodes ++ [⟨ty, role, name, origin, .unknown⟩] }
  return id

/-- A new signal. -/
def create (kind : Kind) (width : Width) (literal : Option Bits) : Build Signal := do
  let w ← get
  let (s, signals) := w.signals.create kind width literal
  set { w with signals }
  return s

/-- Binds a signal to a node of this draft. -/
def bind (s : Signal) (role : Role) (id : NodeId) : Build Unit :=
  modify fun w => { w with signals := w.signals.bind s ⟨role, w.draft.context, id⟩ }

/-! ## Faults that are made up for -/

/-- Records a fault.  Fails once the limit of errors is reached. -/
def report (f : Fault) : Build Unit := do
  modifyDraft fun d => { d with sink := d.sink.emit f.toDiagnostic }
  let d := (← get).draft
  let limit := d.settings.errorLimit
  if 0 < limit ∧ limit ≤ d.sink.errorCount then throw (.errorLimitReached limit)

/-- The stand-in for a value that cannot be had: a literal of the wanted kind and width whose only
    bit is clear. -/
def zero (kind : Kind) (width : Width) : Build Signal := create kind width (some (.zero 1))

/-! ## Templates and literals -/

/-- A new template. -/
def template (kind : Kind) (width : Width) : Build Signal := create kind width none

/-- An unsigned literal.  A number too large for its width is reported and cut. -/
def literalUInt (n : Nat) (width : Width) : Build Signal := do
  match width with
  | .known w =>
    let needed := Words.bitLength n
    if w.toNat < needed then report (.invalidLiteral (toString n) (.tooWide needed w))
    create .uint width (some (.ofNat w n))
  | .unknown => create .uint width (some (.ofNat (UInt32.ofNat (unsignedBits n)) n))

/-- A signed literal in two's complement.  Zero fits every width. -/
def literalSInt (i : Int) (width : Width) : Build Signal := do
  let needed := signedBits i
  match width with
  | .known w =>
    if i ≠ 0 ∧ w.toNat < needed then report (.invalidLiteral (toString i) (.tooWideSigned needed w))
    create .sint width (some (.ofInt w i))
  | .unknown => create .sint width (some (.ofInt (UInt32.ofNat needed) i))

def literalBool (b : Bool) : Build Signal := create .bool (.known 1) (some (.ofBool b))

/-- The fault that an issue of a spelled literal amounts to. -/
def spellingFault (text : String) : Numeral.Issue → Fault
  | .unknownRadix letter => .invalidRadix letter text
  | issue => .invalidLiteral text (.spelling issue)

/-- Reports faults in order. -/
def reportAll : List Fault → Build Unit
  | [] => return ()
  | f :: rest => do report f; reportAll rest

/-- A literal spelled with a radix letter.  Whatever is wrong with it is reported. -/
def literalText (text : String) : Build Signal := do
  let r := Numeral.read text.toList
  reportAll (r.issues.map (spellingFault text))
  let value := match r.width with
    | .known w => r.value.resize w
    | .unknown => r.value
  create .uint r.width (some value)

/-! ## Declarations -/

/-- The roles that a template can be declared in. -/
inductive Declared where
  | port (direction : Direction)
  | wire
  | register
  deriving DecidableEq, Repr

namespace Declared

def role : Declared → Role
  | .port d => .port d
  | .wire => .wire
  | .register => .register

/-- The command that declares a node. -/
def command (r : Declared) (id : NodeId) (name : String) : Command :=
  match r with
  | .port d => .defPort id d name
  | .wire => .defWire id
  | .register => .defReg id

/-- The entry in the list of ports. -/
def ports (r : Declared) (id : NodeId) (name : String) : List Port :=
  match r with
  | .port d => [⟨name, d, id⟩]
  | .wire | .register => []

end Declared

/-- Makes a template into a port, wire or register. -/
def declare (r : Declared) (name : String) (s : Signal) : Build Unit := do
  checkTemplate s r.role
  let id ← allocate s.ty r.role (some name) .defined
  bind s r.role id
  modifyDraft fun d => { d with ports := d.ports ++ r.ports id name }
  emit (r.command id name)

/-! ## Connections -/

/-- Drives `target` with `source` while the enclosing regions are active.  The widths may differ. -/
def connect (target source : Signal) : Build Unit := do
  if target.kind ≠ source.kind then throw (.typeMismatch "connect" target.ty source.ty)
  let target ← assignable target
  let source ← operand source
  emit (.connect target source)

end Draft

end Circuitry
