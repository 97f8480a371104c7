/-
  Signals.

  A signal is what a description passes around: a template that has not been made into anything yet, a
  literal, or a value that belongs to one circuit.  Copies of a signal are the same signal, known by
  its serial number.  Kind, width and literal value never change; the one thing that may still happen
  to a template is that it gets bound, once, to a node of a circuit.

  `Signals` is the record of all bindings.  It outlives a circuit, so a signal of one circuit can be
  told from a signal of another.
-/
import Circuitry.Circuit
import Circuitry.Shape

namespace Circuitry

/-- A handle on a ground value. -/
structure Signal where
  serial : Nat
  kind : Kind
  width : Width
  /-- The bits of a literal. -/
  literal : Option Bits
  deriving DecidableEq, Inhabited, Repr

def Signal.ty (s : Signal) : Ty := .element s.kind s.width

/-- What a signal has been bound to: a node of a circuit, in a role. -/
structure Binding where
  role : Role
  /-- The number of the circuit. -/
  context : Nat
  id : NodeId
  deriving DecidableEq, Inhabited, Repr

/-- What a signal is at present. -/
inductive Standing where
  | template
  | literal (value : Bits)
  | bound (binding : Binding)
  deriving DecidableEq, Repr

namespace Standing

def role : Standing → Role
  | .template => .unbound
  | .literal _ => .literal
  | .bound b => b.role

def id? : Standing → Option NodeId
  | .bound b => some b.id
  | _ => none

def literal? : Standing → Option Bits
  | .literal v => some v
  | _ => none

end Standing

/-- All bindings made so far, latest first, and the next serial number. -/
structure Signals where
  next : Nat
  bindings : List (Nat × Binding)
  deriving DecidableEq, Inhabited, Repr

namespace Signals

/-- No signal yet. -/
def empty : Signals := ⟨0, []⟩

/-- The width that a signal of a kind has: a boolean is always one bit wide. -/
def groundWidth (kind : Kind) (width : Width) : Width :=
  match kind with
  | .bool => .known 1
  | _ => width

/-- A new signal: a literal if bits are given, else a template. -/
def create (t : Signals) (kind : Kind) (width : Width) (literal : Option Bits) : Signal × Signals :=
  (⟨t.next, kind, groundWidth kind width, literal⟩, { t with next := t.next + 1 })

/-- Binds a signal. -/
def bind (t : Signals) (s : Signal) (b : Binding) : Signals :=
  { t with bindings := (s.serial, b) :: t.bindings }

/-- What a signal is at present. -/
def standing (t : Signals) (s : Signal) : Standing :=
  match s.literal with
  | some v => .literal v
  | none =>
    match t.bindings.lookup s.serial with
    | some b => .bound b
    | none => .template

/-- What stands as a literal has a value of its own. -/
theorem literal_of_standing {t : Signals} {s : Signal} {v : Bits} (h : t.standing s = .literal v) :
    s.literal = some v := by
  unfold standing at h
  split at h
  · next hl =>
    rw [hl]
    exact congrArg some (Standing.literal.inj h)
  · split at h <;> cases h

/-- Binding a template makes it bound. -/
theorem standing_bind (t : Signals) (s : Signal) (b : Binding) (h : s.literal = none) :
    (t.bind s b).standing s = .bound b := by
  simp [standing, bind, h]

/-- Binding one signal leaves every other one as it was. -/
theorem standing_bind_of_ne (t : Signals) {s r : Signal} (b : Binding) (h : r.serial ≠ s.serial) :
    (t.bind s b).standing r = t.standing r := by
  simp [standing, bind, List.lookup_cons, beq_false_of_ne h]

end Signals

/-! ## Portraits -/

/-- A signal as it is at one moment. -/
structure Portrait where
  kind : Kind
  width : Width
  role : Role
  id : Option NodeId
  literal : Option Bits
  deriving DecidableEq, Inhabited, Repr

/-- The signal as it is now. -/
def Signals.portrait (t : Signals) (s : Signal) : Portrait :=
  let standing := t.standing s
  ⟨s.kind, s.width, standing.role, standing.id?, standing.literal?⟩

/-- The role by the name it has in the stored form. -/
def Role.debugText : Role → String
  | .unbound => "Unbound"
  | .port .input => "Port(Input)"
  | .port .output => "Port(Output)"
  | .wire => "Wire"
  | .register => "Register"
  | .literal => "Literal"
  | .result => "Op"

def Portrait.ty (p : Portrait) : Ty := .element p.kind p.width

/-- All that is known of a signal, in one line. -/
def Portrait.debugText (p : Portrait) : String :=
  let id := match p.id with
    | some id => ", id: NodeId(" ++ toString id.index ++ ")"
    | none => ""
  let value := match p.literal with
    | some v => ", value: " ++ v.debugText
    | none => ""
  "Node \x7b type: \"" ++ p.ty.text ++ "\", binding: " ++ p.role.debugText ++ id ++ value ++ " \x7d"

end Circuitry
