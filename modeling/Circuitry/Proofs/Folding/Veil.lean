/-
  What a description can see without looking at how bits of literals are taken.

  Taking bits of a literal gives a literal where folding is on, and the result of an operator where it
  is off.  A description can tell the two apart by the role and the bits of a signal, by the id of its
  node, by the number of commands so far, by a message that names the role, and by the settings
  themselves.  `World.view` is where a run stands with all of that under a veil.

  A script is oblivious if what it does next never depends on more than the view.
-/
import Circuitry.Script

namespace Circuitry

/-- Literals and results look the same. -/
def Role.veiled : Role → Role
  | .literal => .result
  | r => r

/-- The present role of a signal is named in messages. -/
def Draft.Fault.veiled : Draft.Fault → Draft.Fault
  | .alreadyBound current requested => .alreadyBound current.veiled requested
  | .notAssignable role => .notAssignable role.veiled
  | f => f

/-- A signal without its node and its bits. -/
def Portrait.veiled (p : Portrait) : Portrait :=
  { p with
    role := p.role.veiled
    id := none
    literal := none }

namespace Script

def Part.veiled (p : Part) : Part := { p with element := p.element.map Portrait.veiled }

/-- An answer without what tells literals from results.  The text of a signal shows all of it. -/
def Answer.veiled : Answer → Answer
  | .value v => .value (v.map Portrait.veiled)
  | .text _ => .text ""
  | .parts fields => .parts (fields.map Part.veiled)
  | a => a

/-- How a step ended. -/
def outcomeVeiled : Except Draft.Fault Answer → Except Draft.Fault Answer
  | .ok a => .ok a.veiled
  | .error f => .error f.veiled

/-- A remembered step without the number of commands. -/
def Entry.veiled : Entry → Entry
  | .clause depth => .clause depth
  | .step label _ errors outcome => .step label 0 errors (outcomeVeiled outcome)

/-- A stop of a run. -/
def Stop.veiled : Stop → Stop
  | .fault f => .fault f.veiled
  | .nonsense => .nonsense
  | .overflow => .overflow

/-- What can be seen from where a run stands. -/
structure View where
  context : Nat
  name : String
  errorLimit : Nat
  shiftLimit : UInt32
  sink : Sink
  /-- Each variable with its signals, which can be told from one another. -/
  values : List (String × Shape (Nat × Portrait))
  log : List Entry

/-- What can be seen of a signal. -/
def sight (signals : Signals) (s : Signal) : Nat × Portrait :=
  (s.serial, (signals.portrait s).veiled)

def World.view (w : World) : View where
  context := w.session.draft.context
  name := w.session.draft.name
  errorLimit := w.session.draft.settings.errorLimit
  shiftLimit := w.session.draft.settings.dynamicShiftLimit
  sink := w.session.draft.sink
  values := w.values.map fun e => (e.1, e.2.map (sight w.session.signals))
  log := w.log.map Entry.veiled

mutual

/-- What comes next only depends on the view. -/
def Oblivious : Script → Prop
  | .done => True
  | .call _ _ rest => rest.Oblivious
  | .chain _ cond _ body tail rest =>
    cond.Oblivious ∧ body.Oblivious ∧ tail.Oblivious ∧ rest.Oblivious
  | .branch next => (∀ w w' : World, w.view = w'.view → next w = next w') ∧ ∀ w, (next w).Oblivious

/-- What comes next in a chain only depends on the view. -/
def Tail.Oblivious : Tail → Prop
  | .close => True
  | .elseWhen cond _ body tail => cond.Oblivious ∧ body.Oblivious ∧ tail.Oblivious
  | .otherwise body => body.Oblivious
  | .branch next => (∀ w w' : World, w.view = w'.view → next w = next w') ∧ ∀ w, (next w).Oblivious

end

end Script

end Circuitry
