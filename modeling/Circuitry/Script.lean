/-
  Scripts.

  A script is a description written down as data: calls one after the other, and chains of clauses
  whose conditions and bodies are scripts again.  What comes next, in a list of steps or in a chain,
  may depend on all that has come out so far, so every description that ends is a script.  Running a
  script builds a circuit and remembers every step.

  A step whose call fails ends the script, unless the step only attempts it: then the next step of the
  same list follows.  A chain that fails halfway leaves its regions open, also where it was only
  attempted.  No attempt gets over a sum that does not fit: there everything ends.
-/
import Circuitry.Draft.Chain
import Circuitry.Script.Call

namespace Circuitry

namespace Script

/-- What goes with a call: a label for the log, whether the step may fail, and the variable that
    takes its value. -/
structure Step where
  label : String
  attempt : Bool
  bindAs : Option String
  deriving DecidableEq, Inhabited, Repr

end Script

mutual

/-- Steps in order. -/
inductive Script where
  | done
  | call (step : Script.Step) (use : Script.Call) (rest : Script)
  /-- A chain: the steps of its first condition with the variable that holds it, the first body, and
      what follows in the chain. -/
  | chain (step : Script.Step) (cond : Script) (pred : String) (body : Script)
      (tail : Script.Tail) (rest : Script)
  /-- What comes next is decided by where the run stands. -/
  | branch (next : Script.World → Script)

/-- What follows a clause. -/
inductive Script.Tail where
  | close
  | elseWhen (cond : Script) (pred : String) (body : Script) (tail : Script.Tail)
  | otherwise (body : Script)
  /-- How the chain goes on is decided by where the run stands. -/
  | branch (next : Script.World → Script.Tail)

end

namespace Script

/-- Remembers an entry. -/
def note (e : Entry) : Run Unit := modify fun w => { w with log := e :: w.log }

/-- The entry for a step that ends now. -/
def World.entry (w : World) (label : String) (outcome : Except Draft.Fault Answer) : Entry :=
  .step label w.session.draft.commands.length w.session.draft.sink.errorCount outcome

/-- Keeps a value under a name, if there are both. -/
def World.keep (w : World) (name : Option String) (value : Option Draft.Bundle) : World :=
  match name, value with
  | some n, some b => { w with values := (n, b) :: w.values }
  | _, _ => w

/-- Runs the action of a step and remembers how it ended. -/
def Step.perform (s : Step) (act : Run (Answer × Option Draft.Bundle)) : Run Unit := fun w =>
  match act w with
  | .ok (a, b) w =>
    .ok () { w.keep s.bindAs b with log := w.entry s.label (.ok a) :: w.log }
  | .error (.fault f) w =>
    let w := { w with log := w.entry s.label (.error f) :: w.log }
    if s.attempt then .ok () w else .error (.fault f) w
  | .error .nonsense w => .error .nonsense w
  | .error .overflow w => .error .overflow w

mutual

/-- Runs the steps of a script. -/
def run : Script → Run Unit
  | .done => return ()
  | .call step use rest => do
    step.perform (meaning use)
    run rest
  | .chain step cond pred body tail rest => do
    step.perform do
      let c ← Draft.Chain.start (do run cond; boolean pred) (run body)
      note (.clause c.depth)
      runTail c tail
      answerOnly .nothing
    run rest
  | .branch next => do run (next (← get))

/-- Runs what follows a clause. -/
def runTail (c : Draft.Chain) : Tail → Run Unit
  | .close => c.close
  | .elseWhen cond pred body tail => do
    let c ← c.elseWhen (do run cond; boolean pred) (run body)
    note (.clause c.depth)
    runTail c tail
  | .otherwise body => c.otherwise (run body)
  | .branch next => do runTail c (next (← get))

end

/-! ## Whole descriptions -/

/-- What a run of a script comes to. -/
structure Outcome where
  log : List Entry
  commands : List Command
  result : Except Draft.Failure Circuit

/-- What outlives a run. -/
structure Memory where
  signals : Signals
  values : List (String × Draft.Bundle)
  /-- The number of the next circuit. -/
  context : Nat

/-- Nothing described yet. -/
def Memory.empty : Memory := ⟨.empty, [], 0⟩

/-- The world in which a script starts. -/
def Memory.world (m : Memory) (name : String) (settings : Settings.Elaboration) : World :=
  ⟨⟨m.signals, .empty m.context name settings⟩, m.values, []⟩

/-- What is left of a world. -/
def World.memory (w : World) : Memory :=
  ⟨w.session.signals, w.values, w.session.draft.context + 1⟩

/-- The outcome at the end of a run. -/
def World.outcome (w : World) (result : Except Draft.Failure Circuit) : Outcome :=
  ⟨w.log.reverse, w.session.draft.commands, result⟩

/-- Runs a script as a whole description; nothing for a script without meaning, or one that stops at a
    sum that does not fit. -/
def describe? (s : Script) (m : Memory) (name : String) (settings : Settings.Elaboration) :
    Option (Outcome × Memory) :=
  match s.run (m.world name settings) with
  | .ok _ w => some (w.outcome w.session.draft.finish, w.memory)
  | .error (.fault f) w => some (w.outcome (.error (w.session.draft.abort f)), w.memory)
  | .error .nonsense _ | .error .overflow _ => none

/-- Whether a description stops at a sum that does not fit, and so comes to nothing at all. -/
def overflows (s : Script) (m : Memory) (name : String) (settings : Settings.Elaboration) : Bool :=
  match s.run (m.world name settings) with
  | .error .overflow _ => true
  | _ => false

end Script

end Circuitry
