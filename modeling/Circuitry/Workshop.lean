/-
  Several circuits at a time.

  A program can have several circuits under construction, and go from one to another as it likes: they
  share the signals and the variables, and each has a draft of its own.  The number of a draft is its
  place in the list of drafts.

  A chain is not one use of a draft here.  Each of its commands is a use by itself, so that anything
  may happen between them, as it may in the bodies of a chain, and a chain may stop anywhere.  A
  circuit that is finished is a draft that is not used any more.

  Nothing here rests on the log of what has been done, so a use may find any log.
-/
import Circuitry.Script

namespace Circuitry

open Script (Answer Run)

/-- Circuits under construction. -/
structure Workshop where
  signals : Signals
  /-- The values of the variables, latest first. -/
  values : List (String × Draft.Bundle)
  drafts : List Draft

namespace Workshop

/-- Nothing begun yet. -/
def empty : Workshop := ⟨.empty, [], []⟩

/-- One use of a draft. -/
inductive Use where
  | call (use : Script.Call)
  /-- Opens a region for a condition. -/
  | whenBegin (pred : String) (depth : UInt32)
  | whenEnd (depth : UInt32)
  | altBegin (depth : UInt32)
  | otherwiseEnd (depth : UInt32)

/-- The meaning of a use: its answer, and the value that it makes. -/
def Use.meaning : Use → Run (Answer × Option Draft.Bundle)
  | .call use => Script.meaning use
  | .whenBegin pred depth => do
    Draft.emit (.whenBegin (← Draft.operand (← Script.boolean pred)) depth)
    Script.answerOnly .nothing
  | .whenEnd depth => do
    Draft.emit (.whenEnd depth)
    Script.answerOnly .nothing
  | .altBegin depth => do
    Draft.emit (.altBegin depth)
    Script.answerOnly .nothing
  | .otherwiseEnd depth => do
    Draft.emit (.otherwiseEnd depth)
    Script.answerOnly .nothing

/-- What happens next. -/
inductive Act where
  /-- Another circuit is begun. -/
  | begin (name : String) (settings : Settings.Elaboration)
  /-- A draft is used, and the value that comes of it is kept under a name. -/
  | use (context : Nat) (log : List Script.Entry) (bindAs : Option String) (use : Use)

/-- The world in which a draft is used. -/
def world (w : Workshop) (d : Draft) (log : List Script.Entry) : Script.World :=
  ⟨⟨w.signals, d⟩, w.values, log⟩

/-- After a draft has been used. -/
def put (w : Workshop) (context : Nat) (v : Script.World) : Workshop :=
  ⟨v.session.signals, v.values, w.drafts.set context v.session.draft⟩

/-- A use that fails is passed over, whatever it has left behind.  A use of a draft that is not there,
    or one without meaning, is none.  So is one that stops at a sum: it ends the program that makes it,
    and where the workshop is taken to stand afterwards is of no account. -/
def act (w : Workshop) : Act → Workshop
  | .begin name settings =>
    { w with drafts := w.drafts ++ [.empty w.drafts.length name settings] }
  | .use context log bindAs use =>
    match w.drafts[context]? with
    | none => w
    | some d =>
      match Script.Step.perform ⟨"", true, bindAs⟩ use.meaning (w.world d log) with
      | .ok _ v => w.put context v
      | .error _ _ => w

/-- Acts in order. -/
def run (w : Workshop) (acts : List Act) : Workshop := acts.foldl act w

end Workshop

end Circuitry
