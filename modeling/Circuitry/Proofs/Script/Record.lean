/-
  The calls of a run.

  A run shows where it ends, and not which calls it has made on the way.  `Traced` is an action of a run
  together with the calls that it makes, in order, each in the world in which it is made.  An action
  that fails halfway has made the calls before the failure, and the one that has failed.

  Chains are written for any monad over `Build`, so a script is traced with the very words it is run
  with (`traced`).  What is traced is the run: `act_traced` forgets the calls again.
-/
import Circuitry.Script

namespace Circuitry.Script

variable {α β : Type}

/-- A call, made in a world. -/
structure CallAt where
  world : World
  use : Call

/-- An action of a run, and the calls that it makes from a world. -/
structure Traced (α : Type) where
  act : Run α
  calls : World → List CallAt

namespace Traced

/-- The calls of the second of two actions come after those of the first, if they are made at all. -/
instance : Monad Traced where
  pure a := ⟨pure a, fun _ => []⟩
  bind x f := ⟨x.act >>= fun a => (f a).act, fun w => x.calls w ++
    match x.act w with
    | .ok a w' => (f a).calls w'
    | .error _ _ => []⟩

/-- What is no call leaves no trace. -/
instance : MonadLift Run Traced := ⟨fun act => ⟨act, fun _ => []⟩⟩

/-- One call. -/
def call (use : Call) : Traced (Answer × Option Draft.Bundle) :=
  ⟨meaning use, fun w => [⟨w, use⟩]⟩

/-- The action of a step. -/
def perform (step : Step) (x : Traced (Answer × Option Draft.Bundle)) : Traced Unit :=
  ⟨step.perform x.act, x.calls⟩

section Bind

variable {x : Traced α} {f : α → Traced β} {w w' : World}

theorem calls_bind_of_ok {a : α} (h : x.act w = .ok a w') :
    (x >>= f).calls w = x.calls w ++ (f a).calls w' := by
  show (x.calls w ++ match x.act w with | .ok a w' => (f a).calls w' | .error _ _ => []) = _
  rw [h]

theorem calls_bind_of_error {e : Stop} (h : x.act w = .error e w') :
    (x >>= f).calls w = x.calls w := by
  show (x.calls w ++ match x.act w with | .ok a w' => (f a).calls w' | .error _ _ => []) = _
  rw [h, List.append_nil]

end Bind

end Traced

mutual

/-- The run of a script, with its calls. -/
def traced : Script → Traced Unit
  | .done => return ()
  | .call step use rest => do
    Traced.perform step (.call use)
    traced rest
  | .chain step cond pred body tail rest => do
    Traced.perform step do
      let c ← Draft.Chain.start (do traced cond; boolean pred) (traced body)
      note (.clause c.depth)
      tracedTail c tail
      answerOnly .nothing
    traced rest
  | .branch next => do traced (next (← (get : Run World)))

/-- The same for what follows a clause. -/
def tracedTail (c : Draft.Chain) : Tail → Traced Unit
  | .close => c.close
  | .elseWhen cond pred body tail => do
    let c ← c.elseWhen (do traced cond; boolean pred) (traced body)
    note (.clause c.depth)
    tracedTail c tail
  | .otherwise body => c.otherwise (traced body)
  | .branch next => do tracedTail c (next (← (get : Run World)))

end

/-- The calls that a script makes, in order. -/
def calls (s : Script) (w : World) : List CallAt := s.traced.calls w

mutual

/-- **What is traced is the run.** -/
theorem act_traced : ∀ s : Script, s.traced.act = s.run
  | .done => rfl
  | .call step use rest => by
    show (step.perform (meaning use) >>= fun _ => rest.traced.act) = _
    rw [act_traced rest]
    rfl
  | .chain step cond pred body tail rest => by
    have htail : ∀ c, (tracedTail c tail).act = runTail c tail := fun c => act_tracedTail c tail
    show (step.perform (do
      let c ← Draft.Chain.start (do cond.traced.act; boolean pred) body.traced.act
      note (.clause c.depth)
      (tracedTail c tail).act
      answerOnly .nothing) >>= fun _ => rest.traced.act) = _
    simp only [act_traced cond, act_traced body, act_traced rest, htail]
    rfl
  | .branch next => by
    show (get >>= fun w => (next w).traced.act) = get >>= fun w => (next w).run
    simp only [fun w => act_traced (next w)]

theorem act_tracedTail (c : Draft.Chain) : ∀ t : Tail, (tracedTail c t).act = runTail c t
  | .close => rfl
  | .elseWhen cond pred body tail => by
    have htail : ∀ c, (tracedTail c tail).act = runTail c tail := fun c => act_tracedTail c tail
    show (do
      let c ← c.elseWhen (do cond.traced.act; boolean pred) body.traced.act
      note (.clause c.depth)
      (tracedTail c tail).act) = _
    simp only [act_traced cond, act_traced body, htail]
    rfl
  | .otherwise body => by
    show c.otherwise body.traced.act = _
    rw [act_traced body]
    rfl
  | .branch next => by
    show (get >>= fun w => (tracedTail c (next w)).act) = get >>= fun w => runTail c (next w)
    simp only [fun w => act_tracedTail c (next w)]

end

end Circuitry.Script
