/-
  Guards of what is left.

  When literals take the places of results, some commands are gone and positions shift, so the guards
  of the two circuits cannot be compared position by position.  The trails of the two streams can: going
  through what is left of a stream meets what is left of its commands, each under what is left of its
  guards (`Scan.trail_image`).  What is gone neither opens nor closes a region.

  The sources of the connections to a node are read off the trail as well (`sourcesTo_eq_trail`).
-/
import Circuitry.Proofs.Bench.Solution
import Circuitry.Proofs.Folding.Image
import Circuitry.Proofs.Nesting.Trail

namespace Circuitry

/-- What is left of a guard. -/
def Guard.image (im : List Operand) (g : Guard) : Guard := { g with pred := g.pred.image im }

theorem Command.isControl_image {im : List Operand} {cmd cmd' : Command}
    (h : cmd.image im = some cmd') : cmd'.isControl = cmd.isControl := by
  cases cmd with
  | defPrim _ _ _ | connect _ _ =>
    simp only [Command.image] at h
    split at h
    · obtain rfl := Option.some.inj h
      rfl
    · cases h
  | _ =>
    obtain rfl := Option.some.inj h
    rfl

/-- What marks a region is never gone. -/
theorem Command.isControl_of_image_eq_none {im : List Operand} {cmd : Command}
    (h : cmd.image im = none) : cmd.isControl = false := by
  cases cmd with
  | defPrim _ _ _ | connect _ _ => rfl
  | _ => cases h

namespace Scan

/-- What is known when going through what is left. -/
def image (im : List Operand) (s : Scan) : Scan :=
  ⟨s.opened.map (Guard.image im), s.closed.map (Operand.image im)⟩

/-- What is left of a command with its guards. -/
def entryImage (im : List Operand) (e : Command × List Guard) : Option (Command × List Guard) :=
  (e.1.image im).map (·, e.2.map (Guard.image im))

theorem step_image {im : List Operand} {cmd cmd' : Command} (h : cmd.image im = some cmd')
    (s : Scan) : (s.image im).step cmd' = (s.step cmd).image im := by
  cases hcontrol : cmd.isControl with
  | false =>
    rw [step_plain _ hcontrol, step_plain _ ((Command.isControl_image h).trans hcontrol)]
  | true =>
    cases cmd with
    | whenBegin pred depth =>
      obtain rfl := Option.some.inj h
      rfl
    | whenEnd depth =>
      obtain rfl := Option.some.inj h
      obtain ⟨opened, closed⟩ := s
      cases opened <;> rfl
    | altBegin depth =>
      obtain rfl := Option.some.inj h
      obtain ⟨opened, closed⟩ := s
      cases closed <;> rfl
    | otherwiseEnd depth =>
      obtain rfl := Option.some.inj h
      simp [step, image]
    | _ => cases hcontrol

/-- **The trail of what is left.** -/
theorem trail_image (im : List Operand) (cs : List Command) : ∀ s : Scan,
    (s.image im).trail (cs.filterMap (Command.image im)) =
      (s.trail cs).filterMap (entryImage im) := by
  induction cs with
  | nil => exact fun s => rfl
  | cons cmd cs ih =>
    intro s
    cases h : cmd.image im with
    | none =>
      have hplain := Command.isControl_of_image_eq_none h
      rw [List.filterMap_cons, h, ih s, trail, step_plain s hplain, hplain]
      simp [entryImage, h]
    | some cmd' =>
      rw [List.filterMap_cons, h, trail, trail, step_image h, ih, List.filterMap_append,
        Command.isControl_image h]
      cases cmd.isControl <;> simp [entryImage, h, image]

end Scan

/-- The source of a command, if it is a connection to `target`. -/
def Command.sourceTo? (target : NodeId) : Command → Option Operand
  | .connect t source => if t = target then some source else none
  | _ => none

theorem Command.sourceTo?_eq_some {target : NodeId} {cmd : Command} {source : Operand} :
    cmd.sourceTo? target = some source ↔ cmd = .connect target source := by
  cases cmd with
  | connect t s =>
    by_cases ht : t = target
    · simp [sourceTo?, ht]
    · simp [sourceTo?, ht]
  | _ => simp [sourceTo?]

namespace Bench

variable {b : Bench}

/-- The commands that mark no region, with their guards. -/
def trail (b : Bench) : List (Command × List Guard) := Scan.start.trail b.circuit.commands

/-- The sources of the connections to a node, read off the trail. -/
theorem sourcesTo_eq_trail (h : b.Elaborated) (values : List Nat) (target : NodeId) :
    b.sourcesTo values target =
      (b.trail.filter fun e => Block.allMet (b.holds values) e.2).filterMap
        fun e => e.1.sourceTo? target := by
  rw [trail, ← Block.trail_ofCommands h.block, sourcesTo, List.filterMap_filter,
    List.filterMap_filter, List.filterMap_filterMap]
  refine List.filterMap_congr fun e _ => ?_
  unfold Bench.sourceTo?
  cases hcmd : b.circuit.commands[e.1]? with
  | none => simp
  | some cmd => cases cmd <;> simp [Command.sourceTo?]

/-- What is on the trail comes with the guards of a position. -/
theorem exists_of_mem_trail (h : b.Elaborated) {cmd : Command} {path : List Guard}
    (hmem : (cmd, path) ∈ b.trail) : ∃ i, (i, path) ∈ b.block.guarded ∧
      b.circuit.commands[i]? = some cmd := by
  rw [trail, ← Block.trail_ofCommands h.block] at hmem
  obtain ⟨⟨i, path'⟩, hi, he⟩ := List.mem_filterMap.1 hmem
  obtain ⟨cmd', hcmd, hpair⟩ := Option.map_eq_some_iff.1 he
  obtain ⟨rfl, rfl⟩ := Prod.mk.inj hpair
  exact ⟨i, hi, hcmd⟩

end Bench

end Circuitry
