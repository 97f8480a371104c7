/-
  Circuits under construction are well formed.

  The circuit that a script has described is in single-assignment form and defines before it uses, at
  whatever point the run ends: after the last step, at a fault that nothing passes over, or at a call
  without meaning, inside a chain or outside, and whichever faults have been passed over before.  Any
  point of a description is the end of some script, so this is said of every circuit under
  construction.
-/
import Circuitry.Proofs.Draft.WellFormed
import Circuitry.Proofs.Script.Described

namespace Circuitry.Script

/-- What a run keeps, it leaves behind, however it ends. -/
theorem holding_world {I : List Signal → Draft.Session → Prop} {act : Run Unit} (h : RunKeeps I act)
    {w : World} (hw : Holding I [] w) : Holding I [] (Ending.world (act w)) := by
  cases hr : act w with
  | ok _ w' => exact h.of_ok hw hr
  | error e w' => exact (h.of_error hw hr).2

/-- **Single assignment.**  Wherever a run ends, the circuit so far is well formed, unless it has more
    nodes than there are ids. -/
theorem run_wellFormed {m : Memory} (hm : m.Reached) (s : Script) (name : String)
    (settings : Settings.Elaboration)
    (hsize : (Ending.world (s.run (m.world name settings))).session.draft.nodes.length ≤ 2 ^ 32) :
    (Ending.world (s.run (m.world name settings))).session.draft.circuit.WellFormed := by
  have hkeeps := keeps_run Draft.Session.stable_lawful (fun _ _ _ => Draft.Session.mark_lawful) s
  have hstart : Holding Draft.Session.Lawful [] (m.world name settings) := hm.lawful name settings
  have hend := holding_world hkeeps hstart
  exact (hend.consistent hsize).grown.wellFormed hsize

/-- Every circuit that comes out of a description is well formed. -/
theorem wellFormed_of_describe? {s : Script} {m m' : Memory} {name : String}
    {settings : Settings.Elaboration} {o : Outcome} {c : Circuit} (hm : m.Reached)
    (h : s.describe? m name settings = some (o, m')) (hc : o.result = .ok c)
    (hsize : c.nodes.length ≤ 2 ^ 32) : c.WellFormed :=
  (grown_of_describe? hm h hc hsize).1.wellFormed hsize

/-! ## A selection that is connected -/

/-- A selection between an aggregate of inputs and one of wires, by a field of the first.  It cannot be
    driven, which is passed over; it drives the wires inside a chain, and then the run stops there. -/
def selecting : Script :=
  let pair : Shape Leaf := .group [("v", .leaf (.template .bool .unknown)),
    ("d", .leaf (.template .uint (.known 4)))]
  .call ⟨"", false, some "a"⟩ (.declare (.port .input) "a" pair) <|
  .call ⟨"", false, some "b"⟩ (.declare .wire "b" pair) <|
  .call ⟨"", false, some "c"⟩ (.field "a" "v") <|
  .call ⟨"", false, some "m"⟩ (.muxBundle "c" "a" "b") <|
  .call ⟨"", true, none⟩ (.connect "m" "a") <|
  .chain ⟨"", false, none⟩ .done "c"
    (.call ⟨"", false, none⟩ (.connect "b" "m") <| .call ⟨"", false, none⟩ (.look "z") .done)
    .close .done

theorem selecting_wellFormed : ∃ w, Ending.world (selecting.run (Memory.empty.world "t" .default)) = w ∧
    w.session.draft.nodes.length = 7 ∧ w.session.draft.commands.length = 8 ∧
      w.session.draft.circuit.WellFormed := by
  have hsizes : (fun w : World => (w.session.draft.nodes.length, w.session.draft.commands.length))
      (Ending.world (selecting.run (Memory.empty.world "t" .default))) = (7, 8) := by
    decide +kernel
  have hwell := run_wellFormed .empty selecting "t" .default
  generalize Ending.world (selecting.run (Memory.empty.world "t" .default)) = w at hsizes hwell
  obtain ⟨hnodes, hcommands⟩ := Prod.mk.inj hsizes
  exact ⟨w, rfl, hnodes, hcommands, hwell (by rw [hnodes]; decide)⟩

end Circuitry.Script
