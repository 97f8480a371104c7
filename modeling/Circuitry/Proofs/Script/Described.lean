/-
  Circuits that come out of descriptions.

  A program describes one circuit after another, and signals of earlier circuits stay around;
  `Memory.Reached` is what can have become of its memory.  Whatever circuit the next description
  returns has grown step by step (`Grown`), and its regions nest.
-/
import Circuitry.Proofs.Draft.Payloads
import Circuitry.Proofs.Script.Steps

namespace Circuitry.Script

open Draft (Session Grown Stable)

/-- What the memory can be after some descriptions. -/
inductive Memory.Reached : Memory → Prop
  | empty : Reached .empty
  | describe {m m' : Memory} {s : Script} {name : String} {settings : Settings.Elaboration}
      {o : Outcome} (before : Reached m) (run : s.describe? m name settings = some (o, m')) :
      Reached m'

/-- Nothing is bound yet under the number of the next circuit. -/
def Memory.Fresh (m : Memory) : Prop := ∀ e ∈ m.signals.bindings, e.2.context < m.context

/-- What a run that ends, well or with a fault, keeps of its first session. -/
theorem describe?_keeps {I : List Signal → Session → Prop} (hI : Stable I)
    (hM : ∀ ⦃L : List Signal⦄ ⦃w w' : Session⦄, w.Mark L w' → I L w → I L w') {s : Script}
    {m m' : Memory} {name : String} {settings : Settings.Elaboration} {o : Outcome}
    (h : s.describe? m name settings = some (o, m'))
    (hw : I (held m.values) (m.world name settings).session) :
    ∃ w : World, I w.around w.session ∧ m' = w.memory ∧ o.commands = w.session.draft.commands ∧
      ∀ c, o.result = .ok c → w.session.draft.finish = .ok c := by
  have hkeeps := keeps_run hI hM s
  have hstart : Holding I [] (m.world name settings) := hw
  cases describe?_iff.1 h with
  | @finished w run => exact ⟨w, hkeeps.of_ok hstart run, rfl, rfl, fun c hc => hc⟩
  | @stopped f w run => exact ⟨w, (hkeeps.of_error hstart run).2, rfl, rfl, nofun⟩

theorem Memory.Reached.fresh {m : Memory} (h : m.Reached) : m.Fresh := by
  induction h with
  | empty => exact nofun
  | @describe m m' s name settings o _ run ih =>
    have hstart : (m.world name settings).session.NumberedUpTo m.context :=
      ⟨rfl, fun e he => Nat.le_of_lt (ih e he)⟩
    obtain ⟨w, hw, rfl, -, -⟩ := describe?_keeps Session.closed_numbered.stable
      (fun _ _ _ => Session.mark_numbered) run hstart
    intro e he
    show e.2.context < w.session.draft.context + 1
    rw [hw.context_eq]
    exact Nat.lt_succ_of_le (hw.bindings e he)

/-- The signals that are left are registered. -/
theorem Memory.Reached.registered {m : Memory} (h : m.Reached) :
    Session.Registered (held m.values) m.signals := by
  induction h with
  | empty => exact ⟨nofun, nofun, nofun⟩
  | @describe m m' s name settings o _ run ih =>
    obtain ⟨w, hw, rfl, -, -⟩ := describe?_keeps Session.stable_registered
      (fun _ _ _ hmark hw => Session.mark_signals hmark ▸ hw) run ih
    exact hw

/-- Every description starts lawful. -/
theorem Memory.Reached.lawful {m : Memory} (h : m.Reached) (name : String)
    (settings : Settings.Elaboration) :
    (m.world name settings).session.Lawful (held m.values) :=
  Session.lawful_empty h.registered h.fresh

/-- The signals that are left are apt. -/
theorem Memory.Reached.apt {m : Memory} (h : m.Reached) : ∀ s ∈ held m.values, s.Apt := by
  induction h with
  | empty => exact List.forall_mem_nil _
  | @describe m m' s name settings o _ run ih =>
    have hstart : (m.world name settings).session.Suited (held m.values) :=
      ⟨ih, List.forall_mem_nil _⟩
    obtain ⟨w, hw, rfl, -, -⟩ := describe?_keeps Session.stable_suited
      (fun _ _ _ => Session.mark_suited) run hstart
    exact hw.signals

/-- Every description starts proper. -/
theorem Memory.Reached.proper {m : Memory} (h : m.Reached) (name : String)
    (settings : Settings.Elaboration) :
    (m.world name settings).session.Proper (held m.values) :=
  ⟨h.lawful name settings, h.apt, List.forall_mem_nil _⟩

/-- A draft is finished if its regions nest and nothing has been reported. -/
theorem finish_cases {d : Draft} {c : Circuit} (h : d.finish = .ok c) :
    ∃ b, Block.ofCommands d.commands = .ok b ∧ d.sink.errorCount = 0 ∧
      c = ⟨d.name, d.nodes, d.ports, d.commands⟩ := by
  unfold Draft.finish Draft.finalSink at h
  cases hb : Block.ofCommands d.commands with
  | ok b =>
    simp only [hb] at h
    split at h
    · cases h
    · next hnone =>
      obtain rfl := Except.ok.inj h
      exact ⟨b, rfl, by simpa [Sink.hasErrors] using hnone, rfl⟩
  | error f => simp [hb, Sink.hasErrors] at h

/-- What a finished draft becomes. -/
theorem finish_eq_ok {d : Draft} {c : Circuit} (h : d.finish = .ok c) :
    c = ⟨d.name, d.nodes, d.ports, d.commands⟩ ∧ ∃ b, Block.ofCommands d.commands = .ok b := by
  obtain ⟨b, hb, -, hc⟩ := finish_cases h
  exact ⟨hc, b, hb⟩

/-- Nothing has been reported in a finished draft. -/
theorem errorCount_of_finish {d : Draft} {c : Circuit} (h : d.finish = .ok c) :
    d.sink.errorCount = 0 := by
  obtain ⟨-, -, hnone, -⟩ := finish_cases h
  exact hnone

/-- **Every circuit has grown.**  What a description returns has grown step by step, and its regions
    nest. -/
theorem grown_of_describe? {s : Script} {m m' : Memory} {name : String}
    {settings : Settings.Elaboration} {o : Outcome} {c : Circuit} (hm : m.Reached)
    (h : s.describe? m name settings = some (o, m')) (hc : o.result = .ok c)
    (hsize : c.nodes.length ≤ 2 ^ 32) :
    Grown c.nodes c.ports c.commands ∧ ∃ b, Block.ofCommands c.commands = .ok b := by
  obtain ⟨w, hw, -, -, hfinish⟩ := describe?_keeps Session.stable_lawful
    (fun _ _ _ => Session.mark_lawful) h (hm.lawful name settings)
  obtain ⟨rfl, hblock⟩ := finish_eq_ok (hfinish c hc)
  exact ⟨(hw.consistent hsize).grown, hblock⟩

/-- Every constant of a circuit that a description returns is one that a literal can be. -/
theorem suits_of_describe? {s : Script} {m m' : Memory} {name : String}
    {settings : Settings.Elaboration} {o : Outcome} {c : Circuit} (hm : m.Reached)
    (h : s.describe? m name settings = some (o, m')) (hc : o.result = .ok c) :
    ∀ k ∈ c.constants, k.Suits := by
  obtain ⟨w, hw, -, -, hfinish⟩ := describe?_keeps Session.stable_proper
    (fun _ _ _ => Session.mark_proper) h (hm.proper name settings)
  obtain ⟨rfl, -⟩ := finish_eq_ok (hfinish c hc)
  intro k hk
  obtain ⟨cmd, hcmd, hmem⟩ := List.mem_flatMap.1 hk
  exact hw.suited.constants cmd hcmd k hmem

end Circuitry.Script
