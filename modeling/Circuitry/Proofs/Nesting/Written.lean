/-
  The nesting of a description is the nesting it was written with.

  `Script.Lays s w l r` says that the run of `s` from `w` lays down `l`, ends as `r`, and that no chain
  in it fails: every condition and every body goes through, and every predicate is an operand of this
  circuit.  A single call may fail; where its failure is passed over the run goes on, and otherwise it
  ends the run.  A body may hold anything, chains in conditions and in bodies included.

  1. `Lays.run_eq` and `Lays.commands_eq`: such a run is the run of the script, and what it emits is the
     stream of the layout;
  2. `exists_lays`: every run that goes through lays something down, provided that no chain is merely
     attempted — only an attempted chain can fail without ending the run;
  3. `Lays.reconstructs`: the stream is read back to exactly the nesting of the layout, no report of a
     malformed stream is ever made, and the arms of each chain exclude each other.
-/
import Circuitry.Proofs.Nesting.Arms
import Circuitry.Proofs.Nesting.Readback
import Circuitry.Proofs.Script.Steps

namespace Circuitry.Script

open Draft (Session)

/-! ## Worlds along a run -/

namespace World

/-- The commands so far. -/
abbrev commands (w : World) : List Command := w.session.draft.commands

/-- After a command. -/
def emitted (w : World) (cmd : Command) : World := { w with session := w.session.emitted cmd }

/-- After a remark. -/
def noted (w : World) (e : Entry) : World := { w with log := e :: w.log }

/-- After the last clause of a chain. -/
def closed (w : World) (depth : UInt32) : World :=
  if 1 < depth then w.emitted (.otherwiseEnd (depth - 1)) else w

@[simp] theorem commands_emitted (w : World) (cmd : Command) :
    (w.emitted cmd).commands = w.commands ++ [cmd] := rfl

@[simp] theorem commands_noted (w : World) (e : Entry) : (w.noted e).commands = w.commands := rfl

end World

/-- The predicate of a clause: the variable that holds its condition, as an operand. -/
def predicate (pred : String) : Run Operand := do Draft.operand (← boolean pred)

/-! ## What a run lays down -/

mutual

/-- From `w`, the script lays down a layout and ends, and no chain in it fails. -/
inductive Lays : Script → World → Layout → Ending → Prop
  | done {w : World} : Lays .done w .done (.ok () w)
  | call {step : Step} {use : Call} {rest : Script} {w w' : World} {l : Layout} {r : Ending}
      (run : step.perform (meaning use) w = .ok () w') (cmds : List Command)
      (plain : ∀ c ∈ cmds, c.isControl = false) (grows : w'.commands = w.commands ++ cmds)
      (after : Lays rest w' l r) : Lays (.call step use rest) w (.prepend cmds plain l) r
  | stop {step : Step} {use : Call} {rest : Script} {w w' : World} {f : Draft.Fault}
      (run : step.perform (meaning use) w = .error (.fault f) w') (cmds : List Command)
      (plain : ∀ c ∈ cmds, c.isControl = false) (grows : w'.commands = w.commands ++ cmds) :
      Lays (.call step use rest) w (.prepend cmds plain .done) (.error (.fault f) w')
  | chain {step : Step} {cond body rest : Script} {pred : String} {tail : Tail}
      {w w₁ w₂ w₃ : World} {p : Operand} {lc lb lr : Layout} {lt : Layout.Tail} {r : Ending}
      (condition : Lays cond w lc (.ok () w₁)) (holds : predicate pred w₁ = .ok p w₁)
      (inside : Lays body (w₁.emitted (.whenBegin p 0)) lb (.ok () w₂))
      (follows : LaysTail 1 tail ((w₂.emitted (.whenEnd 0)).noted (.clause 1)) lt w₃)
      (after : Lays rest (w₃.noted (w₃.entry step.label (.ok .nothing))) lr r) :
      Lays (.chain step cond pred body tail rest) w (.chain lc p lb lt lr) r
  | branch {next : World → Script} {w : World} {l : Layout} {r : Ending}
      (taken : Lays (next w) w l r) : Lays (.branch next) w l r

/-- After `depth` clauses of a chain, what follows lays down the rest of it. -/
inductive LaysTail : UInt32 → Tail → World → Layout.Tail → World → Prop
  | close {depth : UInt32} {w : World} : LaysTail depth .close w .close (w.closed depth)
  | elseWhen {depth : UInt32} {cond body : Script} {pred : String} {tail : Tail}
      {w w₁ w₂ w' : World} {p : Operand} {lc lb : Layout} {lt : Layout.Tail}
      (condition : Lays cond (w.emitted (.altBegin depth)) lc (.ok () w₁))
      (holds : predicate pred w₁ = .ok p w₁)
      (inside : Lays body (w₁.emitted (.whenBegin p depth)) lb (.ok () w₂))
      (follows : LaysTail (depth + 1) tail
        ((w₂.emitted (.whenEnd depth)).noted (.clause (depth + 1))) lt w') :
      LaysTail depth (.elseWhen cond pred body tail) w (.elseWhen lc p lb lt) w'
  | otherwise {depth : UInt32} {body : Script} {w w₁ : World} {lb : Layout}
      (inside : Lays body (w.emitted (.altBegin depth)) lb (.ok () w₁)) :
      LaysTail depth (.otherwise body) w (.otherwise lb) (w₁.emitted (.otherwiseEnd depth))
  | branch {depth : UInt32} {next : World → Tail} {w w' : World} {lt : Layout.Tail}
      (taken : LaysTail depth (next w) w lt w') : LaysTail depth (.branch next) w lt w'

end

/-! ## The run, taken apart -/

/-- A boolean variable is only looked up. -/
theorem boolean_unchanged {name : String} {w w' : World} {s : Signal}
    (h : boolean name w = .ok s w') : w' = w :=
  (keeps_boolean (J := fun v => v = w) name).of_ok rfl h

theorem operand_unchanged {s : Signal} {w w' : World} {p : Operand}
    (h : liftBuild (Draft.operand s) w = .ok p w') : w' = w := by
  have hread := Draft.operand_reads (I := fun v => v = w.session) s w.session rfl
  unfold liftBuild at h
  cases hr : Draft.operand s w.session with
  | ok a v =>
    rw [hr] at h hread
    obtain ⟨-, rfl⟩ := EStateM.Result.ok.inj h
    rw [hread.2]
  | error e v =>
    rw [hr] at h
    cases h

theorem predicate_eq_ok {pred : String} {w w' : World} {p : Operand} :
    predicate pred w = .ok p w' ↔
      ∃ s, boolean pred w = .ok s w ∧ liftBuild (Draft.operand s) w = .ok p w ∧ w' = w := by
  unfold predicate
  rw [bind_eq_ok]
  constructor
  · rintro ⟨s, w₁, hs, hp⟩
    obtain rfl := boolean_unchanged hs
    obtain rfl := operand_unchanged hp
    exact ⟨s, hs, hp, rfl⟩
  · rintro ⟨s, hs, hp, rfl⟩
    exact ⟨s, w', hs, hp⟩

/-- A clause goes through if its condition, its predicate and its body do. -/
theorem clause_eq_ok {depth : UInt32} {cond body : Run Unit} {pred : String} {w w' : World} :
    Draft.Chain.clause depth (do cond; boolean pred) body w = .ok () w' ↔
      ∃ w₁ p w₂, cond w = .ok () w₁ ∧ predicate pred w₁ = .ok p w₁ ∧
        body (w₁.emitted (.whenBegin p depth)) = .ok () w₂ ∧ w' = w₂.emitted (.whenEnd depth) := by
  unfold Draft.Chain.clause
  simp only [bind_eq_ok, predicate_eq_ok]
  constructor
  · rintro ⟨s, w₁', ⟨_, w₁, hcond, hs⟩, p, w₁'', hp, _, w₁₁, hbegin, _, w₂, hbody, hend⟩
    obtain rfl := boolean_unchanged hs
    obtain rfl := operand_unchanged hp
    obtain ⟨-, rfl⟩ := EStateM.Result.ok.inj hbegin
    obtain ⟨-, rfl⟩ := EStateM.Result.ok.inj hend
    exact ⟨_, p, w₂, hcond, ⟨s, hs, hp, trivial⟩, hbody, rfl⟩
  · rintro ⟨w₁, p, w₂, hcond, ⟨s, hs, hp, -⟩, hbody, rfl⟩
    exact ⟨s, w₁, ⟨(), w₁, hcond, hs⟩, p, w₁, hp, (), _, rfl, (), w₂, hbody, rfl⟩

theorem start_eq_ok {cond body : Run Unit} {pred : String} {c : Draft.Chain} {w w' : World} :
    Draft.Chain.start (do cond; boolean pred) body w = .ok c w' ↔
      Draft.Chain.clause 0 (do cond; boolean pred) body w = .ok () w' ∧ c = ⟨1⟩ := by
  unfold Draft.Chain.start
  rw [bind_eq_ok]
  constructor
  · rintro ⟨_, w₁, hclause, hret⟩
    obtain ⟨rfl, rfl⟩ := EStateM.Result.ok.inj hret
    exact ⟨hclause, rfl⟩
  · rintro ⟨hclause, rfl⟩
    exact ⟨(), w', hclause, rfl⟩

theorem elseWhen_eq_ok {cond body : Run Unit} {pred : String} {c c' : Draft.Chain} {w w' : World} :
    c.elseWhen (do cond; boolean pred) body w = .ok c' w' ↔
      Draft.Chain.clause c.depth (do cond; boolean pred) body (w.emitted (.altBegin c.depth)) =
        .ok () w' ∧ c' = ⟨c.depth + 1⟩ := by
  unfold Draft.Chain.elseWhen
  simp only [bind_eq_ok]
  constructor
  · rintro ⟨_, w₁, hbegin, _, w₂, hclause, hret⟩
    obtain ⟨-, rfl⟩ := EStateM.Result.ok.inj hbegin
    obtain ⟨rfl, rfl⟩ := EStateM.Result.ok.inj hret
    exact ⟨hclause, rfl⟩
  · rintro ⟨hclause, rfl⟩
    exact ⟨(), _, rfl, (), w', hclause, rfl⟩

theorem otherwise_eq_ok {body : Run Unit} {c : Draft.Chain} {w w' : World} :
    c.otherwise body w = .ok () w' ↔
      ∃ w₁, body (w.emitted (.altBegin c.depth)) = .ok () w₁ ∧
        w' = w₁.emitted (.otherwiseEnd c.depth) := by
  unfold Draft.Chain.otherwise
  simp only [bind_eq_ok]
  constructor
  · rintro ⟨_, w₁, hbegin, _, w₂, hbody, hend⟩
    obtain ⟨-, rfl⟩ := EStateM.Result.ok.inj hbegin
    obtain ⟨-, rfl⟩ := EStateM.Result.ok.inj hend
    exact ⟨w₂, hbody, rfl⟩
  · rintro ⟨w₁, hbody, rfl⟩
    exact ⟨(), _, rfl, (), w₁, hbody, rfl⟩

theorem close_eq (c : Draft.Chain) (w : World) :
    liftBuild c.close w = .ok () (w.closed c.depth) := by
  unfold Draft.Chain.close World.closed
  by_cases h : 1 < c.depth
  · simp only [if_pos h]
    rfl
  · simp only [if_neg h]
    rfl

/-- The steps of a chain go through if its first clause and all that follows do. -/
theorem chain_eq_ok {cond body : Run Unit} {pred : String} {tail : Tail}
    {r : Answer × Option Draft.Bundle} {w w' : World} :
    (do
      let c ← Draft.Chain.start (do cond; boolean pred) body
      note (.clause c.depth)
      runTail c tail
      answerOnly .nothing : Run (Answer × Option Draft.Bundle)) w = .ok r w' ↔
      ∃ w₂, Draft.Chain.clause 0 (do cond; boolean pred) body w = .ok () w₂ ∧
        runTail ⟨1⟩ tail (w₂.noted (.clause 1)) = .ok () w' ∧ r = (.nothing, none) := by
  simp only [bind_eq_ok, start_eq_ok]
  constructor
  · rintro ⟨c, w₂, ⟨hclause, rfl⟩, _, w₂', hnote, _, w₃, htail, hret⟩
    obtain ⟨-, rfl⟩ := EStateM.Result.ok.inj hnote
    obtain ⟨rfl, rfl⟩ := EStateM.Result.ok.inj hret
    exact ⟨w₂, hclause, htail, rfl⟩
  · rintro ⟨w₂, hclause, htail, rfl⟩
    exact ⟨⟨1⟩, w₂, ⟨hclause, rfl⟩, (), _, rfl, (), w', htail, rfl⟩

/-- A step without a value that goes through. -/
theorem perform_of_ok {step : Step} {act : Run (Answer × Option Draft.Bundle)} {a : Answer}
    {w w' : World} (h : act w = .ok (a, none) w') :
    step.perform act w = .ok () (w'.noted (w'.entry step.label (.ok a))) := by
  unfold Step.perform
  rw [h]
  cases step.bindAs <;> rfl

/-- A step that is not merely attempted goes through only if its action does. -/
theorem exists_of_perform_eq_ok {step : Step} {act : Run (Answer × Option Draft.Bundle)}
    {w w' : World} (hstep : step.attempt = false) (h : step.perform act w = .ok () w') :
    ∃ r w₁, act w = .ok r w₁ := by
  unfold Step.perform at h
  cases hr : act w with
  | ok r w₁ => exact ⟨r, w₁, rfl⟩
  | error e w₁ =>
    rw [hr] at h
    cases e with
    | nonsense | overflow => cases h
    | fault f => simp [hstep] at h

/-! ## What is laid down is what is run -/

mutual

theorem Lays.run_eq {s : Script} {w : World} {l : Layout} {r : Ending} : Lays s w l r → s.run w = r
  | .done => rfl
  | .call run _ _ _ after => by
    rw [Script.run, bind_of_ok run]
    exact after.run_eq
  | .stop run _ _ _ => by
    rw [Script.run, bind_of_error run]
  | .chain condition holds inside follows after => by
    have hclause := clause_eq_ok.2
      ⟨_, _, _, condition.run_eq, holds, inside.run_eq, rfl⟩
    have hchain := chain_eq_ok.2 ⟨_, hclause, follows.run_eq, rfl⟩
    rw [Script.run, bind_of_ok (perform_of_ok hchain)]
    exact after.run_eq
  | .branch taken => taken.run_eq

theorem LaysTail.run_eq {depth : UInt32} {t : Tail} {w w' : World} {l : Layout.Tail} :
    LaysTail depth t w l w' → runTail ⟨depth⟩ t w = .ok () w'
  | .close => close_eq ⟨depth⟩ w
  | .elseWhen condition holds inside follows => by
    have hclause := clause_eq_ok.2
      ⟨_, _, _, condition.run_eq, holds, inside.run_eq, rfl⟩
    have helse := elseWhen_eq_ok.2 ⟨hclause, rfl⟩
    rw [runTail, bind_of_ok helse]
    exact follows.run_eq
  | .otherwise inside => otherwise_eq_ok.2 ⟨_, inside.run_eq, rfl⟩
  | .branch taken => taken.run_eq

end

mutual

/-- What a run emits is the stream of what it lays down. -/
theorem Lays.commands_eq {s : Script} {w : World} {l : Layout} {r : Ending} :
    Lays s w l r → r.world.commands = w.commands ++ l.commands
  | .done => (List.append_nil _).symm
  | .call _ cmds plain grows after => by
    rw [after.commands_eq, grows, Layout.commands_prepend, List.append_assoc]
  | .stop _ cmds plain grows => by
    rw [Layout.commands_prepend, Layout.commands, List.append_nil]
    exact grows
  | .chain condition _ inside follows after => by
    have hc := condition.commands_eq
    have hb := inside.commands_eq
    have ht := follows.commands_eq
    simp only [Ending.world, World.commands_emitted, World.commands_noted] at hc hb ht
    rw [after.commands_eq, World.commands_noted, ht, hb, hc]
    simp [Layout.commands, Layout.clauseCommands]
  | .branch taken => taken.commands_eq

theorem LaysTail.commands_eq {depth : UInt32} {t : Tail} {w w' : World} {l : Layout.Tail} :
    LaysTail depth t w l w' → w'.commands = w.commands ++ l.commands depth
  | .close => by
    unfold World.closed Layout.Tail.commands
    split
    · rfl
    · exact (List.append_nil _).symm
  | .elseWhen condition _ inside follows => by
    have hc := condition.commands_eq
    have hb := inside.commands_eq
    have ht := follows.commands_eq
    simp only [Ending.world, World.commands_emitted, World.commands_noted] at hc hb ht
    rw [ht, hb, hc]
    simp [Layout.Tail.commands, Layout.clauseCommands]
  | .otherwise inside => by
    have hb := inside.commands_eq
    simp only [Ending.world, World.commands_emitted] at hb
    rw [World.commands_emitted, hb]
    simp [Layout.Tail.commands]
  | .branch taken => taken.commands_eq

end

/-! ## Every run without a failing chain lays something down -/

/-- The commands have grown by commands that mark no region. -/
def GrownFrom (before : List Command) (w : Session) : Prop :=
  ∃ cmds, (∀ c ∈ cmds, c.isControl = false) ∧ w.draft.commands = before ++ cmds

theorem closed_grownFrom (before : List Command) : Draft.Closed (GrownFrom before) := by
  rintro L made w w' hstep ⟨cmds, plain, h⟩
  obtain ⟨more, hmore, h'⟩ := hstep.commands
  refine ⟨cmds ++ more, ?_, ?_⟩
  · intro c hc
    rcases List.mem_append.1 hc with hc | hc
    · exact plain c hc
    · exact hmore c hc
  · rw [h', h, List.append_assoc]

theorem grownFrom_self (w : Session) : GrownFrom w.draft.commands w :=
  ⟨[], nofun, (List.append_nil _).symm⟩

mutual

/-- No chain is merely attempted, whichever way the script goes on. -/
def Unattempted : Script → Prop
  | .done => True
  | .call _ _ rest => rest.Unattempted
  | .chain step cond _ body tail rest =>
    step.attempt = false ∧ cond.Unattempted ∧ body.Unattempted ∧ tail.Unattempted ∧
      rest.Unattempted
  | .branch next => ∀ w, (next w).Unattempted

/-- The same for what follows a clause. -/
def Tail.Unattempted : Tail → Prop
  | .close => True
  | .elseWhen cond _ body tail => cond.Unattempted ∧ body.Unattempted ∧ tail.Unattempted
  | .otherwise body => body.Unattempted
  | .branch next => ∀ w, (next w).Unattempted

end

mutual

/-- A run that goes through lays something down, unless a chain was merely attempted. -/
theorem exists_lays : ∀ (s : Script) {w w' : World}, s.Unattempted → s.run w = .ok () w' →
    ∃ l, Lays s w l (.ok () w')
  | .done, w, w', _, h => by
    obtain ⟨-, rfl⟩ := EStateM.Result.ok.inj h
    exact ⟨.done, .done⟩
  | .call step use rest, w, w', hs, h => by
    obtain ⟨_, w₁, hcall, hrest⟩ := bind_eq_ok.1 h
    have hgrown := (closed_grownFrom w.commands).stable
    have hkeeps := keeps_perform hgrown step (makes_meaning hgrown use)
    obtain ⟨cmds, plain, grows⟩ := hkeeps.of_ok (grownFrom_self w.session) hcall
    obtain ⟨l, hl⟩ := exists_lays rest hs hrest
    exact ⟨_, .call hcall cmds plain grows hl⟩
  | .chain step cond pred body tail rest, w, w', hs, h => by
    obtain ⟨hattempt, hcond, hbody, htail, hrest⟩ := hs
    obtain ⟨_, w', hperform, hafter⟩ := bind_eq_ok.1 h
    -- the step went through and the chain is not merely attempted, so the chain went through
    obtain ⟨r, w₃, hchain⟩ := exists_of_perform_eq_ok hattempt hperform
    obtain ⟨w₂', hclause, hfollows, rfl⟩ := chain_eq_ok.1 hchain
    obtain ⟨w₁, p, w₂, hc, hp, hb, rfl⟩ := clause_eq_ok.1 hclause
    obtain rfl := (EStateM.Result.ok.inj (hperform.symm.trans (perform_of_ok hchain))).2
    obtain ⟨lc, hlc⟩ := exists_lays cond hcond hc
    obtain ⟨lb, hlb⟩ := exists_lays body hbody hb
    obtain ⟨lt, hlt⟩ := exists_laysTail tail htail hfollows
    obtain ⟨lr, hlr⟩ := exists_lays rest hrest hafter
    exact ⟨_, .chain hlc hp hlb hlt hlr⟩
  | .branch next, w, w', hs, h => by
    obtain ⟨l, hl⟩ := exists_lays (next w) (hs w) h
    exact ⟨l, .branch hl⟩

theorem exists_laysTail : ∀ (t : Tail) {depth : UInt32} {w w' : World}, t.Unattempted →
    runTail ⟨depth⟩ t w = .ok () w' → ∃ l, LaysTail depth t w l w'
  | .close, depth, w, w', _, h => by
    obtain rfl := (EStateM.Result.ok.inj ((close_eq ⟨depth⟩ w).symm.trans h)).2
    exact ⟨.close, .close⟩
  | .elseWhen cond pred body tail, depth, w, w', ht, h => by
    obtain ⟨hcond, hbody, htail⟩ := ht
    obtain ⟨c, w₂', helse, hnote⟩ := bind_eq_ok.1 h
    obtain ⟨hclause, rfl⟩ := elseWhen_eq_ok.1 helse
    obtain ⟨w₁, p, w₂, hc, hp, hb, rfl⟩ := clause_eq_ok.1 hclause
    obtain ⟨lc, hlc⟩ := exists_lays cond hcond hc
    obtain ⟨lb, hlb⟩ := exists_lays body hbody hb
    obtain ⟨lt, hlt⟩ := exists_laysTail tail htail hnote
    exact ⟨_, .elseWhen hlc hp hlb hlt⟩
  | .otherwise body, depth, w, w', ht, h => by
    obtain ⟨w₁, hb, rfl⟩ := otherwise_eq_ok.1 h
    obtain ⟨lb, hlb⟩ := exists_lays body ht hb
    exact ⟨_, .otherwise hlb⟩
  | .branch next, depth, w, w', ht, h => by
    obtain ⟨l, hl⟩ := exists_laysTail (next w) (ht w) h
    exact ⟨l, .branch hl⟩

end

/-! ## Reports -/

/-- No mistake of the elaborator is among the reports held. -/
def Sound (w : Session) : Prop := ∀ d ∈ w.draft.sink.held, d.code ≠ ⟨399⟩

theorem code_toDiagnostic (f : Draft.Fault) : f.toDiagnostic.code = f.code := by
  cases f with
  | notSynthesizable ty why => cases why <;> rfl
  | _ => rfl

theorem closed_sound : Draft.Closed Sound := by
  intro L made w w' hstep hw
  cases hstep with
  | report f accumulates =>
    intro d hd
    rcases List.mem_append.1 hd with hd | hd
    · exact hw d hd
    · obtain rfl := List.mem_singleton.1 hd
      rw [code_toDiagnostic]
      exact Draft.Fault.ofUse_of_accumulates accumulates
  | drain => exact nofun
  | select cond ts fs c t f types _ _ _ _ _ _ _ =>
    intro d hd
    rw [Session.sink_selected] at hd
    exact hw d hd
  | _ => exact hw

theorem mark_sound {L : List Signal} {w w' : Session} (h : w.Mark L w') (hw : Sound w) :
    Sound w' := by
  obtain ⟨cmd, -, rfl⟩ := h.commands
  exact hw

theorem hasCode_eq_false {ds : List Diagnostic} (h : ∀ d ∈ ds, d.code ≠ ⟨399⟩) :
    Draft.Failure.hasCode ⟨ds⟩ ⟨399⟩ = false := by
  simpa [Draft.Failure.hasCode] using h

/-! ## The nesting that was written -/

/-- A run that lays something down is a description that means something. -/
theorem Lays.ending {s : Script} {w : World} {l : Layout} {r : Ending} :
    Lays s w l r → (∃ w', r = .ok () w') ∨ ∃ f w', r = .error (.fault f) w'
  | .done => .inl ⟨_, rfl⟩
  | .call _ _ _ _ after => after.ending
  | .stop _ _ _ _ => .inr ⟨_, _, rfl⟩
  | .chain _ _ _ _ after => after.ending
  | .branch taken => taken.ending

/-- The outcome of a description whose chains all go through: its stream is that of the layout, and no
    report says that the stream is malformed. -/
theorem Lays.outcome {s : Script} {m : Memory} {name : String} {settings : Settings.Elaboration}
    {l : Layout} {r : Ending} (h : Lays s (m.world name settings) l r) (hl : l.Counted) :
    ∃ o m', describe? s m name settings = some (o, m') ∧ o.commands = l.commands ∧
      ∀ failure, o.result = .error failure → failure.hasCode ⟨399⟩ = false := by
  have hrun := h.run_eq
  have hcommands : r.world.commands = l.commands := h.commands_eq
  have hstart : Sound (m.world name settings).session := nofun
  have hkeeps := keeps_run closed_sound.stable (fun _ _ _ => mark_sound) s
  obtain ⟨w', rfl⟩ | ⟨f, w', rfl⟩ := h.ending
  · -- the stream is read back, so what fails has been reported on the way
    have hsound : Sound w'.session := hkeeps.of_ok hstart hrun
    refine ⟨_, _, describe?_iff.2 (.finished hrun), hcommands, ?_⟩
    intro failure hfinish
    have hread : Block.ofCommands w'.session.draft.commands = .ok (l.block 0) := by
      rw [← Block.ofCommands_commands l hl, ← hcommands]
      rfl
    simp only [World.outcome, Draft.finish, Draft.finalSink, hread] at hfinish
    split at hfinish
    · obtain rfl := Except.error.inj hfinish
      exact hasCode_eq_false hsound
    · cases hfinish
  · -- the failure that has stopped the run comes last, and is one of use
    obtain ⟨hf, hsound⟩ : f.ofUse ∧ Sound w'.session := hkeeps.of_error hstart hrun
    refine ⟨_, _, describe?_iff.2 (.stopped hrun), hcommands, ?_⟩
    intro failure habort
    obtain rfl := Except.error.inj habort
    refine hasCode_eq_false fun d hd => ?_
    rcases List.mem_append.1 hd with hd | hd
    · exact hsound d hd
    · obtain rfl := List.mem_singleton.1 hd
      rw [code_toDiagnostic]
      exact hf

/-- **The nesting that was written.**  The stream of a description whose chains all go through is read
    back to the nesting of its layout; a malformed stream is never reported; and under every truth
    assignment, of each chain whose surrounding guards are met the first arm whose predicate holds is
    taken and no other, each arm being what the nesting lists under its guards. -/
theorem Lays.reconstructs {s : Script} {m : Memory} {name : String}
    {settings : Settings.Elaboration} {l : Layout} {r : Ending}
    (h : Lays s (m.world name settings) l r) (hl : l.Counted) :
    ∃ o m', describe? s m name settings = some (o, m') ∧
      o.commands = l.commands ∧ Block.ofCommands o.commands = .ok (l.block 0) ∧
      (∀ failure, o.result = .error failure → failure.hasCode ⟨399⟩ = false) ∧
      ∀ holds : Operand → Bool,
        (l.block 0).active holds =
            ((l.block 0).guarded.filter fun e => Block.allMet holds e.2).map (·.1) ∧
          ∀ ch ∈ l.chains [] 0, Block.allMet holds ch.path = true →
            ch.Exclusive holds ∧ ∀ a ∈ ch.arms, a.ListedIn (l.block 0).guarded := by
  obtain ⟨o, m', hdescribe, hcommands, hreports⟩ := h.outcome hl
  refine ⟨o, m', hdescribe, hcommands, ?_, hreports, fun holds => ⟨?_, ?_⟩⟩
  · rw [hcommands]
    exact Block.ofCommands_commands l hl
  · exact Block.active_eq_filter holds (l.block 0)
  · intro ch hch hpath
    refine ⟨Layout.exclusive_of_mem_chains l [] 0 ch hch hpath, fun a ha => ?_⟩
    exact Layout.listedIn_block l [] 0 ch a hch ha

/-! ## A chain inside a chain -/

/-- The number of commands at the end of a run that goes through. -/
def Ending.length? : Ending → Option Nat
  | .ok _ w => some w.commands.length
  | .error _ _ => none

theorem Ending.exists_of_length? {r : Ending} {n : Nat} (h : r.length? = some n) :
    ∃ w', r = .ok () w' ∧ w'.commands.length = n := by
  cases r with
  | ok u w' => exact ⟨w', rfl, Option.some.inj h⟩
  | error e w' => cases h

/-- `when a`, else when `b` with a chain inside, otherwise. -/
def threeArms : Script :=
  let use (c : Call) (rest : Script) : Script := .call ⟨"", false, none⟩ c rest
  let bool (role : Draft.Declared) (name : String) (rest : Script) : Script :=
    .call ⟨"", false, some name⟩ (.declare role name (.leaf (.template .bool .unknown))) rest
  bool (.port .input) "a" <| bool (.port .input) "b" <| bool .wire "x" <|
    .chain ⟨"", false, none⟩ .done "a" (use (.connect "x" "a") .done)
      (.elseWhen .done "b"
        (.chain ⟨"", false, none⟩ .done "a" (use (.connect "x" "b") .done) .close .done)
        (.otherwise (use (.connect "x" "b") .done)))
      .done

theorem threeArms_reconstructs : ∃ l r, Lays threeArms (Memory.empty.world "t" .default) l r ∧
    l.Counted ∧ ∃ o m', describe? threeArms .empty "t" .default = some (o, m') ∧
      o.commands.length = 15 ∧ Block.ofCommands o.commands = .ok (l.block 0) := by
  have hrun : Ending.length? (threeArms.run (Memory.empty.world "t" .default)) = some 15 := by
    decide +kernel
  obtain ⟨w', hw, hlength⟩ := Ending.exists_of_length? hrun
  have hattempts : threeArms.Unattempted :=
    ⟨rfl, trivial, trivial, ⟨trivial, ⟨rfl, trivial, trivial, trivial, trivial⟩, trivial⟩, trivial⟩
  obtain ⟨l, h⟩ := exists_lays threeArms hattempts hw
  have hcommands : w'.commands = [] ++ l.commands := h.commands_eq
  rw [List.nil_append] at hcommands
  have hl : l.Counted := l.counted_of_length (by rw [← hcommands, hlength]; decide)
  obtain ⟨o, m', hdescribe, ho, hblock, -, -⟩ := h.reconstructs hl
  refine ⟨l, _, h, hl, o, m', hdescribe, ?_, hblock⟩
  rw [ho, ← hcommands, hlength]

end Circuitry.Script
