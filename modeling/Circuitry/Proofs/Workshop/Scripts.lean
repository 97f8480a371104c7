/-
  Scripts are acts of a workshop.

  A workshop takes a chain apart into single commands, so that anything may happen between them.  A
  script runs a chain as a whole.  Here it is shown that nothing is lost by that: wherever a script
  brings a draft, with the signals and variables that go with it, acts of a workshop bring it there as
  well (`run_script`), also where the script stops at a fault.

  What a script does is followed with one invariant, `Reaches`: the world as it is now can be put back
  into the workshop, and acts lead there.
-/
import Circuitry.Proofs.Triple
import Circuitry.Workshop

namespace Circuitry.Workshop

open Script (Answer Run Step Stop Tail World boolean liftBuild note run runTail)

variable {w : Workshop} {context : Nat}

/-! ## Worlds of a workshop -/

/-- Only the last use of a draft is seen. -/
@[simp] theorem put_put (v v' : World) : (w.put context v).put context v' = w.put context v' := by
  simp [put, List.set_set]

theorem put_world {d : Draft} (hd : w.drafts[context]? = some d) (log : List Script.Entry) :
    w.put context (w.world d log) = w := by
  obtain ⟨hlt, rfl⟩ := List.getElem?_eq_some_iff.1 hd
  simp [put, world, List.set_getElem_self]

/-- The draft is there, and acts lead to where it stands in the world. -/
structure Reaches (w : Workshop) (context : Nat) (v : World) : Prop where
  here : context < w.drafts.length
  acts : ∃ acts, w.run acts = w.put context v

/-- The action leads from where acts lead to where acts lead, also where it ends at a fault. -/
abbrev Acts {α : Type} (w : Workshop) (context : Nat) (act : Run α) : Prop :=
  Triple (w.Reaches context) act (fun _ => w.Reaches context)
    (fun e v => ∀ f, e = .fault f → w.Reaches context v)

/-- One more use. -/
theorem Reaches.use {v v' : World} (h : w.Reaches context v) (use : Use) {bindAs : Option String}
    (hv : Step.perform ⟨"", true, bindAs⟩ use.meaning v = .ok () v') : w.Reaches context v' := by
  obtain ⟨hlt, acts, hacts⟩ := h
  refine ⟨hlt, acts ++ [.use context v.log bindAs use], ?_⟩
  have hd : (w.put context v).drafts[context]? = some v.session.draft :=
    List.getElem?_set_self hlt
  have hworld : (w.put context v).world v.session.draft v.log = v := rfl
  have hrun : w.run (acts ++ [.use context v.log bindAs use]) =
      (w.run acts).act (.use context v.log bindAs use) := by
    simp [run]
  rw [hrun, hacts]
  simp only [act, hd, hworld, hv, put_put]

/-- The log plays no part. -/
theorem Reaches.congr {v v' : World} (h : w.Reaches context v) (hsession : v'.session = v.session)
    (hvalues : v'.values = v.values) : w.Reaches context v' := by
  refine ⟨h.here, ?_⟩
  rw [put, hsession, hvalues]
  exact h.acts

theorem Reaches.ok {v v' : World} (h : w.Reaches context v) (use : Use)
    {r : Answer × Option Draft.Bundle} (hv : use.meaning v = .ok r v') (bindAs : Option String) :
    w.Reaches context (v'.keep bindAs r.2) := by
  have hstep : Step.perform ⟨"", true, bindAs⟩ use.meaning v =
      .ok () { v'.keep bindAs r.2 with log := v'.entry "" (.ok r.1) :: v'.log } := by
    simp only [Step.perform, hv]
  exact (h.use use hstep).congr rfl rfl

theorem Reaches.fault {v v' : World} (h : w.Reaches context v) (use : Use) {f : Draft.Fault}
    (hv : use.meaning v = .error (.fault f) v') : w.Reaches context v' := by
  have hstep : Step.perform ⟨"", true, none⟩ use.meaning v =
      .ok () { v' with log := v'.entry "" (.error f) :: v'.log } := by
    simp only [Step.perform, hv, if_true]
  exact (h.use use hstep).congr rfl rfl

/-! ## Parts of a script -/

/-- A step leaves what its action leaves, but for the log. -/
theorem acts_perform (step : Step) {act : Run (Answer × Option Draft.Bundle)}
    (h : Triple (w.Reaches context) act (fun r v => w.Reaches context (v.keep step.bindAs r.2))
      (fun e v => ∀ f, e = .fault f → w.Reaches context v)) : w.Acts context (step.perform act) := by
  intro v hv
  have hact := h v hv
  unfold Step.perform
  cases hr : act v with
  | ok r v' =>
    rw [hr] at hact
    exact hact.congr rfl rfl
  | error e v' =>
    rw [hr] at hact
    cases e with
    | nonsense | overflow => exact fun _ => nofun
    | fault f =>
      have hleft : w.Reaches context
          { v' with log := v'.entry step.label (.error f) :: v'.log } :=
        (hact f rfl).congr rfl rfl
      cases ha : step.attempt with
      | true => simpa [ha] using hleft
      | false => simpa [ha] using hleft

theorem keep_none (v : World) (name : Option String) : v.keep name none = v := by
  cases name <;> rfl

/-- A call of a script is one use. -/
theorem acts_call (step : Step) (use : Script.Call) :
    w.Acts context (step.perform (Script.meaning use)) := by
  refine acts_perform step fun v h => ?_
  cases hr : Script.meaning use v with
  | ok r v' => exact h.ok (.call use) hr step.bindAs
  | error e v' =>
    cases e with
    | nonsense | overflow => exact fun _ => nofun
    | fault f => exact fun _ _ => h.fault (.call use) hr

/-- A use that answers nothing. -/
theorem acts_use (use : Use) {act : Run Unit}
    (hmeaning : use.meaning = do act; Script.answerOnly .nothing) : w.Acts context act := by
  intro v h
  cases hr : act v with
  | ok u v' =>
    have hv : use.meaning v = .ok (.nothing, none) v' := by
      rw [hmeaning, bind_of_ok hr]
      rfl
    exact h.ok use hv none
  | error e v' =>
    cases e with
    | nonsense | overflow => exact fun _ => nofun
    | fault f =>
      have hv : use.meaning v = .error (.fault f) v' := by
        rw [hmeaning, bind_of_error hr]
      exact fun _ _ => h.fault use hv

theorem acts_note (e : Script.Entry) : w.Acts context (note e) :=
  fun _ h => h.congr rfl rfl

/-- A clause runs its condition, opens a region, runs its body and closes the region. -/
theorem acts_clause (depth : UInt32) (pred : String) {cond body : Run Unit}
    (hcond : w.Acts context cond) (hbody : w.Acts context body) :
    w.Acts context (Draft.Chain.clause depth (do cond; boolean pred) body) := by
  let opening : Run Unit := do
    Draft.emit (.whenBegin (← Draft.operand (← boolean pred)) depth)
  have hopening : w.Acts context opening :=
    acts_use (.whenBegin pred depth) (by simp only [Use.meaning, opening, bind_assoc])
  have hparts : Draft.Chain.clause depth (do cond; boolean pred) body = (do
      cond
      opening
      body
      Draft.emit (.whenEnd depth)) := by
    simp only [Draft.Chain.clause, opening, bind_assoc]
  rw [hparts]
  exact .bind hcond fun _ => .bind hopening fun _ => .bind hbody fun _ =>
    acts_use (.whenEnd depth) rfl

theorem acts_start (pred : String) {cond body : Run Unit} (hcond : w.Acts context cond)
    (hbody : w.Acts context body) :
    w.Acts context (Draft.Chain.start (do cond; boolean pred) body) :=
  .bind (acts_clause 0 pred hcond hbody) fun _ => .ret fun _ => id

theorem acts_elseWhen (c : Draft.Chain) (pred : String) {cond body : Run Unit}
    (hcond : w.Acts context cond) (hbody : w.Acts context body) :
    w.Acts context (c.elseWhen (do cond; boolean pred) body) :=
  .bind (acts_use (.altBegin c.depth) rfl) fun _ =>
    .bind (acts_clause c.depth pred hcond hbody) fun _ => .ret fun _ => id

theorem acts_otherwise (c : Draft.Chain) {body : Run Unit} (hbody : w.Acts context body) :
    w.Acts context (c.otherwise body) :=
  .bind (acts_use (.altBegin c.depth) rfl) fun _ => .bind hbody fun _ =>
    acts_use (.otherwiseEnd c.depth) rfl

theorem acts_close (c : Draft.Chain) : w.Acts context (liftBuild c.close) := by
  unfold Draft.Chain.close
  by_cases h : 1 < c.depth
  · rw [if_pos h]
    exact acts_use (.otherwiseEnd (c.depth - 1)) rfl
  · rw [if_neg h]
    exact fun _ => id

/-! ## Whole scripts -/

mutual

theorem acts_run : ∀ s : Script, w.Acts context s.run
  | .done => .ret fun _ => id
  | .call step use rest => .bind (acts_call step use) fun _ => acts_run rest
  | .chain step cond pred body tail rest => by
    refine .bind (acts_perform step ?_) fun _ => acts_run rest
    refine .bind (acts_start pred (acts_run cond) (acts_run body)) fun c => ?_
    refine .bind (acts_note _) fun _ => .bind (acts_runTail c tail) fun _ => ?_
    exact .ret fun v h => (keep_none v step.bindAs).symm ▸ h
  | .branch next => .look_bind fun v => (acts_run (next v)).strengthen fun _ h => h.2

theorem acts_runTail : ∀ (c : Draft.Chain) (t : Tail), w.Acts context (runTail c t)
  | c, .close => acts_close c
  | c, .elseWhen cond pred body tail => by
    refine .bind (acts_elseWhen c pred (acts_run cond) (acts_run body)) fun c' => ?_
    exact .bind (acts_note _) fun _ => acts_runTail c' tail
  | c, .otherwise body => acts_otherwise c (acts_run body)
  | c, .branch next => .look_bind fun v => (acts_runTail c (next v)).strengthen fun _ h => h.2

end

/-- **Whatever scripts do, acts can do.** -/
theorem run_script (s : Script) {d : Draft} (hd : w.drafts[context]? = some d)
    (log : List Script.Entry) : Triple (· = w.world d log) s.run
      (fun _ v => ∃ acts, w.run acts = w.put context v)
      (fun e v => ∀ f, e = .fault f → ∃ acts, w.run acts = w.put context v) := by
  have hstart : w.Reaches context (w.world d log) :=
    ⟨(List.getElem?_eq_some_iff.1 hd).1, [], (put_world hd log).symm⟩
  refine (acts_run s).conseq ?_ (fun _ _ h => h.acts) (fun _ _ h f hf => (h f hf).acts)
  rintro _ rfl
  exact hstart

end Circuitry.Workshop
