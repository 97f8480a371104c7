/-
  What the calls of a run report.

  `CallAt.reports` says what one call has reported: all its problems if it has gone through; the first of
  them, up to the limit, if it has failed at the limit; and nothing if it has been refused.  It does not
  look at the sink.  An action of a run tells what is reported (`Traced.Tells`) if, from any world with
  room below the limit,

  1. what has come into the sink when it ends is what its calls report, in their order;
  2. when it goes through, all its calls have gone through, and there is still room (`Went`);
  3. when it stops with a fault, it has been refused something while there was room, or its last call
     has made the report that reaches the limit, and all calls before have gone through (`Stopped`).

  One call does so (`tells_call`), and putting actions together keeps it (`Tells.bind`).  So a whole
  script does, with every clause of its chains, if it passes over no failure and leaves the reports
  alone (`Propagates`, `tells_traced`).
-/
import Circuitry.Proofs.Draft.Limit
import Circuitry.Proofs.Script.AllOrNothing
import Circuitry.Proofs.Script.Record

namespace Circuitry.Script

open Draft (Build Fault Session)

variable {α β : Type} {w : World}

/-! ## What calls report -/

namespace CallAt

/-- The call goes through. -/
def Passes (c : CallAt) : Prop := ∃ r w', meaning c.use c.world = .ok r w'

/-- The call fails. -/
def Fails (c : CallAt) (f : Fault) : Prop := ∃ w', meaning c.use c.world = .error (.fault f) w'

/-- What the call reports. -/
def reports (c : CallAt) : List Fault :=
  let problems := c.use.problems c.world
  match meaning c.use c.world with
  | .ok _ _ => problems
  | .error (.fault (.errorLimitReached _)) _ => c.world.session.draft.admitted problems
  | .error _ _ => []

theorem reports_of_ok {use : Call} {r : Answer × Option Draft.Bundle} {w' : World}
    (h : meaning use w = .ok r w') : reports ⟨w, use⟩ = use.problems w := by
  unfold reports
  rw [h]

theorem reports_of_refused {use : Call} {f : Fault} {w' : World} (hf : f.Refuses)
    (h : meaning use w = .error (.fault f) w') : reports ⟨w, use⟩ = [] := by
  unfold reports
  rw [h]
  cases f with
  | errorLimitReached limit => exact absurd rfl (hf.2 limit)
  | _ => rfl

theorem reports_of_exhausted {use : Call} {limit : Nat} {w' : World}
    (h : meaning use w = .error (.fault (.errorLimitReached limit)) w') :
    reports ⟨w, use⟩ = w.session.draft.admitted (use.problems w) := by
  unfold reports
  rw [h]

end CallAt

/-- What calls report, one after the other. -/
def reports (calls : List CallAt) : List Fault := calls.flatMap (·.reports)

@[simp] theorem reports_append (cs ds : List CallAt) :
    reports (cs ++ ds) = reports cs ++ reports ds :=
  List.flatMap_append

@[simp] theorem reports_singleton (c : CallAt) : reports [c] = c.reports :=
  List.flatMap_singleton ..

/-- Whatever a call has to report is made up for. -/
theorem Call.accumulates_problems (use : Call) (w : World) :
    ∀ f ∈ use.problems w, f.accumulates = true := by
  have hall := @getD_map_problems (∀ f ∈ ·, f.accumulates = true) (List.forall_mem_nil _)
  cases use with
  | literalUInt n width => exact Draft.accumulates_uintProblems n width
  | literalSInt i width => exact Draft.accumulates_sintProblems i width
  | literalText text => exact Draft.accumulates_textProblems text
  | binary op a b =>
    refine hall (fun s => ?_) _
    cases op with
    | shiftLeftBy => exact Draft.accumulates_shiftProblems _ s
    | _ => exact List.forall_mem_nil _
  | extract a hi lo => exact hall (Draft.accumulates_rangeProblems · hi lo) _
  | bit a index => exact hall (Draft.accumulates_bitProblems · index) _
  | _ => exact List.forall_mem_nil _

theorem CallAt.accumulates_reports (c : CallAt) : ∀ f ∈ c.reports, f.accumulates = true := by
  intro f hf
  refine c.use.accumulates_problems c.world f ?_
  unfold reports at hf
  split at hf
  · exact hf
  · exact List.mem_of_mem_take hf
  · cases hf

theorem accumulates_reports (calls : List CallAt) : ∀ f ∈ reports calls, f.accumulates = true := by
  intro f hf
  obtain ⟨c, -, hc⟩ := List.mem_flatMap.1 hf
  exact c.accumulates_reports f hc

/-! ## How runs end -/

section Endings

variable {d d₁ d₂ : Draft}

/-- The calls have all gone through, their reports are the only ones, and there is room for more. -/
structure Went (calls : List CallAt) (d d' : Draft) : Prop where
  passed : ∀ c ∈ calls, c.Passes
  reported : d.Reported (reports calls) d'
  room : d'.HasRoom

/-- Why a run with these calls stops. -/
inductive Halts (f : Fault) (d' : Draft) : List CallAt → Prop
  /-- It is refused something while there is room for more reports. -/
  | refused {calls : List CallAt} (refuses : f.Refuses) (room : d'.HasRoom) : Halts f d' calls
  /-- The last call has made the report that reaches the limit. -/
  | exhausted {before : List CallAt} {last : CallAt} (passed : ∀ c ∈ before, c.Passes)
      (fails : last.Fails f) (some : last.reports ≠ [])
      (fault : f = .errorLimitReached d'.settings.errorLimit) (limited : 0 < d'.settings.errorLimit)
      (reached : d'.sink.errorCount = d'.settings.errorLimit) : Halts f d' (before ++ [last])

/-- The reports of the calls are the only ones, and the run has stopped. -/
structure Stopped (calls : List CallAt) (f : Fault) (d d' : Draft) : Prop where
  reported : d.Reported (reports calls) d'
  halts : Halts f d' calls

theorem Went.trans {cs ds : List CallAt} (h : Went cs d d₁) (h' : Went ds d₁ d₂) :
    Went (cs ++ ds) d d₂ where
  passed := List.forall_mem_append.2 ⟨h.passed, h'.passed⟩
  reported := by
    rw [reports_append]
    exact h.reported.trans h'.reported
  room := h'.room

theorem Went.stopped {cs ds : List CallAt} {f : Fault} (h : Went cs d d₁)
    (h' : Stopped ds f d₁ d₂) : Stopped (cs ++ ds) f d d₂ where
  reported := by
    rw [reports_append]
    exact h.reported.trans h'.reported
  halts := by
    cases h'.halts with
    | refused refuses room => exact .refused refuses room
    | exhausted passed fails some fault limited reached =>
      rw [← List.append_assoc]
      have hpassed := List.forall_mem_append.2 ⟨h.passed, passed⟩
      exact .exhausted hpassed fails some fault limited reached

end Endings

/-! ## Actions that tell what is reported -/

/-- What has been reported when the action ends is what its calls report. -/
def Traced.Tells (x : Traced α) : Prop := ∀ w : World, w.session.draft.HasRoom →
  Triple (· = w) x.act
    (fun _ w' => Went (x.calls w) w.session.draft w'.session.draft)
    (fun e w' => ∀ f, e = .fault f → Stopped (x.calls w) f w.session.draft w'.session.draft)

/-- The action reports nothing, and is refused if it fails. -/
def Quiet (act : Run α) : Prop := ∀ w : World,
  Triple (· = w) act (fun _ w' => w.session.draft.Reported [] w'.session.draft)
    (fun e w' => ∀ f, e = .fault f →
      f.Refuses ∧ w.session.draft.Reported [] w'.session.draft)

theorem Quiet.tells {act : Run α} (h : Quiet act) : (liftM act : Traced α).Tells := by
  intro w hroom
  refine Triple.conseq (h w) (fun _ => id) (fun a w' hw => ?_) fun e w' hfail f hf => ?_
  · exact ⟨List.forall_mem_nil _, hw, hroom.of_eq hw.settings hw.sink⟩
  · obtain ⟨hrefuses, hw⟩ := hfail f hf
    exact ⟨hw, .refused hrefuses (hroom.of_eq hw.settings hw.sink)⟩

theorem Traced.Tells.bind {x : Traced α} {f : α → Traced β} (hx : x.Tells)
    (hf : ∀ a, (f a).Tells) : (x >>= f).Tells := by
  rintro _ hroom w rfl
  have hfirst := hx w hroom w rfl
  have hbind : (x >>= f).act = x.act >>= fun a => (f a).act := rfl
  rw [hbind]
  cases hr : x.act w with
  | ok a w₁ =>
    rw [hr] at hfirst
    have hsecond := hf a w₁ hfirst.room w₁ rfl
    rw [bind_of_ok hr, Traced.calls_bind_of_ok hr]
    cases hr' : (f a).act w₁ with
    | ok b w₂ =>
      rw [hr'] at hsecond
      exact hfirst.trans hsecond
    | error e w₂ =>
      rw [hr'] at hsecond
      exact fun fault hfault => hfirst.stopped (hsecond fault hfault)
  | error e w₁ =>
    rw [hr] at hfirst
    rw [bind_of_error hr, Traced.calls_bind_of_error hr]
    exact hfirst

/-! ## One call -/

theorem settings_of_meaning {use : Call} {r : Answer × Option Draft.Bundle} {w' : World}
    (h : meaning use w = .ok r w') :
    w'.session.draft.settings = w.session.draft.settings :=
  (makes_meaning (Session.closed_settings _).stable use).of_ok rfl h

/-- **One call.**  A call that goes through has reported all its problems, and there is room for
    more; a call that fails has been refused, or its last report has reached the limit. -/
theorem meaning_counts {use : Call} (hdrain : use ≠ .drain) (hroom : w.session.draft.HasRoom) :
    Triple (· = w) (meaning use)
      (fun _ w' => Went [⟨w, use⟩] w.session.draft w'.session.draft)
      (fun e w' => ∀ f, e = .fault f →
        Stopped [⟨w, use⟩] f w.session.draft w'.session.draft) := by
  rintro w rfl
  cases hrun : meaning use w with
  | ok r w' =>
    obtain ⟨β, op, next, a, s, hop, hoperation, -⟩ := operation_of_ok hrun
    have hmetered : Draft.Metered (use.problems w) (w.session.upTo next) op :=
      (hop.reporting (s := w.session.upTo next) hdrain rfl).metered hroom
    have hleft := Triple.of_ok hmetered rfl hoperation
    have hreported : w.session.draft.Reported (use.problems w) w'.session.draft :=
      ⟨reported_of_meaning hdrain hrun, settings_of_meaning hrun⟩
    refine ⟨?_, ?_, hleft.of_eq hreported.settings hreported.sink⟩
    · exact List.forall_mem_singleton.2 ⟨r, w', hrun⟩
    · rw [reports_singleton, CallAt.reports_of_ok hrun]
      exact hreported
  | error e w' =>
    rintro f rfl
    obtain ⟨β, op, next, s, hop, hoperation, rfl⟩ := operation_of_error hrun
    have hmetered : Draft.Metered (use.problems w) (w.session.upTo next) op :=
      (hop.reporting (s := w.session.upTo next) hdrain rfl).metered hroom
    obtain ⟨hrefuses, rfl⟩ | ⟨limited, enough⟩ := Triple.of_error hmetered rfl hoperation
    · refine ⟨?_, .refused hrefuses hroom⟩
      rw [reports_singleton, CallAt.reports_of_refused hrefuses hrun]
      exact ⟨rfl, rfl⟩
    · have hreports := CallAt.reports_of_exhausted hrun
      have hcount := Draft.errorCount_admitted hroom limited enough
      have hsome : CallAt.reports ⟨w, use⟩ ≠ [] := by
        rw [hreports]
        intro hnone
        rw [hnone] at hcount
        exact absurd hcount (Nat.ne_of_lt (hroom limited))
      refine ⟨?_, ?_⟩
      · rw [reports_singleton, hreports]
        exact ⟨rfl, rfl⟩
      · -- no call comes before this one
        rw [← List.nil_append [CallAt.mk w use]]
        exact .exhausted (List.forall_mem_nil _) ⟨_, hrun⟩ hsome rfl limited
          ((Draft.errorCount_withReports ..).trans hcount)

theorem tells_call {use : Call} (hdrain : use ≠ .drain) : (Traced.call use).Tells :=
  fun _ hroom => meaning_counts hdrain hroom

/-! ## Steps and chains -/

theorem quiet_lift {act : Build α} (h : ∀ s : Session, Triple (· = s) act
      (fun _ s' => s'.draft.sink = s.draft.sink ∧ s'.draft.settings = s.draft.settings)
      (fun f s' => f.Refuses ∧ s' = s)) : Quiet (liftBuild act) := by
  rintro _ w rfl
  have hact := h w.session w.session rfl
  unfold liftBuild
  cases hr : act w.session with
  | ok a s =>
    rw [hr] at hact
    exact ⟨hact.1, hact.2⟩
  | error f s =>
    rw [hr] at hact
    obtain ⟨hrefuses, rfl⟩ := hact
    rintro _ ⟨⟩
    exact ⟨hrefuses, rfl, rfl⟩

theorem quiet_operand (s : Signal) : Quiet (liftBuild (Draft.operand s)) :=
  quiet_lift fun w => (Draft.looks_operand s w).weaken fun _ _ hw => hw ▸ ⟨rfl, rfl⟩

theorem quiet_emit (cmd : Command) : Quiet (liftBuild (Draft.emit cmd)) :=
  quiet_lift fun _ _ hw => hw ▸ ⟨rfl, rfl⟩

theorem quiet_pure (a : α) : Quiet (pure a) := fun _ _ hw => hw ▸ ⟨rfl, rfl⟩

theorem quiet_close (c : Draft.Chain) : Quiet (liftBuild c.close) := by
  unfold Draft.Chain.close
  split
  · exact quiet_emit _
  · exact quiet_lift fun _ _ hw => hw ▸ ⟨rfl, rfl⟩

theorem quiet_boolean (name : String) : Quiet (boolean name) := fun _ =>
  Triple.conseq (boolean_looksUp name) (fun _ => id) (fun _ _ hw => hw.2 ▸ ⟨rfl, rfl⟩)
    fun _ _ he _ hf => nomatch he.symm.trans hf

theorem quiet_get : Quiet (get : Run World) := fun _ _ hw => hw ▸ ⟨rfl, rfl⟩

theorem quiet_note (e : Entry) : Quiet (note e) := fun _ _ hw => hw ▸ ⟨rfl, rfl⟩

theorem tells_perform {step : Step} (hstep : step.attempt = false)
    {x : Traced (Answer × Option Draft.Bundle)} (hx : x.Tells) : (Traced.perform step x).Tells := by
  rintro _ hroom w rfl
  have hact := hx w hroom w rfl
  have hperform : (Traced.perform step x).act w = step.perform x.act w := rfl
  rw [hperform, Step.perform]
  cases hr : x.act w with
  | ok r w' =>
    rw [hr] at hact
    show Went (x.calls w) w.session.draft (w'.keep step.bindAs r.2).session.draft
    rw [session_keep]
    exact hact
  | error e w' =>
    rw [hr] at hact
    cases e with
    | nonsense | overflow => exact fun _ => nofun
    | fault f =>
      simp only [hstep]
      exact hact

section Chains

variable {cond : Traced Signal} {body : Traced Unit}

theorem tells_clause (depth : UInt32) (hcond : cond.Tells) (hbody : body.Tells) :
    (Draft.Chain.clause depth cond body).Tells :=
  hcond.bind fun s => (quiet_operand s).tells.bind fun _ => (quiet_emit _).tells.bind fun _ =>
    hbody.bind fun _ => (quiet_emit _).tells

theorem tells_start (hcond : cond.Tells) (hbody : body.Tells) :
    (Draft.Chain.start cond body).Tells :=
  (tells_clause 0 hcond hbody).bind fun _ => (quiet_pure _).tells

theorem tells_elseWhen (c : Draft.Chain) (hcond : cond.Tells) (hbody : body.Tells) :
    (c.elseWhen cond body).Tells :=
  (quiet_emit _).tells.bind fun _ => (tells_clause c.depth hcond hbody).bind fun _ =>
    (quiet_pure _).tells

theorem tells_otherwise (c : Draft.Chain) (hbody : body.Tells) : (c.otherwise body).Tells :=
  (quiet_emit _).tells.bind fun _ => hbody.bind fun _ => (quiet_emit _).tells

/-- A condition is a script and the variable that holds its value. -/
theorem tells_condition {script : Traced Unit} (h : script.Tells) (pred : String) :
    (do script; boolean pred : Traced Signal).Tells :=
  h.bind fun _ => (quiet_boolean pred).tells

end Chains

/-! ## Descriptions that propagate -/

mutual

/-- No failure is passed over and the sink is never drained, whichever way the script goes on. -/
def Propagates : Script → Prop
  | .done => True
  | .call step use rest => step.attempt = false ∧ use ≠ .drain ∧ rest.Propagates
  | .chain step cond _ body tail rest =>
    step.attempt = false ∧ cond.Propagates ∧ body.Propagates ∧ tail.Propagates ∧ rest.Propagates
  | .branch next => ∀ w, (next w).Propagates

/-- The same for what follows a clause. -/
def Tail.Propagates : Tail → Prop
  | .close => True
  | .elseWhen cond _ body tail => cond.Propagates ∧ body.Propagates ∧ tail.Propagates
  | .otherwise body => body.Propagates
  | .branch next => ∀ w, (next w).Propagates

end

mutual

/-- **Runs tell what is reported.** -/
theorem tells_traced : ∀ s : Script, s.Propagates → s.traced.Tells
  | .done, _ => (quiet_pure ()).tells
  | .call step use rest, ⟨hstep, hdrain, hrest⟩ =>
    (tells_perform hstep (tells_call hdrain)).bind fun _ => tells_traced rest hrest
  | .chain step cond pred body tail rest, ⟨hstep, hcond, hbody, htail, hrest⟩ => by
    have hstart := tells_start (tells_condition (tells_traced cond hcond) pred)
      (tells_traced body hbody)
    refine Traced.Tells.bind (tells_perform hstep ?_) fun _ => tells_traced rest hrest
    exact hstart.bind fun c => (quiet_note _).tells.bind fun _ =>
      (tells_tracedTail c tail htail).bind fun _ => (quiet_pure _).tells
  | .branch next, h => quiet_get.tells.bind fun w => tells_traced (next w) (h w)

theorem tells_tracedTail (c : Draft.Chain) : ∀ t : Tail, t.Propagates → (tracedTail c t).Tells
  | .close, _ => (quiet_close c).tells
  | .elseWhen cond pred body tail, ⟨hcond, hbody, htail⟩ => by
    have helse := tells_elseWhen c (tells_condition (tells_traced cond hcond) pred)
      (tells_traced body hbody)
    exact helse.bind fun c => (quiet_note _).tells.bind fun _ => tells_tracedTail c tail htail
  | .otherwise body, h => tells_otherwise c (tells_traced body h)
  | .branch next, h => quiet_get.tells.bind fun w => tells_tracedTail c (next w) (h w)

end

end Circuitry.Script
