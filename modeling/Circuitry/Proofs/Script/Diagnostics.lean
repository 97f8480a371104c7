/-
  Diagnostics are complete, in order, and capped.

  What comes out of a description that propagates can be read off the calls that its run has made and the
  way it has ended (`Outcome.Diagnoses`): whether there is a circuit, what is listed if there is none, and
  whether the limit is listed.  The calls say what has been reported (`Circuitry.Proofs.Script.Reports`);
  here the two ways in which a description ends are put on top.

  1. `finish` ends a run that has gone through.  All its chains have, so its stream can be read, and it
     fails exactly for what has been reported (`Went.diagnoses`);
  2. `abort` ends a run that has stopped, and adds the fault that nothing has passed over
     (`Stopped.diagnoses`).
-/
import Circuitry.Proofs.Nesting.Written
import Circuitry.Proofs.Script.Reports

namespace Circuitry.Script

open Draft (Fault)

variable {w : World}

/-! ## What comes out -/

/-- The fault that has ended a run, if one has. -/
def Ending.fault? : Ending → Option Fault
  | .error (.fault f) _ => some f
  | _ => none

/-- The calls of a run that the limit has ended: all but the last go through and stay below it, and
    the last one fails. -/
def EndsAtLimit (limit : Nat) (calls : List CallAt) : Prop :=
  ∃ before c, calls = before ++ [c] ∧ (∀ b ∈ before, b.Passes) ∧
    (reports before).length < limit ∧ c.Fails (.errorLimitReached limit)

/-- What an outcome shows of the errors of a run that has made these calls and has ended so. -/
structure Outcome.Diagnoses (o : Outcome) (limit : Nat) (calls : List CallAt) (r : Ending) :
    Prop where
  /-- There is a circuit exactly if the run has gone through and nothing has been reported. -/
  circuit_iff : (∃ c, o.result = .ok c) ↔ (∃ w, r = .ok () w) ∧ reports calls = []
  /-- Otherwise everything reported is listed in the order of the calls, and after it the fault that
      has ended the run. -/
  listed : ∀ failure, o.result = .error failure →
    failure.diagnostics = (reports calls ++ r.fault?.toList).map Fault.toDiagnostic
  /-- All that is listed before that fault has been made up for. -/
  accumulate : ∀ f ∈ reports calls, f.accumulates = true
  /-- No more errors are reported than the limit, if there is one. -/
  within : 0 < limit → (reports calls).length ≤ limit
  /-- The limit is listed exactly if there is one and as many errors have been reported. -/
  limit_iff : (∃ failure, o.result = .error failure ∧ failure.hasCode ⟨311⟩ = true) ↔
    0 < limit ∧ (reports calls).length = limit
  /-- Then it has ended the run, at the very call whose report has reached it. -/
  last : 0 < limit → (reports calls).length = limit →
    r.fault? = some (.errorLimitReached limit) ∧ EndsAtLimit limit calls

theorem exists_limit_of_code {f : Fault} (h : f.code = ⟨311⟩) :
    ∃ limit, f = .errorLimitReached limit := by
  cases f with
  | errorLimitReached limit => exact ⟨limit, rfl⟩
  | _ => exact nomatch h

theorem hasCode_map_iff (fs : List Fault) (code : Code) :
    Draft.Failure.hasCode ⟨fs.map Fault.toDiagnostic⟩ code = true ↔ ∃ f ∈ fs, f.code = code := by
  simp [Draft.Failure.hasCode, code_toDiagnostic]

section Ends

variable {calls : List CallAt} {context : Nat} {name : String} {settings : Settings.Elaboration}

/-- A draft whose stream can be read comes to nothing exactly if something has been reported, and then
    all of it is listed. -/
theorem finish_of_reported {fs : List Fault} {d : Draft} {b : Block}
    (h : (Draft.empty context name settings).Reported fs d)
    (hblock : Block.ofCommands d.commands = .ok b) :
    d.finish = if fs = [] then .ok d.circuit else .error ⟨fs.map Fault.toDiagnostic⟩ := by
  have hheld : d.sink.held = fs.map Fault.toDiagnostic := h.held
  have hcount : d.sink.errorCount = 0 + fs.length := h.errorCount
  unfold Draft.finish Draft.finalSink
  simp only [hblock, Sink.hasErrors, hheld, hcount]
  cases fs with
  | nil => rfl
  | cons f rest => rfl

/-- Room in the draft is room for more reports of the calls. -/
theorem below_limit {d : Draft} (h : (Draft.empty context name settings).Reported (reports calls) d)
    (hroom : d.HasRoom) (limited : 0 < settings.errorLimit) :
    (reports calls).length < settings.errorLimit := by
  have hcount : d.sink.errorCount = 0 + (reports calls).length := h.errorCount
  unfold Draft.HasRoom at hroom
  rw [hcount, h.settings, Nat.zero_add] at hroom
  exact hroom limited

/-- A run is stopped below the limit, or by the limit at the last of its calls. -/
theorem Stopped.refused_or_atLimit {f : Fault} {d : Draft}
    (h : Stopped calls f (.empty context name settings) d) :
    ((∀ limit, f ≠ .errorLimitReached limit) ∧
        (0 < settings.errorLimit → (reports calls).length < settings.errorLimit)) ∨
      (f = .errorLimitReached settings.errorLimit ∧ 0 < settings.errorLimit ∧
        (reports calls).length = settings.errorLimit ∧ EndsAtLimit settings.errorLimit calls) := by
  have hcount : d.sink.errorCount = 0 + (reports calls).length := h.reported.errorCount
  have hlimit : d.settings.errorLimit = settings.errorLimit := by rw [h.reported.settings]; rfl
  cases h.halts with
  | refused refuses room => exact .inl ⟨refuses.2, below_limit h.reported room⟩
  | @exhausted before last passed fails some fault limited reached =>
    rw [hlimit] at fault limited reached
    have hfull : (reports (before ++ [last])).length = settings.errorLimit := by omega
    have hbefore : (reports before).length < settings.errorLimit := by
      have hlast := List.length_pos_of_ne_nil some
      rw [reports_append, List.length_append, reports_singleton] at hfull
      omega
    exact .inr ⟨fault, limited, hfull, before, last, rfl, passed, hbefore, fault ▸ fails⟩

/-- The outcome of a run that has not been ended by the limit. -/
theorem Outcome.Diagnoses.below {o : Outcome} {limit : Nat} {r : Ending}
    (circuit_iff : (∃ c, o.result = .ok c) ↔ (∃ w, r = .ok () w) ∧ reports calls = [])
    (listed : ∀ failure, o.result = .error failure →
      failure.diagnostics = (reports calls ++ r.fault?.toList).map Fault.toDiagnostic)
    (fault : ∀ f ∈ r.fault?.toList, ∀ limit, f ≠ .errorLimitReached limit)
    (room : 0 < limit → (reports calls).length < limit) : o.Diagnoses limit calls r := by
  have hnever : ¬ (0 < limit ∧ (reports calls).length = limit) := fun hfull =>
    Nat.ne_of_lt (room hfull.1) hfull.2
  refine ⟨circuit_iff, listed, accumulates_reports calls, fun limited => Nat.le_of_lt (room limited),
    ⟨?_, fun hfull => absurd hfull hnever⟩, fun limited hfull => absurd ⟨limited, hfull⟩ hnever⟩
  rintro ⟨⟨ds⟩, hfailure, hcode⟩
  obtain rfl : ds = _ := listed _ hfailure
  obtain ⟨f, hf, hcode⟩ := (hasCode_map_iff _ _).1 hcode
  obtain ⟨n, rfl⟩ := exists_limit_of_code hcode
  rcases List.mem_append.1 hf with hf | hf
  · exact nomatch accumulates_reports calls _ hf
  · exact absurd rfl (fault _ hf n)

theorem Went.diagnoses (h : Went calls (.empty context name settings) w.session.draft) {b : Block}
    (hblock : Block.ofCommands w.session.draft.commands = .ok b) :
    (w.outcome w.session.draft.finish).Diagnoses settings.errorLimit calls (.ok () w) := by
  have hresult : (w.outcome w.session.draft.finish).result =
      if reports calls = [] then .ok w.session.draft.circuit
      else .error ⟨(reports calls).map Fault.toDiagnostic⟩ :=
    finish_of_reported h.reported hblock
  refine .below ?_ ?_ (List.forall_mem_nil _) (below_limit h.reported h.room)
  · rw [hresult]
    by_cases hnone : reports calls = []
    · simp [hnone]
    · simp [hnone]
  · intro failure hfailure
    rw [hresult] at hfailure
    split at hfailure
    · cases hfailure
    · rw [← Except.error.inj hfailure]
      exact congrArg (List.map Fault.toDiagnostic) (List.append_nil _).symm

theorem Stopped.diagnoses {f : Fault}
    (h : Stopped calls f (.empty context name settings) w.session.draft) :
    (w.outcome (.error (w.session.draft.abort f))).Diagnoses settings.errorLimit calls
      (.error (.fault f) w) := by
  have hresult : w.session.draft.abort f = ⟨(reports calls ++ [f]).map Fault.toDiagnostic⟩ := by
    have hheld : w.session.draft.sink.held = (reports calls).map Fault.toDiagnostic :=
      h.reported.held
    rw [Draft.abort, Sink.held_emit, hheld, List.map_append, List.map_singleton]
  have hlisted : ∀ failure, (w.outcome (.error (w.session.draft.abort f))).result =
      .error failure → failure.diagnostics = (reports calls ++ [f]).map Fault.toDiagnostic := by
    rintro _ ⟨⟩
    rw [hresult]
  obtain ⟨hf, hbelow⟩ | ⟨rfl, limited, hfull, hends⟩ := h.refused_or_atLimit
  · exact .below ⟨nofun, nofun⟩ hlisted (List.forall_mem_singleton.2 hf) hbelow
  · -- the limit itself is what has been listed last
    refine ⟨⟨nofun, nofun⟩, hlisted, accumulates_reports calls, fun _ => Nat.le_of_eq hfull,
      ⟨fun _ => ⟨limited, hfull⟩, fun _ => ⟨_, rfl, ?_⟩⟩, fun _ _ => ⟨rfl, hends⟩⟩
    rw [hresult]
    exact (hasCode_map_iff _ _).2 ⟨_, List.mem_append_right _ (List.mem_singleton_self _), rfl⟩

end Ends

mutual

theorem unattempted_of_propagates : ∀ s : Script, s.Propagates → s.Unattempted
  | .done, _ => trivial
  | .call _ _ rest, ⟨_, _, hrest⟩ => unattempted_of_propagates rest hrest
  | .chain _ cond _ body tail rest, ⟨hstep, hcond, hbody, htail, hrest⟩ =>
    ⟨hstep, unattempted_of_propagates cond hcond, unattempted_of_propagates body hbody,
      tailUnattempted_of_propagates tail htail, unattempted_of_propagates rest hrest⟩
  | .branch next, h => fun w => unattempted_of_propagates (next w) (h w)

theorem tailUnattempted_of_propagates : ∀ t : Tail, t.Propagates → t.Unattempted
  | .close, _ => trivial
  | .elseWhen cond _ body tail, ⟨hcond, hbody, htail⟩ =>
    ⟨unattempted_of_propagates cond hcond, unattempted_of_propagates body hbody,
      tailUnattempted_of_propagates tail htail⟩
  | .otherwise body, h => unattempted_of_propagates body h
  | .branch next, h => fun w => tailUnattempted_of_propagates (next w) (h w)

end

/-- **Diagnostics are complete, in order, and capped.**  A description that propagates, and has fewer
    clauses in each of its chains than there are depths, shows all its errors, whatever the limit. -/
theorem diagnostics_complete {s : Script} {m m' : Memory} {name : String}
    {settings : Settings.Elaboration} {o : Outcome} (hs : s.Propagates)
    (hchains : ∀ l r, Lays s (m.world name settings) l r → l.Counted)
    (h : s.describe? m name settings = some (o, m')) :
    o.Diagnoses settings.errorLimit (s.calls (m.world name settings))
      (s.run (m.world name settings)) := by
  have htells := tells_traced s hs (m.world name settings) (Draft.hasRoom_empty _ _ _) _ rfl
  rw [act_traced] at htells
  unfold describe? at h
  cases hrun : s.run (m.world name settings) with
  | ok u w =>
    rw [hrun] at h htells
    obtain ⟨rfl, rfl⟩ := Prod.mk.inj (Option.some.inj h)
    obtain ⟨l, hl⟩ := exists_lays s (unattempted_of_propagates s hs) hrun
    have hcommands : w.session.draft.commands = [] ++ l.commands := hl.commands_eq
    have hblock : Block.ofCommands w.session.draft.commands = .ok (l.block 0) := by
      rw [hcommands]
      exact Block.ofCommands_commands l (hchains l _ hl)
    exact Went.diagnoses htells hblock
  | error e w =>
    rw [hrun] at h htells
    cases e with
    | nonsense | overflow => cases h
    | fault f =>
      obtain ⟨rfl, rfl⟩ := Prod.mk.inj (Option.some.inj h)
      exact Stopped.diagnoses (htells f rfl)

/-! ## A literal with one problem too many -/

/-- A run of fewer than `2 ^ 32` commands has no chain with too many clauses. -/
theorem counted_of_run {s : Script} {w : World} (hstart : w.commands = [])
    (hsize : (Ending.world (s.run w)).commands.length < 2 ^ 32) :
    ∀ l r, Lays s w l r → l.Counted := by
  intro l r h
  refine l.counted_of_length ?_
  have hcommands := h.commands_eq
  rw [hstart, List.nil_append] at hcommands
  rwa [h.run_eq, hcommands] at hsize

/-- A range of bits the wrong way round, and a literal in which neither the radix letter nor the digit
    can be read, inside a chain. -/
def careless : Script :=
  let input (name : String) (kind : Kind) (width : Width) (rest : Script) : Script :=
    .call ⟨"", false, some name⟩ (.declare (.port .input) name (.leaf (.template kind width))) rest
  input "c" .bool .unknown <| input "x" .uint (.known 4) <|
  .chain ⟨"", false, none⟩ .done "c"
    (.call ⟨"", false, none⟩ (.extract "x" 0 3) <| .call ⟨"", false, none⟩ (.literalText "q2") .done)
    .close .done

/-- Two errors are enough. -/
abbrev twice : Settings.Elaboration := { Settings.Elaboration.default with errorLimit := 2 }

/-- The codes that an outcome lists. -/
def Outcome.codes (o : Outcome) : List UInt16 :=
  match o.result with
  | .ok _ => []
  | .error failure => failure.diagnostics.map (·.code.number)

/-- The digit of the literal is not reported any more. -/
theorem careless_diagnosed : ∃ o m', careless.describe? .empty "t" twice = some (o, m') ∧
    o.codes = [302, 306, 311] ∧ o.Diagnoses 2 (careless.calls (Memory.empty.world "t" twice))
      (careless.run (Memory.empty.world "t" twice)) := by
  have hcodes : (careless.describe? .empty "t" twice).map (·.1.codes) = some [302, 306, 311] := by
    decide +kernel
  have hsize : (Ending.world (careless.run (Memory.empty.world "t" twice))).commands.length = 3 := by
    decide +kernel
  obtain ⟨⟨o, m'⟩, hdescribe, hcodes⟩ := Option.map_eq_some_iff.1 hcodes
  have hs : careless.Propagates :=
    ⟨rfl, nofun, rfl, nofun, rfl, trivial, ⟨rfl, nofun, rfl, nofun, trivial⟩, trivial, trivial⟩
  have hchains := counted_of_run (s := careless) (w := Memory.empty.world "t" twice) rfl
    (by rw [hsize]; decide)
  exact ⟨o, m', hdescribe, hcodes, diagnostics_complete hs hchains hdescribe⟩

end Circuitry.Script
