/-
  Calls are all or nothing.

  A call that fails, in whatever state and with whatever arguments, leaves the node table, the ports,
  the commands and every binding as they were.  Reports are all that it may have added: some of the
  call's own problems, and only when the last of them has reached the limit of errors
  (`World.Refused`).  What the problems of a call are can be read off the call and the signals it
  names (`Call.problems`); a call that goes through has reported exactly these.

  A call is one operation of the draft, and operations are all or nothing; the templates that a call
  names are made before it, which binds nothing.
-/
import Circuitry.Proofs.Draft.AllOrNothing
import Circuitry.Proofs.Script.Operations

namespace Circuitry.Script

open Draft (Build Bundle Fault Session)

variable {α : Type} {w : World}

/-! ## Problems of a call -/

/-- The value of a variable that is a ground value. -/
def World.signal? (w : World) (name : String) : Option Signal :=
  match w.values.lookup name with
  | some (.leaf s) => some s
  | _ => none

/-- What an operator has to report about its second operand. -/
def Binary.problems (op : Binary) (limit : UInt32) (b : Signal) : List Fault :=
  match op with
  | .shiftLeftBy => Draft.shiftProblems limit b
  | _ => []

/-- What a call has to report. -/
def Call.problems (w : World) : Call → List Fault
  | .literalUInt n width => Draft.uintProblems n width
  | .literalSInt i width => Draft.sintProblems i width
  | .literalText text => Draft.textProblems text
  | .binary op _ b =>
    ((w.signal? b).map (op.problems w.session.draft.settings.dynamicShiftLimit)).getD []
  | .extract a hi lo => ((w.signal? a).map (Draft.rangeProblems · hi lo)).getD []
  | .bit a index => ((w.signal? a).map (Draft.bitProblems · index)).getD []
  | _ => []

/-- How many problems a call has at most: a spelled literal may have one with its radix letter and one
    with its digits. -/
def Call.mostProblems : Call → Nat
  | .literalText _ => 2
  | _ => 1

theorem Binary.length_problems_le (op : Binary) (limit : UInt32) (b : Signal) :
    (op.problems limit b).length ≤ 1 := by
  cases op with
  | shiftLeftBy => exact Draft.length_shiftProblems_le limit b
  | _ => exact Nat.zero_le 1

/-- The problems with a signal, if there is one. -/
theorem getD_map_problems {P : List Fault → Prop} (hnone : P []) {problems : Signal → List Fault}
    (h : ∀ s, P (problems s)) (s? : Option Signal) : P ((s?.map problems).getD []) := by
  cases s? with
  | none => exact hnone
  | some s => exact h s

theorem Call.length_problems_le (use : Call) (w : World) :
    (use.problems w).length ≤ use.mostProblems := by
  have hone := @getD_map_problems (·.length ≤ 1) (Nat.zero_le 1)
  cases use with
  | literalUInt n width => exact Draft.length_uintProblems_le n width
  | literalSInt i width => exact Draft.length_sintProblems_le i width
  | literalText text => exact Draft.length_textProblems_le text
  | binary op a b => exact hone (op.length_problems_le _) _
  | extract a hi lo => exact hone (Draft.length_rangeProblems_le · hi lo) _
  | bit a index => exact hone (Draft.length_bitProblems_le · index) _
  | _ => exact Nat.zero_le 1

/-- How a call with these problems fails. -/
structure World.Refused (problems : List Fault) (w : World) (f : Fault) (w' : World) : Prop where
  /-- It is never a mistake of the elaborator. -/
  ofUse : f.ofUse
  values : w'.values = w.values
  log : w'.log = w.log
  /-- All signals are what they were. -/
  bindings : w'.session.signals.bindings = w.session.signals.bindings
  /-- The draft is what it was, but for reports, and these are made only if they reach the limit. -/
  draft : ∃ reports, reports <+: problems ∧
    w'.session.draft = w.session.draft.withReports reports ∧
    if reports = [] then ∀ limit, f ≠ .errorLimitReached limit
    else f = .errorLimitReached w.session.draft.settings.errorLimit

/-! ## All calls -/

section Operations

variable {s : Session}

theorem reporting_binary (op : Binary) (a b : Signal) :
    Draft.Reporting (op.problems s.draft.settings.dynamicShiftLimit b) s (op.build a b) := by
  cases op with
  | add | sub => exact .of_allOrNothing (Draft.allOrNothing_wrapping _ a b)
  | lt | leq | gt | geq | eq | neq => exact .of_allOrNothing (Draft.allOrNothing_compare _ a b)
  | shiftLeftBy => exact Draft.reporting_shiftLeftBy a b
  | _ => exact .of_allOrNothing (Draft.allOrNothing_apply _ [a, b] _)

theorem allOrNothing_unary (op : Unary) (a : Signal) :
    Draft.AllOrNothing [] s (op.build a) := by
  cases op with
  | asBool => exact Draft.allOrNothing_asBool a
  | _ => exact Draft.allOrNothing_apply _ [a] _

/-- The operation of every call but the one that drains the sink is refused, or reports the problems of
    the call and goes through, unless a report fails. -/
theorem Call.Operates.reporting {use : Call} {op : Build α} (h : use.Operates w α op)
    (hdrain : use ≠ .drain) (hs : s.draft = w.session.draft) :
    Draft.Reporting (use.problems w) s op := by
  cases h with
  | look h =>
    have hnone : use.problems w = [] := by cases use <;> first | rfl | cases h
    rw [hnone]
    exact .of_allOrNothing (.silent ⟨(), s, rfl, rfl⟩)
  | template kind width => exact .of_allOrNothing (.silent (Draft.silent_create ..))
  | fresh a b => exact .of_allOrNothing (.silent (Draft.silent_fresh b))
  | declare role name shape x => exact .of_allOrNothing (Draft.allOrNothing_declare role name x)
  | declareFields role name shape fs =>
    exact .of_allOrNothing (Draft.allOrNothing_declareFields role name fs)
  | literalUInt n width => exact Draft.reporting_literalUInt n width
  | literalSInt i width => exact Draft.reporting_literalSInt i width
  | literalBool b => exact .of_allOrNothing (.silent (Draft.silent_create ..))
  | literalText text => exact Draft.reporting_literalText text
  | connect _ _ => exact .of_allOrNothing (Draft.allOrNothing_connect _ _)
  | connectFields _ _ => exact .of_allOrNothing (Draft.allOrNothing_connectFields _ _)
  | mux _ _ _ => exact .of_allOrNothing (Draft.allOrNothing_mux _ _ _)
  | muxFields _ _ _ => exact .of_allOrNothing (Draft.allOrNothing_muxFields _ _ _)
  | muxBundle _ _ _ => exact .of_allOrNothing (Draft.allOrNothing_muxBundle _ _ _)
  | binary op hx hy =>
    simp only [problems, World.signal?, hy, Option.map_some, Option.getD_some, ← hs]
    exact reporting_binary op _ _
  | unary op hx => exact .of_allOrNothing (allOrNothing_unary op _)
  | extract hx hi lo =>
    simp only [problems, World.signal?, hx, Option.map_some, Option.getD_some]
    exact Draft.reporting_extract _ hi lo
  | bit hx index =>
    simp only [problems, World.signal?, hx, Option.map_some, Option.getD_some]
    exact Draft.reporting_bit _ index
  | drain => exact absurd rfl hdrain

/-- **All or nothing.**  The operation of every call but the one that drains the sink either goes
    through and has reported the problems of the call, or is refused. -/
theorem Call.Operates.allOrNothing {use : Call} {op : Build α} (h : use.Operates w α op)
    (hdrain : use ≠ .drain) (hs : s.draft = w.session.draft) :
    Draft.AllOrNothing (use.problems w) s op :=
  (h.reporting hdrain hs).allOrNothing

end Operations

/-- A call that goes through has reported its problems, all of them. -/
theorem reported_of_meaning {use : Call} (hdrain : use ≠ .drain) {r : Answer × Option Bundle}
    {w' : World} (h : meaning use w = .ok r w') :
    w'.session.draft.sink = (w.session.draft.withReports (use.problems w)).sink := by
  obtain ⟨α, op, next, a, s, hop, hrun, rfl⟩ := operation_of_ok h
  have hall : Draft.AllOrNothing (use.problems w) (w.session.upTo next) op :=
    hop.allOrNothing hdrain rfl
  exact Triple.of_ok hall rfl hrun

/-- **Failures change nothing.**  A call that fails leaves the nodes, ports and commands of the draft
    and the standing of every signal as they were.  If the limit of errors is reached, some of the
    problems of this call have been reported, and else nothing has; and no call fails for a mistake of
    the elaborator. -/
theorem refused_of_meaning {use : Call} {f : Fault} {w' : World}
    (h : meaning use w = .error (.fault f) w') :
    w.Refused (use.problems w) f w' ∧
      (∀ s, w'.session.signals.standing s = w.session.signals.standing s) ∧
      (use.problems w).length ≤ use.mostProblems := by
  have hdrain : use ≠ .drain := by
    rintro rfl
    cases h
  obtain ⟨α, op, next, s, hop, hrun, rfl⟩ := operation_of_error h
  have hall : Draft.AllOrNothing (use.problems w) (w.session.upTo next) op :=
    hop.allOrNothing hdrain rfl
  have hfail := Triple.of_error hall rfl hrun
  have hrefused : w.Refused (use.problems w) f { w with session := s } := by
    obtain ⟨hrefuses, rfl⟩ | ⟨own, some⟩ := hfail
    · exact ⟨hrefuses.1, rfl, rfl, rfl, [], List.nil_prefix, rfl, hrefuses.2⟩
    · exact ⟨nofun, rfl, rfl, rfl, _, own, rfl, by rw [if_neg some]; rfl⟩
  have hbindings : s.signals.bindings = w.session.signals.bindings := hrefused.bindings
  refine ⟨hrefused, fun r => ?_, use.length_problems_le w⟩
  simp only [Signals.standing, hbindings]

/-! ## Two reports at once -/

/-- A description that ends at the second error. -/
def impatient : World := Memory.empty.world "t" { Settings.Elaboration.default with errorLimit := 2 }

/-- The fault at which an action has ended, with the number of reports held by then. -/
def faultHeld? {α : Type} : EStateM.Result Stop World α → Option (Fault × Nat)
  | .error (.fault f) w => some (f, w.session.draft.sink.held.length)
  | _ => none

/-- Neither the radix letter nor the digit of this literal can be read. -/
theorem unreadable_refused : ∃ w',
    meaning (.literalText "q2") impatient = .error (.fault (.errorLimitReached 2)) w' ∧
      w'.session.draft.sink.held.length = 2 ∧
      impatient.Refused (Call.problems impatient (.literalText "q2")) (.errorLimitReached 2) w' := by
  have hend : faultHeld? (meaning (.literalText "q2") impatient) =
      some (.errorLimitReached 2, 2) := by
    decide +kernel
  cases hrun : meaning (.literalText "q2") impatient with
  | ok r w' =>
    rw [hrun] at hend
    cases hend
  | error e w' =>
    rw [hrun] at hend
    cases e with
    | fault f =>
      obtain ⟨rfl, hheld⟩ := Prod.mk.inj (Option.some.inj hend)
      exact ⟨w', rfl, hheld, (refused_of_meaning hrun).1⟩
    | _ => cases hend

end Circuitry.Script
