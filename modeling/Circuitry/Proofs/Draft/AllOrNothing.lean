/-
  Operations are all or nothing.

  An operation that fails leaves the session as it was, but for reports that have reached the limit of
  errors.  Every operation is written so: first it looks, at its operands and at whatever else it
  checks, and what it finds wrong refuses it (`Looks`); then it reports what it makes up for; and what
  is left goes through (`Silent`).  This order is the whole argument for an operation with one
  command.  Three kinds of operations append more, and take a reason why a later part cannot fail:

  1. a wrapping sum uses its own results, and what an operator has just made can be an operand
     (`Ready`);
  2. the leaves of an aggregate are templates with different serial numbers, so declaring one leaves
     the others templates (`Declarable`);
  3. connecting two leaves binds nothing, so the next two can still be connected (`Connectable`).

  What an operation has to report depends on its operands alone.  `AllOrNothing problems` also says
  that an operation that goes through has reported all of it.  How many of its problems an operation
  reports is decided by its reports alone (`Reporting`).
-/
import Circuitry.Proofs.Draft.Bundle

namespace Circuitry.Draft

variable {α β : Type} {w : Session}

/-! ## What is left of a session -/

/-- A fault that is met before anything has been done. -/
def Fault.Refuses (f : Fault) : Prop := f.ofUse ∧ ∀ limit, f ≠ .errorLimitReached limit

theorem Fault.Refuses.notSynthesizable (ty : Ty) (why : Unfit) :
    (Fault.notSynthesizable ty why).Refuses :=
  ⟨nofun, nofun⟩

/-- A refusal that is not about what a signal is bound to. -/
def Fault.Plain (f : Fault) : Prop := f.Refuses ∧ ∀ ty why, f ≠ .notSynthesizable ty why

namespace Fault.Plain

theorem alreadyBound (current requested : Role) : (Fault.alreadyBound current requested).Plain :=
  ⟨⟨nofun, nofun⟩, nofun⟩

theorem typeMismatch (context : String) (left right : Ty) :
    (Fault.typeMismatch context left right).Plain :=
  ⟨⟨nofun, nofun⟩, nofun⟩

theorem widthMismatch (context : String) (issue : WidthIssue) :
    (Fault.widthMismatch context issue).Plain :=
  ⟨⟨nofun, nofun⟩, nofun⟩

theorem notAssignable (role : Role) : (Fault.notAssignable role).Plain :=
  ⟨⟨nofun, nofun⟩, nofun⟩

end Fault.Plain

/-- The draft with further reports. -/
def withReports (d : Draft) (fs : List Fault) : Draft :=
  { d with sink := fs.foldl (fun sink f => sink.emit f.toDiagnostic) d.sink }

/-- Some of the problems have been reported, and the last of the reports reached the limit. -/
inductive Session.Stopped (problems : List Fault) (w : Session) : Fault → Session → Prop
  | mk {reports : List Fault} (own : reports <+: problems) (some : reports ≠ []) :
    Stopped problems w (.errorLimitReached w.draft.settings.errorLimit)
      { w with draft := w.draft.withReports reports }

/-- How an operation with these problems fails. -/
def Session.Refused (problems : List Fault) (w : Session) (f : Fault) (w' : Session) : Prop :=
  (f.Refuses ∧ w' = w) ∨ w.Stopped problems f w'

/-- The operation either goes through, and has reported all its problems, or has done nothing but
    report some of them. -/
def AllOrNothing (problems : List Fault) (w : Session) (act : Build α) : Prop :=
  Triple (· = w) act (fun _ w' => w'.draft.sink = (w.draft.withReports problems).sink)
    (w.Refused problems)

/-- The action changes nothing, and all its faults are `thrown`. -/
abbrev Looks (thrown : Fault → Prop) (act : Build α) : Prop := ∀ w, Keeps (· = w) thrown act

theorem Looks.refuses {act : Build α} (h : Looks Fault.Plain act) : Looks Fault.Refuses act :=
  fun w => (h w).relax fun _ _ hf => ⟨hf.1.1, hf.2⟩

/-- The action goes through without a report. -/
def Silent (act : Build α) (w : Session) : Prop :=
  ∃ a w', act w = .ok a w' ∧ w'.draft.sink = w.draft.sink

namespace AllOrNothing

variable {problems : List Fault} {act : Build α} {f : α → Build β}

theorem raise {fault : Fault} (h : fault.Plain) :
    AllOrNothing problems w (throw fault : Build α) :=
  Triple.raise fun _ hw => .inl ⟨h.1, hw⟩

/-- First it looks. -/
theorem check (hact : Looks Fault.Refuses act) (hf : ∀ a, AllOrNothing problems w (f a)) :
    AllOrNothing problems w (act >>= f) :=
  Triple.bind ((hact w).relax fun _ _ => .inl) hf

/-- What follows goes through, whatever has been made. -/
theorem before (hact : AllOrNothing problems w act) (hf : ∀ a w', Silent (f a) w') :
    AllOrNothing problems w (act >>= f) := by
  refine Triple.bind hact fun a w' hsink => ?_
  obtain ⟨b, w'', hb, hsink'⟩ := hf a w'
  rw [hb]
  exact hsink'.trans hsink

theorem map (h : AllOrNothing problems w act) (g : α → β) : AllOrNothing problems w (g <$> act) :=
  Triple.map h

theorem silent (h : Silent act w) : AllOrNothing [] w act := by
  rintro _ rfl
  obtain ⟨a, w', hact, hsink⟩ := h
  rw [hact]
  exact hsink

end AllOrNothing

theorem silent_create (kind : Kind) (width : Width) (literal : Option Bits) :
    Silent (create kind width literal) w :=
  ⟨_, _, rfl, rfl⟩

theorem silent_fresh (b : Bundle) : Silent (fresh b) w := by
  refine ⟨_, _, rfl, ?_⟩
  rw [(Shape.mapAccum_freshSignal b.types w).2]
  rfl

/-! ## Looking -/

/-- What is known of the action when it goes through. -/
theorem Looks.finds {thrown : Fault → Prop} {act : Build α} {found : α → Session → Prop}
    {fail : Fault → Session → Prop} (hact : Looks thrown act) (h : Triple (· = w) act (fun a w' => found a w' ∧ w' = w) fail) :
    Triple (· = w) act (fun a w' => found a w ∧ w' = w) fun e w' => thrown e ∧ w' = w := by
  rintro w rfl
  have hlook := hact w w rfl
  have hfound := h w rfl
  cases hr : act w with
  | ok a w' =>
    rw [hr] at hlook hfound
    obtain rfl : w' = w := hlook
    exact hfound
  | error e w' =>
    rw [hr] at hlook
    exact hlook

theorem looks_operand (s : Signal) : Looks Fault.Refuses (operand s) := by
  intro w
  unfold operand
  refine .look_seq fun w₀ => ?_
  dsimp only
  split
  · exact .ret fun _ => id
  · exact .raise fun _ hw => ⟨.notSynthesizable .., hw⟩
  · exact .ite (fun _ => .ret fun _ => id) fun _ => .raise fun _ hw => ⟨.notSynthesizable .., hw⟩

theorem looks_operands (ss : List Signal) : Looks Fault.Refuses (operands ss) := by
  intro w
  induction ss with
  | nil => exact .ret fun _ => id
  | cons s rest ih =>
    exact .seq (looks_operand s w) fun a => .seq ih fun as => .ret fun _ => id

theorem looks_checkOperands (ss : List Signal) : Looks Fault.Refuses (checkOperands ss) :=
  fun w => .seq (looks_operands ss w) fun _ => .ret fun _ => id

theorem looks_assignable (s : Signal) : Looks Fault.Refuses (assignable s) := by
  intro w
  unfold assignable
  refine .look_seq fun w₀ => ?_
  dsimp only
  split
  · exact .raise fun _ hw => ⟨(Fault.Plain.notAssignable _).1, hw⟩
  · exact .raise fun _ hw => ⟨.notSynthesizable .., hw⟩
  · refine .ite (fun _ => .raise fun _ hw => ⟨.notSynthesizable .., hw⟩) fun _ => ?_
    exact .ite (fun _ => .ret fun _ => id) fun _ => .raise fun _ hw => ⟨(Fault.Plain.notAssignable _).1, hw⟩

theorem looks_checkTemplate (s : Signal) (requested : Role) : Looks Fault.Plain (checkTemplate s requested) := by
  intro w
  unfold checkTemplate
  refine .look_seq fun w₀ => ?_
  split
  · exact .ret fun _ => id
  · exact .raise fun _ hw => ⟨.alreadyBound .., hw⟩

theorem looks_checkShape (context : String) (a b : Shape.Fields Signal) :
    Looks Fault.Plain (checkShape context a b) := by
  intro w
  unfold checkShape
  dsimp only
  refine .ite (fun _ => .raise fun _ hw => ⟨.widthMismatch .., hw⟩) fun _ => ?_
  split
  · exact .raise fun _ hw => ⟨.widthMismatch .., hw⟩
  · exact .ret fun _ => id

theorem looks_mergeAll (pairs : List (Signal × Signal)) : Looks Fault.Plain (mergeAll pairs) := by
  intro w
  induction pairs with
  | nil => exact .ret fun _ => id
  | cons pair rest ih =>
    unfold mergeAll
    split
    · exact .raise fun _ hw => ⟨.typeMismatch .., hw⟩
    · exact .seq ih fun _ => .ret fun _ => id

/-! ## Reports -/

theorem run_report (f : Fault) (w : Session) : report f w =
    if 0 < w.draft.settings.errorLimit ∧
        w.draft.settings.errorLimit ≤ (w.reported f).draft.sink.errorCount then
      .error (.errorLimitReached w.draft.settings.errorLimit) (w.reported f)
    else .ok () (w.reported f) := by
  have hchange : modifyDraft (fun d => { d with sink := d.sink.emit f.toDiagnostic }) w =
    .ok () (w.reported f) := rfl
  have hget : (get : Build Session) (w.reported f) = .ok (w.reported f) (w.reported f) := rfl
  unfold report
  rw [bind_of_ok hchange, bind_of_ok hget]
  by_cases hlimit : 0 < w.draft.settings.errorLimit ∧
      w.draft.settings.errorLimit ≤ (w.reported f).draft.sink.errorCount
  · rw [if_pos hlimit]
    exact congrFun (if_pos hlimit) _
  · rw [if_neg hlimit]
    exact congrFun (if_neg hlimit) _

/-- Problems are reported one after the other, up to the one that reaches the limit. -/
theorem reportAll_stops (fs : List Fault) : ∀ w : Session, Triple (· = w) (reportAll fs)
    (fun _ w' => w' = { w with draft := w.draft.withReports fs }) (w.Stopped fs) := by
  induction fs with
  | nil => exact fun w => .ret fun _ => id
  | cons f rest ih =>
    rintro _ w rfl
    unfold reportAll
    have hrest := ih (w.reported f) (w.reported f) rfl
    have hreport := run_report f w
    split at hreport
    · rw [bind_of_error hreport]
      exact .mk (List.prefix_append [f] rest) (List.cons_ne_nil f [])
    · rw [bind_of_ok hreport]
      cases hr : reportAll rest (w.reported f) with
      | ok a w' =>
        rw [hr] at hrest
        exact hrest
      | error e w' =>
        rw [hr] at hrest
        obtain ⟨own, -⟩ := hrest
        exact .mk (List.cons_prefix_cons.2 ⟨rfl, own⟩) (List.cons_ne_nil f _)

/-- A single report is a list of one. -/
theorem report_bind (f : Fault) (act : Build α) :
    (do report f; act) = (do reportAll [f]; act) := by
  simp only [reportAll, bind_assoc, pure_bind]

/-- The action is refused before it has done anything, or it reports its problems, and the rest of it
    goes through. -/
def Reporting (problems : List Fault) (w : Session) (act : Build α) : Prop :=
  (∃ f, f.Refuses ∧ act w = .error f w) ∨
    ∃ rest : Build α, act w = (do reportAll problems; rest) w ∧
      Silent rest { w with draft := w.draft.withReports problems }

namespace Reporting

variable {problems : List Fault} {act : Build α} {f : α → Build β}

theorem reportAll {rest : Build α} (fs : List Fault) (h : ∀ w, Silent rest w) :
    Reporting fs w (do Draft.reportAll fs; rest) :=
  .inr ⟨rest, rfl, h _⟩

theorem report {rest : Build α} (f : Fault) (h : ∀ w, Silent rest w) :
    Reporting [f] w (do Draft.report f; rest) := by
  rw [report_bind]
  exact reportAll [f] h

/-- First it looks. -/
theorem check (hact : Looks Fault.Refuses act) (hf : ∀ a, Reporting problems w (f a)) :
    Reporting problems w (act >>= f) := by
  have hlook := hact w w rfl
  cases hr : act w with
  | ok a w' =>
    rw [hr] at hlook
    obtain rfl : w' = w := hlook
    obtain ⟨e, he, hrun⟩ | ⟨rest, hrun, hrest⟩ := hf a
    · exact .inl ⟨e, he, (bind_of_ok hr).trans hrun⟩
    · exact .inr ⟨rest, (bind_of_ok hr).trans hrun, hrest⟩
  | error e w' =>
    rw [hr] at hlook
    obtain ⟨he, rfl⟩ := hlook
    exact .inl ⟨e, he, bind_of_error hr⟩

theorem look {f : Session → Build β} (hf : Reporting problems w (f w)) :
    Reporting problems w (get >>= f) :=
  hf

/-- Without problems there is nothing to report. -/
theorem of_allOrNothing (h : AllOrNothing [] w act) : Reporting [] w act := by
  have hact := h w rfl
  cases hr : act w with
  | ok a w' =>
    rw [hr] at hact
    exact .inr ⟨act, rfl, a, w', hr, hact⟩
  | error e w' =>
    rw [hr] at hact
    obtain ⟨he, rfl⟩ | ⟨own, some⟩ := hact
    · exact .inl ⟨e, he, hr⟩
    · exact absurd (List.prefix_nil.1 own) some

theorem allOrNothing (h : Reporting problems w act) : AllOrNothing problems w act := by
  rintro w rfl
  obtain ⟨e, he, hrun⟩ | ⟨rest, hrun, hrest⟩ := h
  · rw [hrun]
    exact .inl ⟨he, rfl⟩
  · rw [hrun]
    refine Triple.bind ((reportAll_stops problems w).relax fun _ _ => .inr) ?_ w rfl
    rintro _ _ rfl
    obtain ⟨a, w', hr, hsink⟩ := hrest
    rw [hr]
    exact hsink

end Reporting

/-! ## Literals -/

/-- What is wrong with an unsigned literal. -/
def uintProblems (n : Nat) : Width → List Fault
  | .known w =>
    if w.toNat < Words.bitLength n then
      [.invalidLiteral (toString n) (.tooWide (Words.bitLength n) w)]
    else []
  | .unknown => []

/-- What is wrong with a signed literal. -/
def sintProblems (i : Int) : Width → List Fault
  | .known w =>
    if i ≠ 0 ∧ w.toNat < signedBits i then
      [.invalidLiteral (toString i) (.tooWideSigned (signedBits i) w)]
    else []
  | .unknown => []

/-- What is wrong with a spelled literal. -/
def textProblems (text : String) : List Fault :=
  (Numeral.read text.toList).issues.map (spellingFault text)

theorem length_uintProblems_le (n : Nat) (width : Width) : (uintProblems n width).length ≤ 1 := by
  unfold uintProblems
  split
  · split <;> simp
  · simp

theorem length_sintProblems_le (i : Int) (width : Width) : (sintProblems i width).length ≤ 1 := by
  unfold sintProblems
  split
  · split <;> simp
  · simp

/-- The payload of an unsigned literal. -/
def uintPayload (n : Nat) : Width → Bits
  | .known w => .ofNat w n
  | .unknown => .ofNat (UInt32.ofNat (unsignedBits n)) n

/-- The payload of a signed literal. -/
def sintPayload (i : Int) : Width → Bits
  | .known w => .ofInt w i
  | .unknown => .ofInt (UInt32.ofNat (signedBits i)) i

/-- A literal is made once its problems have been reported. -/
theorem literalUInt_eq (n : Nat) (width : Width) : literalUInt n width = (do
    reportAll (uintProblems n width)
    create .uint width (some (uintPayload n width))) := by
  unfold literalUInt uintProblems
  cases width with
  | unknown => rfl
  | known w =>
    dsimp only
    split <;> simp only [reportAll, bind_assoc, pure_bind, uintPayload]

theorem literalSInt_eq (i : Int) (width : Width) : literalSInt i width = (do
    reportAll (sintProblems i width)
    create .sint width (some (sintPayload i width))) := by
  unfold literalSInt sintProblems
  cases width with
  | unknown => rfl
  | known w =>
    dsimp only
    split <;> simp only [reportAll, bind_assoc, pure_bind, sintPayload]

theorem reporting_literalUInt (n : Nat) (width : Width) :
    Reporting (uintProblems n width) w (literalUInt n width) := by
  rw [literalUInt_eq]
  exact .reportAll _ fun _ => silent_create ..

theorem reporting_literalSInt (i : Int) (width : Width) :
    Reporting (sintProblems i width) w (literalSInt i width) := by
  rw [literalSInt_eq]
  exact .reportAll _ fun _ => silent_create ..

theorem reporting_literalText (text : String) :
    Reporting (textProblems text) w (literalText text) :=
  .reportAll _ fun _ => silent_create ..

/-- At most the radix letter and the digits are wrong. -/
theorem length_textProblems_le (text : String) : (textProblems text).length ≤ 2 := by
  have hdigits : ∀ radix digits, (Numeral.readDigits radix digits).2.length ≤ 1 := by
    intro radix digits
    unfold Numeral.readDigits
    split <;> simp
  unfold textProblems
  rw [List.length_map]
  cases text.toList with
  | nil => exact Nat.le_succ 1
  | cons letter rest =>
    simp only [Numeral.read, List.length_append]
    split
    · exact Nat.le_trans (Nat.add_le_add (Nat.le_refl 0) (hdigits ..)) (Nat.le_succ 1)
    · exact Nat.add_le_add (Nat.le_refl 1) (hdigits ..)

/-! ## Operators -/

/-- The signal can be an operand. -/
def Session.Ready (w : Session) (s : Signal) : Prop := ∃ a, w.Reads s a

theorem run_operand {s : Signal} {a : Operand} (h : w.Reads s a) : operand s w = .ok a w := by
  have hget : (get : Build Session) w = .ok w w := rfl
  unfold operand
  rw [bind_of_ok hget]
  cases h with
  | literal hl => simp [Signals.standing, hl, pure, EStateM.pure]
  | node hb hc => simp [hb, hc, pure, EStateM.pure]

/-- The result of an operator can be an operand at once. -/
theorem ready_defined (w : Session) (op : Operator) (args : List Operand) (kind : Kind)
    (width : Width) : (w.defined op args kind width).Ready (w.resultSignal kind width) := by
  refine ⟨_, .node (b := ⟨.result, w.draft.context, w.draft.nextId⟩) ?_ rfl⟩
  exact w.created.signals.standing_bind (w.resultSignal kind width) _ rfl

theorem silent_define (op : Operator) (args : List Operand) (kind : Kind) (width : Width) :
    Silent (define op args kind width) w :=
  ⟨w.resultSignal kind width, w.defined op args kind width, rfl, rfl⟩

/-- An operator on a signal that can be an operand goes through, and so may the next. -/
theorem run_apply_ready (op : Operator) {s : Signal} (h : w.Ready s) (kind : Kind) :
    ∃ r w', apply op [s] kind w = .ok r w' ∧ w'.Ready r ∧ w'.draft.sink = w.draft.sink := by
  obtain ⟨a, ha⟩ := h
  have hargs : operands [s] w = .ok [a] w := by
    simp only [operands]
    rw [bind_of_ok (run_operand ha)]
    rfl
  refine ⟨_, _, ?_, ready_defined w op [a] kind (op.resultWidth [s.width]), rfl⟩
  unfold apply applyAt
  rw [bind_of_ok hargs]
  rfl

/-- An operator checks its operands and goes through; what it makes can be an operand. -/
theorem applyAt_readies (op : Operator) (ss : List Signal) (kind : Kind) (width : Width) :
    Triple (· = w) (applyAt op ss kind width)
      (fun s w' => w'.Ready s ∧ w'.draft.sink = w.draft.sink) (w.Refused []) := by
  unfold applyAt
  refine .bind ((looks_operands ss w).relax fun _ _ => .inl) fun args => ?_
  rintro _ rfl
  exact ⟨ready_defined .., rfl⟩

theorem allOrNothing_applyAt (op : Operator) (ss : List Signal) (kind : Kind) (width : Width) :
    AllOrNothing [] w (applyAt op ss kind width) :=
  (applyAt_readies op ss kind width).weaken fun _ _ => And.right

theorem allOrNothing_apply (op : Operator) (ss : List Signal) (kind : Kind) :
    AllOrNothing [] w (apply op ss kind) :=
  allOrNothing_applyAt op ss kind _

/-- What a wrapping sum does with its wide result goes through. -/
theorem silent_narrow {wide : Signal} (h : w.Ready wide) (signed : Bool) : Silent (do
    let low ← apply (.tail 1) [wide] .uint
    if signed then apply .asSInt [low] .sint else return low) w := by
  obtain ⟨low, w₁, hlow, hready, hsink⟩ := run_apply_ready (.tail 1) h .uint
  unfold Silent
  rw [bind_of_ok hlow]
  cases signed with
  | false => exact ⟨low, w₁, rfl, hsink⟩
  | true =>
    obtain ⟨r, w₂, hr, -, hsink'⟩ := run_apply_ready .asSInt hready .sint
    exact ⟨r, w₂, hr, hsink'.trans hsink⟩

theorem allOrNothing_wrapping (op : Operator) (a b : Signal) :
    AllOrNothing [] w (wrapping op a b) := by
  refine Triple.bind (applyAt_readies op [a, b] a.kind _) fun wide => ?_
  rintro w₁ ⟨hready, hsink⟩
  obtain ⟨r, w₂, hr, hsink'⟩ := silent_narrow hready a.kind.isSigned
  rw [hr]
  exact hsink'.trans hsink

theorem allOrNothing_compare (op : Operator) (a b : Signal) :
    AllOrNothing [] w (compare op a b) := by
  unfold compare
  by_cases hk : a.kind ≠ b.kind
  · rw [if_pos hk]
    exact .raise (.typeMismatch ..)
  · rw [if_neg hk]
    exact allOrNothing_apply _ _ _

theorem allOrNothing_asBool (a : Signal) : AllOrNothing [] w (asBool a) := by
  unfold asBool
  split
  · exact .raise (.widthMismatch ..)
  · exact allOrNothing_apply _ _ _

/-- What is wrong with the amount of a shift. -/
def shiftProblems (limit : UInt32) (amount : Signal) : List Fault :=
  match amount.width.get?.filter (limit < ·) with
  | some width => [.shiftAmountTooWide width limit]
  | none => []

theorem length_shiftProblems_le (limit : UInt32) (amount : Signal) :
    (shiftProblems limit amount).length ≤ 1 := by
  unfold shiftProblems
  split <;> simp

theorem reporting_shiftLeftBy (a amount : Signal) :
    Reporting (shiftProblems w.draft.settings.dynamicShiftLimit amount) w
      (shiftLeftBy a amount) := by
  unfold shiftLeftBy shiftProblems
  refine .look ?_
  dsimp only
  cases amount.width.get?.filter (w.draft.settings.dynamicShiftLimit < ·) with
  | none => exact .of_allOrNothing (allOrNothing_apply .dshl [a, amount] a.kind)
  | some width =>
    refine .check (looks_checkOperands [a, amount]) fun _ => ?_
    exact .report (.shiftAmountTooWide width w.draft.settings.dynamicShiftLimit)
      fun _ => silent_create a.kind a.width (some (.zero 1))

theorem allOrNothing_mux (cond t f : Signal) : AllOrNothing [] w (mux cond t f) := by
  refine .check (looks_operands [cond, t, f]) fun args => ?_
  split
  · exact .raise (.typeMismatch ..)
  · exact .silent (silent_define ..)

/-! ## Selection of bits -/

/-- What is wrong with an index that is not negative. -/
def indexProblems (a : Signal) (index : Int) : List Fault :=
  if indexFits a.width index then []
  else [.indexOutOfRange index (a.width.get?.getD (UInt32.ofNat Width.limit))]

/-- What is wrong with a range of bits. -/
def rangeProblems (a : Signal) (hi lo : Int) : List Fault :=
  if lo < 0 ∨ hi < lo then [.invalidBitRange hi lo] else indexProblems a hi

/-- What is wrong with the place of a bit. -/
def bitProblems (a : Signal) (index : Int) : List Fault :=
  if index < 0 then [.negativeIndex index] else indexProblems a index

theorem length_indexProblems_le (a : Signal) (index : Int) : (indexProblems a index).length ≤ 1 := by
  unfold indexProblems
  split <;> simp

theorem length_rangeProblems_le (a : Signal) (hi lo : Int) :
    (rangeProblems a hi lo).length ≤ 1 := by
  unfold rangeProblems
  split
  · simp
  · exact length_indexProblems_le a hi

theorem length_bitProblems_le (a : Signal) (index : Int) : (bitProblems a index).length ≤ 1 := by
  unfold bitProblems
  split
  · simp
  · exact length_indexProblems_le a index

/-- What selects bits has nothing to report. -/
theorem allOrNothing_selects {a : Signal} {hi lo : UInt32} {kind : Kind}
    {act : Build (Option Signal)} (h : Selects a hi lo kind w (act w)) : AllOrNothing [] w act := by
  rintro w rfl
  generalize act w = r at h ⊢
  cases h with
  | stopped => rfl
  | folded k span => rfl
  | @emitted width span =>
    exact (allOrNothing_applyAt (.bits hi lo) [a] kind width).map some w rfl

/-- A selection reports that its indices are bad, or what is wrong with the one that it looks up. -/
theorem reporting_selection (a : Signal) {bad : Prop} [Decidable bad] (fault : Fault) (index : Int)
    {kind : Kind} (standIn : Width) {lo : UInt32 → UInt32} {select : UInt32 → Checked Signal}
    (h : ∀ i w, Selects a i (lo i) kind w ((select i).run w)) :
    Reporting (if bad then [fault] else indexProblems a index) w
      (selection a bad fault index kind standIn select) := by
  have hzero : ∀ w, Silent (some <$> zero kind standIn) w := fun _ => ⟨_, _, rfl, rfl⟩
  refine .check (looks_checkOperands [a]) fun _ => ?_
  by_cases hbad : bad
  · rw [if_pos hbad, if_pos hbad]
    exact .report _ hzero
  · rw [if_neg hbad, if_neg hbad]
    unfold indexWithin? indexProblems
    split
    · exact .of_allOrNothing (allOrNothing_selects (h _ w))
    · rw [bind_assoc]
      exact .report _ hzero

theorem reporting_extract (a : Signal) (hi lo : Int) :
    Reporting (rangeProblems a hi lo) w (extract a hi lo).run := by
  rw [run_extract]
  exact reporting_selection a _ hi _ fun i => selects_range a i _

theorem reporting_bit (a : Signal) (index : Int) :
    Reporting (bitProblems a index) w (bit a index).run := by
  rw [run_bit]
  exact reporting_selection a _ index _ (selects_bit a)

/-! ## Declarations -/

/-- The signals can be declared one after the other. -/
structure Session.Declarable (w : Session) (ss : List Signal) : Prop where
  templates : ∀ s ∈ ss, w.signals.standing s = .template
  distinct : (ss.map (·.serial)).Nodup

theorem run_declare (r : Declared) (name : String) {s : Signal}
    (h : w.signals.standing s = .template) : declare r name s w = .ok () (w.declared r name s) := by
  have hget : (get : Build Session) w = .ok w w := rfl
  have hcheck : checkTemplate s r.role w = .ok () w := by
    unfold checkTemplate
    rw [bind_of_ok hget]
    simp [h, pure, EStateM.pure]
  unfold declare
  rw [bind_of_ok hcheck]
  rfl

theorem allOrNothing_declare (r : Declared) (name : String) (s : Signal) :
    AllOrNothing [] w (declare r name s) :=
  .check (looks_checkTemplate s r.role).refuses fun _ => .silent ⟨(), w.declared r name s, rfl, rfl⟩

theorem Session.Declarable.declared {s : Signal} {ss : List Signal} (h : w.Declarable (s :: ss))
    (r : Declared) (name : String) : (w.declared r name s).Declarable ss := by
  obtain ⟨hs, hdistinct⟩ := List.nodup_cons.1 h.distinct
  refine ⟨fun t ht => ?_, hdistinct⟩
  have hne : t.serial ≠ s.serial := fun he => hs (List.mem_map.2 ⟨t, ht, he⟩)
  exact (w.signals.standing_bind_of_ne _ hne).trans (h.templates t (List.mem_cons_of_mem s ht))

theorem silent_declareLeaves (r : Declared) (name : String) : ∀ (leaves : List (String × Signal))
    {w : Session}, w.Declarable (leaves.map (·.2)) → Silent (declareLeaves r name leaves) w
  | [], w, _ => ⟨(), w, rfl, rfl⟩
  | (path, s) :: rest, w, h => by
    have hs := run_declare r (name ++ "_" ++ path) (h.templates s (List.mem_cons_self ..))
    unfold declareLeaves Silent
    rw [bind_of_ok hs]
    exact silent_declareLeaves r name rest (h.declared r _)

/-- Leaves that pass the check are templates, none of which is among those seen before. -/
theorem checkTemplates_finds (role : Role) (ss : List Signal) : ∀ seen : List Signal,
    Triple (· = w) (checkTemplates role seen ss)
      (fun _ w' => (w.Declarable ss ∧ ∀ s ∈ ss, ∀ r ∈ seen, s.serial ≠ r.serial) ∧ w' = w)
      fun e w' => e.Plain ∧ w' = w := by
  induction ss with
  | nil =>
    exact fun _ => .ret fun _ hw =>
      ⟨⟨⟨List.forall_mem_nil _, List.nodup_nil⟩, List.forall_mem_nil _⟩, hw⟩
  | cons s rest ih =>
    intro seen
    unfold checkTemplates
    refine .bind ((looks_checkTemplate s role).finds (checkTemplate_finds s role)) fun _ => ?_
    refine .of_fact fun htemplate => ?_
    refine .ite (fun _ => .raise fun _ hw => ⟨.alreadyBound .., hw⟩) fun hseen => ?_
    refine (ih (s :: seen)).weaken fun _ w' h => ⟨⟨⟨?_, ?_⟩, ?_⟩, h.2⟩
    · exact List.forall_mem_cons.2 ⟨htemplate, h.1.1.templates⟩
    · refine List.nodup_cons.2 ⟨fun hmem => ?_, h.1.1.distinct⟩
      obtain ⟨t, ht, he⟩ := List.mem_map.1 hmem
      exact h.1.2 t ht s (List.mem_cons_self ..) he
    · refine List.forall_mem_cons.2 ⟨fun r hr he => hseen ?_, fun t ht r hr => ?_⟩
      · exact List.any_eq_true.2 ⟨r, hr, beq_iff_eq.2 he⟩
      · exact h.1.2 t ht r (List.mem_cons_of_mem s hr)

theorem allOrNothing_declareFields (r : Declared) (name : String) (fields : Shape.Fields Signal) :
    AllOrNothing [] w (declareFields r name fields) := by
  refine Triple.bind ((checkTemplates_finds r.role _ []).relax fun _ _ hf => .inl ⟨hf.1.1, hf.2⟩)
    fun _ => ?_
  exact .of_fact fun h => AllOrNothing.silent (silent_declareLeaves r name _ h.1)

/-! ## Connections -/

/-- The first signal can be driven by the second. -/
structure Session.Connectable (w : Session) (pair : Signal × Signal) : Prop where
  kinds : pair.1.kind = pair.2.kind
  drives : ∃ b, w.Drives pair.1 b
  ready : w.Ready pair.2

theorem run_assignable {s : Signal} {b : Binding} (h : w.Drives s b) :
    assignable s w = .ok b.id w := by
  have hget : (get : Build Session) w = .ok w w := rfl
  unfold assignable
  rw [bind_of_ok hget]
  simp [h.bound, h.context, h.assignable, pure, EStateM.pure]

theorem run_connect {target source : Signal} {b : Binding} {a : Operand}
    (kinds : target.kind = source.kind) (drives : w.Drives target b) (reads : w.Reads source a) :
    connect target source w = .ok () (w.emitted (.connect b.id a)) := by
  unfold connect
  rw [if_neg (not_not_intro kinds)]
  show (assignable target >>= fun node => operand source >>= fun a => emit (.connect node a)) w = _
  rw [bind_of_ok (run_assignable drives), bind_of_ok (run_operand reads)]
  rfl

theorem allOrNothing_connect (target source : Signal) :
    AllOrNothing [] w (connect target source) := by
  unfold connect
  by_cases hk : target.kind ≠ source.kind
  · rw [if_pos hk]
    exact .raise (.typeMismatch ..)
  · rw [if_neg hk]
    refine .check (looks_assignable target) fun node => .check (looks_operand source) fun a => ?_
    exact .silent ⟨(), w.emitted (.connect node a), rfl, rfl⟩

/-- A command binds nothing. -/
theorem Session.Connectable.emitted {pair : Signal × Signal} (h : w.Connectable pair)
    (cmd : Command) : (w.emitted cmd).Connectable pair := by
  obtain ⟨b, hb⟩ := h.drives
  obtain ⟨a, ha⟩ := h.ready
  refine ⟨h.kinds, ⟨b, hb.bound, hb.context, hb.assignable⟩, a, ?_⟩
  cases ha with
  | literal hl => exact .literal hl
  | node hb hc => exact .node hb hc

theorem silent_connectAll : ∀ (pairs : List (Signal × Signal)) {w : Session},
    (∀ pair ∈ pairs, w.Connectable pair) → Silent (connectAll pairs) w
  | [], w, _ => ⟨(), w, rfl, rfl⟩
  | (target, source) :: rest, w, h => by
    have hfirst := h (target, source) (List.mem_cons_self ..)
    obtain ⟨b, hb⟩ := hfirst.drives
    obtain ⟨a, ha⟩ := hfirst.ready
    unfold connectAll Silent
    rw [bind_of_ok (run_connect hfirst.kinds hb ha)]
    exact silent_connectAll rest fun pair hpair => (h pair (List.mem_cons_of_mem _ hpair)).emitted _

theorem checkConnections_finds (pairs : List (Signal × Signal)) :
    Triple (· = w) (checkConnections pairs)
      (fun _ w' => (∀ pair ∈ pairs, w.Connectable pair) ∧ w' = w)
      fun e w' => e.Refuses ∧ w' = w := by
  induction pairs with
  | nil => exact .ret fun _ hw => ⟨List.forall_mem_nil _, hw⟩
  | cons pair rest ih =>
    unfold checkConnections
    refine .ite (fun _ => .raise fun _ hw => ⟨(Fault.Plain.typeMismatch ..).1, hw⟩) fun hkinds => ?_
    refine .bind ((looks_assignable pair.1).finds (assignable_drives pair.1)) fun node => ?_
    refine .of_fact fun hdrives => ?_
    refine .bind ((looks_operand pair.2).finds (operand_reads pair.2)) fun a => ?_
    refine .of_fact fun ha => ih.weaken fun _ w' h => ⟨?_, h.2⟩
    obtain ⟨b, hb, -⟩ := hdrives
    exact List.forall_mem_cons.2 ⟨⟨Decidable.not_not.1 hkinds, ⟨b, hb⟩, a, ha⟩, h.1⟩

theorem allOrNothing_connectFields (target source : Shape.Fields Signal) :
    AllOrNothing [] w (connectFields target source) := by
  refine .check (looks_checkShape "connect" target source).refuses fun _ => ?_
  refine Triple.bind ((checkConnections_finds _).relax fun _ _ => .inl) fun _ => ?_
  exact .of_fact fun h => AllOrNothing.silent (silent_connectAll _ h)

/-! ## Selections -/

theorem allOrNothing_muxFields (cond : Signal) (t f : Shape.Fields Signal) :
    AllOrNothing [] w (muxFields cond t f) := by
  refine .check (looks_checkShape "mux" t f).refuses fun _ => ?_
  refine .check (looks_mergeAll _).refuses fun kinds => .check (looks_operand cond) fun c => ?_
  refine .check (looks_operands _) fun whenTrue => .check (looks_operands _) fun whenFalse => ?_
  cases Shape.mapAccumFields retype kinds t with
  | mk types left =>
    exact .silent ⟨_, _, run_select c whenTrue whenFalse types w, Session.sink_selected ..⟩

theorem allOrNothing_muxBundle (cond : Signal) (t f : Bundle) :
    AllOrNothing [] w (muxBundle cond t f) := by
  unfold muxBundle
  split
  · exact .before (allOrNothing_mux cond _ _) fun _ w => ⟨_, w, rfl, rfl⟩
  · exact .before (allOrNothing_muxFields cond _ _) fun _ w => ⟨_, w, rfl, rfl⟩
  · exact .raise (.typeMismatch ..)

end Circuitry.Draft
