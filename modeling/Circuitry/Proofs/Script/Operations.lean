/-
  Every call is one operation.

  A call looks its variables up, and makes the templates that it names; then it is one operation of the
  draft, and after that it only looks at what it answers.  `Call.Operates` lists the operations with
  the variables that they come from, so what is said of operations can be said of calls by cases on it
  (`operation_of_ok`, `operation_of_error`): the variables, and what has been remembered, are as they
  were, and the session is the one that the operation has left.
-/
import Circuitry.Proofs.Script.Steps

namespace Circuitry

/-- After new signals, up to the given serial number. -/
def Draft.Session.upTo (w : Draft.Session) (next : Nat) : Draft.Session :=
  { w with signals := { w.signals with next } }

namespace Script

open Draft (Bundle Build Session Fault)

variable {α β : Type} {w : World}

/-! ## The operations -/

/-- The call changes nothing. -/
def Call.onlyLooks : Call → Bool
  | .alias _ | .look _ | .aggregate _ | .field _ _ | .leaf _ _ | .fields _ | .debug _
  | .sameSignal _ _ | .hasCode _ | .name => true
  | _ => false

/-- The operation that a call comes to. -/
inductive Call.Operates (w : World) : Call → (α : Type) → Build α → Prop
  | look {use : Call} (h : use.onlyLooks = true) : Operates w use Unit (pure ())
  | template (kind : Kind) (width : Width) :
      Operates w (.template kind width) _ (Draft.template kind width)
  | fresh (a : String) (b : Bundle) : Operates w (.fresh a) _ (Draft.fresh b)
  | declare (role : Draft.Declared) (name : String) (shape : Shape Leaf) (s : Signal) :
      Operates w (.declare role name shape) _ (Draft.declare role name s)
  | declareFields (role : Draft.Declared) (name : String) (shape : Shape Leaf)
      (fs : Shape.Fields Signal) :
      Operates w (.declare role name shape) _ (Draft.declareFields role name fs)
  | literalUInt (n : Nat) (width : Width) :
      Operates w (.literalUInt n width) _ (Draft.literalUInt n width)
  | literalSInt (i : Int) (width : Width) :
      Operates w (.literalSInt i width) _ (Draft.literalSInt i width)
  | literalBool (b : Bool) : Operates w (.literalBool b) _ (Draft.literalBool b)
  | literalText (text : String) : Operates w (.literalText text) _ (Draft.literalText text)
  | connect {target source : String} {t s : Signal}
      (ht : w.values.lookup target = some (.leaf t))
      (hs : w.values.lookup source = some (.leaf s)) :
      Operates w (.connect target source) _ (Draft.connect t s)
  | connectFields {target source : String} {t s : Shape.Fields Signal}
      (ht : w.values.lookup target = some (.group t))
      (hs : w.values.lookup source = some (.group s)) :
      Operates w (.connect target source) _ (Draft.connectFields t s)
  | mux {cond t f : String} {c x y : Signal} (hc : w.values.lookup cond = some (.leaf c))
      (hx : w.values.lookup t = some (.leaf x)) (hy : w.values.lookup f = some (.leaf y)) :
      Operates w (.mux cond t f) _ (Draft.mux c x y)
  | muxFields {cond t f : String} {c : Signal} {x y : Shape.Fields Signal}
      (hc : w.values.lookup cond = some (.leaf c)) (hx : w.values.lookup t = some (.group x))
      (hy : w.values.lookup f = some (.group y)) :
      Operates w (.mux cond t f) _ (Draft.muxFields c x y)
  | muxBundle {cond t f : String} {c : Signal} {x y : Bundle}
      (hc : w.values.lookup cond = some (.leaf c)) (hx : w.values.lookup t = some x)
      (hy : w.values.lookup f = some y) :
      Operates w (.muxBundle cond t f) _ (Draft.muxBundle c x y)
  | binary (op : Binary) {a b : String} {x y : Signal} (hx : w.values.lookup a = some (.leaf x))
      (hy : w.values.lookup b = some (.leaf y)) : Operates w (.binary op a b) _ (op.build x y)
  | unary (op : Unary) {a : String} {x : Signal} (hx : w.values.lookup a = some (.leaf x)) :
      Operates w (.unary op a) _ (op.build x)
  | extract {a : String} {x : Signal} (hx : w.values.lookup a = some (.leaf x)) (hi lo : Int) :
      Operates w (.extract a hi lo) _ (Draft.extract x hi lo).run
  | bit {a : String} {x : Signal} (hx : w.values.lookup a = some (.leaf x)) (index : Int) :
      Operates w (.bit a index) _ (Draft.bit x index).run
  | drain : Operates w .drain _
      (Draft.modifyDraft fun d => { d with sink := w.session.draft.sink.drain.2 })

/-! ## Ways to put calls together -/

/-- The action is one of the operations, or the call has no meaning, or it stops. -/
def Performs (w : World) (operations : (α : Type) → Build α → Prop) (act : Run β) : Prop :=
  Triple (· = w) act
    (fun _ w' => ∃ (α : Type) (op : Build α) (next : Nat) (a : α) (s : Session),
      operations α op ∧ op (w.session.upTo next) = .ok a s ∧ w' = { w with session := s })
    (fun e w' => ∀ f, e = .fault f → ∃ (α : Type) (op : Build α) (next : Nat) (s : Session),
      operations α op ∧ op (w.session.upTo next) = .error f s ∧ w' = { w with session := s })

/-- The action looks something up, or the call has no meaning. -/
abbrev LooksUp (w : World) (act : Run α) (found : α → Prop) : Prop :=
  Triple (· = w) act (fun a w' => found a ∧ w' = w) fun e _ => e = .nonsense

/-- What is left to do is to answer. -/
def Answers (act : Run α) : Prop := ∀ w, ∃ a, act w = .ok a w

namespace Performs

variable {operations : (α : Type) → Build α → Prop} {act : Run α} {f : α → Run β}

theorem mono {operations' : (α : Type) → Build α → Prop} (h : Performs w operations act)
    (hsub : ∀ α op, operations α op → operations' α op) : Performs w operations' act := by
  refine Triple.conseq h (fun _ => id) ?_ ?_
  · rintro b w' ⟨α, op, next, a, s, hop, hrun, heq⟩
    exact ⟨α, op, next, a, s, hsub α op hop, hrun, heq⟩
  · intro e w' hfault f hf
    obtain ⟨α, op, next, s, hop, hrun, heq⟩ := hfault f hf
    exact ⟨α, op, next, s, hsub α op hop, hrun, heq⟩

theorem meaningless : Performs w operations (nonsense : Run α) :=
  Triple.raise fun _ _ => nofun

theorem lookUp {found : α → Prop} (hact : LooksUp w act found)
    (hf : ∀ a, found a → Performs w operations (f a)) : Performs w operations (act >>= f) := by
  refine Triple.bind (hact.relax fun e _ he => ?_) fun a => .of_fact (hf a)
  rintro fault rfl
  cases he

theorem look {f : World → Run β} (hf : Performs w operations (f w)) :
    Performs w operations (get >>= f) := by
  refine Triple.look_bind fun w₀ => ?_
  rintro _ ⟨rfl, rfl⟩
  exact hf w₀ rfl

/-- Answering alone is no operation. -/
theorem answers (h : operations Unit (pure ())) (hact : Answers act) :
    Performs w operations act := by
  rintro w rfl
  obtain ⟨a, ha⟩ := hact w
  rw [ha]
  exact ⟨Unit, pure (), w.session.signals.next, (), w.session, h, rfl, rfl⟩

/-- Answering comes after the operation. -/
theorem before (hact : Performs w operations act) (hf : ∀ a, Answers (f a)) :
    Performs w operations (act >>= f) := by
  refine Triple.bind hact fun a w' hw => ?_
  obtain ⟨b, hb⟩ := hf a w'
  rw [hb]
  exact hw

theorem lift {op : Build α} (h : operations α op) : Performs w operations (liftBuild op) := by
  rintro w rfl
  unfold liftBuild
  cases hr : op w.session with
  | ok a s => exact ⟨α, op, w.session.signals.next, a, s, h, hr, rfl⟩
  | error e s =>
    rintro f ⟨⟩
    exact ⟨α, op, w.session.signals.next, s, h, hr, rfl⟩

/-- Two parts of a description, one after the other, are one part. -/
theorem lift_seq {op : Build α} {g : α → Build Unit} {f : Unit → Run β}
    (h : operations Unit (op >>= g)) (hf : ∀ a, Answers (f a)) :
    Performs w operations (do g (← op); f ()) := by
  have hlift : liftBuild (op >>= g) = liftBuild op >>= fun a => liftBuild (g a) := by
    funext w
    show liftBuild (op >>= g) w = EStateM.bind _ _ w
    unfold EStateM.bind liftBuild
    cases hr : op w.session with
    | ok a s => rw [bind_of_ok hr]
    | error e s => rw [bind_of_error hr]
  have hseq := before (lift (w := w) h) hf
  rwa [hlift, bind_assoc] at hseq

theorem signal {op : Build Signal} (h : operations Signal op) :
    Performs w operations (answerSignal op) :=
  .before (.lift h) fun _ _ => ⟨_, rfl⟩

/-- An operation that stops leaves nothing to answer. -/
theorem checked {op : Draft.Checked Signal} (h : operations (Option Signal) op.run) :
    Performs w operations (answerChecked op) := by
  unfold answerChecked
  refine Triple.bind (lift h) fun made => ?_
  cases made with
  | none => exact .raise fun _ _ => nofun
  | some s => exact fun w' hw => hw

/-- The templates that a call names are made first. -/
theorem resolving {shape : Shape Leaf} {f : Bundle → Run β}
    (hf : ∀ b w, Performs w operations (f b)) : Performs w operations (resolve shape >>= f) := by
  rintro w rfl
  obtain ⟨types, hsignals, -⟩ := resolve_shape w.values shape w.session.signals
  have hresolve := run_resolve shape w
  rw [hsignals] at hresolve
  split at hresolve
  · rw [bind_of_error hresolve]
    exact fun _ => nofun
  · next b _ =>
    rw [bind_of_ok hresolve]
    exact hf b { w with session := w.session.upTo (w.session.signals.next + types.length) } _ rfl

end Performs

theorem bundle_looksUp (name : String) :
    LooksUp w (bundle name) fun b => w.values.lookup name = some b := by
  unfold bundle
  refine .look_bind fun w₀ => ?_
  split
  · next b hb =>
    refine .ret ?_
    rintro _ ⟨rfl, rfl⟩
    exact ⟨hb, rfl⟩
  · exact .raise fun _ _ => rfl

theorem signal_looksUp (name : String) :
    LooksUp w (signal name) fun s => w.values.lookup name = some (.leaf s) := by
  unfold signal
  refine .bind (bundle_looksUp name) fun b => .of_fact fun hb => ?_
  split
  · exact .ret fun _ hw => ⟨hb, hw⟩
  · exact .raise fun _ _ => rfl

theorem boolean_looksUp (name : String) :
    LooksUp w (boolean name) fun s => w.values.lookup name = some (.leaf s) := by
  unfold boolean
  refine .bind (signal_looksUp name) fun s => .of_fact fun hs => ?_
  exact .ite (fun _ => .ret fun _ hw => ⟨hs, hw⟩) fun _ => .raise fun _ _ => rfl

theorem numeric_looksUp (name : String) :
    LooksUp w (numeric name) fun s => w.values.lookup name = some (.leaf s) := by
  unfold numeric
  refine .bind (signal_looksUp name) fun s => .of_fact fun hs => ?_
  exact .ite (fun _ => .ret fun _ hw => ⟨hs, hw⟩) fun _ => .raise fun _ _ => rfl

theorem answers_answerOnly (a : Answer) : Answers (answerOnly a) := fun _ => ⟨_, rfl⟩

theorem answers_answerValue (b : Bundle) : Answers (answerValue b) := fun _ => ⟨_, rfl⟩

theorem answers_answerPart (part : Option Bundle) : Answers (answerPart part) := by
  cases part with
  | none => exact answers_answerOnly _
  | some b => exact answers_answerValue b

/-! ## All calls -/

/-- **Every call is one operation**, with variables looked up before it and an answer after it. -/
theorem performs_meaning (use : Call) : Performs w (use.Operates w) (meaning use) := by
  cases use with
  | template kind width => exact .signal (.template kind width)
  | «alias» a | look a =>
    exact .lookUp (bundle_looksUp a) fun b _ => .answers (.look rfl) (answers_answerValue b)
  | aggregate fields =>
    refine .resolving fun b w => ?_
    split
    · exact .meaningless
    · exact .answers (.look rfl) (answers_answerValue _)
  | fresh a =>
    refine .lookUp (bundle_looksUp a) fun b _ => ?_
    split
    · exact .meaningless
    · exact .before (.lift (.fresh a _)) answers_answerValue
  | field a name | leaf a index =>
    refine .lookUp (bundle_looksUp a) fun b _ => ?_
    split
    · exact .meaningless
    · exact .answers (.look rfl) (answers_answerPart _)
  | fields a =>
    refine .lookUp (bundle_looksUp a) fun b _ => ?_
    split
    · exact .meaningless
    · exact .look (.answers (.look rfl) (answers_answerOnly _))
  | debug a =>
    exact .lookUp (signal_looksUp a) fun s _ => .look (.answers (.look rfl) (answers_answerOnly _))
  | sameSignal a b =>
    refine .lookUp (signal_looksUp a) fun x _ => .lookUp (signal_looksUp b) fun y _ => ?_
    exact .answers (.look rfl) (answers_answerOnly _)
  | declare role name shape =>
    refine .resolving fun b w => ?_
    split
    · next s => exact .before (.lift (.declare role name shape s)) fun _ => answers_answerValue _
    · next fs =>
      exact .before (.lift (.declareFields role name shape fs)) fun _ => answers_answerValue _
  | literalUInt n width => exact .signal (.literalUInt n width)
  | literalSInt i width => exact .signal (.literalSInt i width)
  | literalBool b => exact .signal (.literalBool b)
  | literalText text => exact .signal (.literalText text)
  | connect target source =>
    refine .lookUp (bundle_looksUp target) fun t ht => ?_
    refine .lookUp (bundle_looksUp source) fun s hs => ?_
    split
    · exact .before (.lift (.connect ht hs)) fun _ => answers_answerOnly _
    · exact .before (.lift (.connectFields ht hs)) fun _ => answers_answerOnly _
    · exact .before .meaningless fun _ => answers_answerOnly _
  | mux cond t f =>
    refine .lookUp (boolean_looksUp cond) fun c hc => .lookUp (bundle_looksUp t) fun x hx => ?_
    refine .lookUp (bundle_looksUp f) fun y hy => ?_
    split
    · exact .signal (.mux hc hx hy)
    · exact .before (.lift (.muxFields hc hx hy)) fun _ => answers_answerValue _
    · exact .meaningless
  | muxBundle cond t f =>
    refine .lookUp (boolean_looksUp cond) fun c hc => .lookUp (bundle_looksUp t) fun x hx => ?_
    refine .lookUp (bundle_looksUp f) fun y hy => ?_
    exact .before (.lift (.muxBundle hc hx hy)) answers_answerValue
  | binary op a b =>
    refine .lookUp (signal_looksUp a) fun x hx => .lookUp (signal_looksUp b) fun y hy => ?_
    split
    · exact .signal (.binary op hx hy)
    · exact .meaningless
  | unary op a =>
    refine .lookUp (signal_looksUp a) fun x hx => ?_
    split
    · exact .signal (.unary op hx)
    · exact .meaningless
  | extract a hi lo => exact .lookUp (numeric_looksUp a) fun x hx => .checked (.extract hx hi lo)
  | bit a index => exact .lookUp (numeric_looksUp a) fun x hx => .checked (.bit hx index)
  | hasCode code => exact .look (.answers (.look rfl) (answers_answerOnly _))
  | drain => exact .look (.before (.lift .drain) fun _ => answers_answerOnly _)
  | name => exact .look (.answers (.look rfl) (answers_answerOnly _))

/-- The operation of a call that goes through. -/
theorem operation_of_ok {use : Call} {r : Answer × Option Bundle} {w' : World}
    (h : meaning use w = .ok r w') :
    ∃ (α : Type) (op : Build α) (next : Nat) (a : α) (s : Session), use.Operates w α op ∧
      op (w.session.upTo next) = .ok a s ∧ w' = { w with session := s } :=
  (performs_meaning use).of_ok rfl h

/-- The operation of a call that fails. -/
theorem operation_of_error {use : Call} {f : Fault} {w' : World}
    (h : meaning use w = .error (.fault f) w') :
    ∃ (α : Type) (op : Build α) (next : Nat) (s : Session), use.Operates w α op ∧
      op (w.session.upTo next) = .error f s ∧ w' = { w with session := s } :=
  (performs_meaning use).of_error rfl h f rfl

end Script

end Circuitry
