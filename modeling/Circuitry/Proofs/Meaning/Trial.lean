/-
  Signals and the values that they have in a run.

  A `Trial` is a whole way: a description that has returned a circuit, values given to its inputs and
  registers, and a run that has come to rest.  `Trial.value?` is the value of a signal in it.  A literal
  has the value it was made with, and a signal of this circuit that of its node; both are read by the
  kind and the width of the signal, without a look at the commands.

  1. What a description does later leaves what it has (`Session.Onward`), so a session on the way
     (`Trial.Passed`) is seen in the circuit: its commands are commands there, and its signals are bound
     as they were.
  2. An operand that is read from a signal has the value of that signal (`Passed.reads`).
  3. What an operator makes has the value that the operator has on the values of its operands
     (`Passed.result`).
-/
import Circuitry.Proofs.Bench.Range
import Circuitry.Proofs.Draft.Sharing
import Circuitry.Proofs.Script.Places

namespace Circuitry

open Draft (Session)
open Draft.Session (Step Proper)

/-! ## Later sessions -/

namespace Draft.Session

/-- What a session has is there in the other one, which comes later in the same draft. -/
structure Onward (w₀ w : Session) : Prop where
  context_eq : w.draft.context = w₀.draft.context
  later : Signals.Later w₀.draft.context w₀.signals w.signals
  nodes : w₀.draft.nodes <+: w.draft.nodes
  commands : w₀.draft.commands <+: w.draft.commands
  errors : w₀.draft.sink.errorCount ≤ w.draft.sink.errorCount

variable {L made : List Signal} {w w' w'' : Session}

namespace Onward

theorem refl (w : Session) : w.Onward w :=
  ⟨rfl, .refl, List.prefix_rfl, List.prefix_rfl, Nat.le_refl _⟩

theorem trans (h : w.Onward w') (h' : w'.Onward w'') : w.Onward w'' where
  context_eq := h'.context_eq.trans h.context_eq
  later := h.later.trans (h.context_eq ▸ h'.later)
  nodes := h.nodes.trans h'.nodes
  commands := h.commands.trans h'.commands
  errors := Nat.le_trans h.errors h'.errors

end Onward

theorem step_nodes (hstep : Step L w made w') : w.draft.nodes <+: w'.draft.nodes := by
  cases hstep with
  | declare r name s _ _ => exact List.prefix_append _ _
  | define op signals args kind width _ _ _ => exact List.prefix_append _ _
  | select cond ts fs c t f types _ _ _ _ _ _ _ =>
    rw [nodes_selected]
    exact List.prefix_append _ _
  | _ => exact List.prefix_rfl

/-- Reports are never taken back. -/
theorem step_errors (hstep : Step L w made w') :
    w.draft.sink.errorCount ≤ w'.draft.sink.errorCount := by
  cases hstep with
  | report f _ => exact Nat.le_succ _
  | select cond ts fs c t f types _ _ _ _ _ _ _ =>
    rw [sink_selected]
  | _ => exact Nat.le_refl _

theorem step_onward (hstep : Step L w made w') (hreg : Registered L w.signals) : w.Onward w' where
  context_eq := step_context hstep
  later := step_later hstep hreg.used
  nodes := step_nodes hstep
  commands := by
    obtain ⟨cmds, -, hcommands⟩ := hstep.commands
    rw [hcommands]
    exact List.prefix_append _ _
  errors := step_errors hstep

theorem mark_onward (hmark : Mark L w w') : w.Onward w' := by
  obtain ⟨cmd, -, rfl⟩ := hmark.commands
  exact ⟨rfl, .refl, List.prefix_rfl, List.prefix_append _ _, Nat.le_refl _⟩

/-- A session that comes after `w₀`, with the signals around registered. -/
def After (w₀ : Session) (L : List Signal) (w : Session) : Prop :=
  Registered L w.signals ∧ w₀.Onward w

theorem stable_after (w₀ : Session) : Stable (After w₀) where
  step _ _ _ _ hstep h := ⟨step_registered hstep h.1, h.2.trans (step_onward hstep h.1)⟩
  forget _ _ _ hL h := ⟨h.1.forget hL, h.2⟩

theorem mark_after {w₀ : Session} (hmark : Mark L w w') (h : After w₀ L w) : After w₀ L w' :=
  ⟨mark_signals hmark ▸ h.1, h.2.trans (mark_onward hmark)⟩

end Draft.Session

/-! ## Trials -/

/-- The value of a signal in a run of the circuit with this context. -/
def Signals.value? (signals : Signals) (context : Nat) (e : Bench.Settled) (s : Signal) :
    Option Value :=
  match signals.standing s with
  | .literal v => some ⟨v.value, (s.width.get?.getD v.width).toNat, s.kind.isSigned⟩
  | .bound b =>
    if b.context = context then do
      return ⟨← e.value? b.id, (← s.width.get?).toNat, s.kind.isSigned⟩
    else none
  | .template => none

/-- A description that has returned a circuit, and a run of the circuit that has come to rest. -/
structure Trial where
  start : Script.Memory
  script : Script
  name : String
  settings : Settings.Elaboration
  outcome : Script.Outcome
  left : Script.Memory
  given : List Bench.Setting
  bench : Bench
  settled : Bench.Settled
  reached : start.Reached
  describes : script.describe? start name settings = some (outcome, left)
  returns : outcome.result = .ok bench.circuit
  size : bench.circuit.nodes.length ≤ 2 ^ 32
  prepared : Bench.Prepared bench.circuit given bench
  settles : bench.run = .ok settled

namespace Trial

variable (T : Trial)

/-- The value of a signal: that of a literal, or that of its node, read by its kind and width. -/
def value? (s : Signal) : Option Value :=
  T.left.signals.value? T.start.context T.settled s

/-- The description makes the call in the world `before`, with the result `r`, and is then at
    `after`. -/
def Calls (use : Script.Call) (r : Script.Answer × Option Draft.Bundle)
    (before after : Script.World) : Prop :=
  Script.Calls use r before after (.script T.script) (T.start.world T.name T.settings)

/-- The value of a signal when a script is tried out. -/
def tryValue? (s : Script) (gs : List Bench.Setting) (x : Signal) : Option Value := do
  let (_, m) ← s.describe? .empty "t" .default
  let (_, e) ← Bench.tryOut? s gs
  m.signals.value? Script.Memory.empty.context e x

/-- The trial is that of the script on its own, under default settings. -/
structure Tries (s : Script) (gs : List Bench.Setting) : Prop where
  start_eq : T.start = .empty
  script_eq : T.script = s
  name_eq : T.name = "t"
  settings_eq : T.settings = .default
  value?_eq : ∀ x, T.value? x = tryValue? s gs x

/-- What has been tried out is a trial. -/
theorem exists_tries {s : Script} {gs : List Bench.Setting}
    (htry : (Bench.tryOut? s gs).any (fun (b, _) => b.circuit.nodes.length ≤ 2 ^ 32) = true) :
    ∃ T : Trial, T.Tries s gs := by
  obtain ⟨⟨b, e⟩, hbe, hsize⟩ := (Option.any_eq_true _ _).1 htry
  obtain ⟨o, m', hdescribe, hc, hb, hrun⟩ := Bench.tryOut?_eq_some hbe
  refine ⟨⟨.empty, s, "t", .default, o, m', gs, b, e, .empty, hdescribe, hc,
    of_decide_eq_true hsize, hb, hrun⟩, rfl, rfl, rfl, rfl, fun x => ?_⟩
  simp [tryValue?, hdescribe, hbe, value?]

section Tries

variable {T} {s : Script} {gs : List Bench.Setting} (h : T.Tries s gs) {n : Nat} {use : Script.Call}
  (huse : s.call? n = some use)

include h huse

/-- The call at a place of a script without chains. -/
theorem Tries.made {r : Script.Answer × Option Draft.Bundle} {before after : Script.World}
    (hmade : s.made? n (Script.Memory.empty.world "t" .default) = some (r, before, after)) :
    T.Calls use r before after := by
  unfold Calls
  rw [h.start_eq, h.script_eq, h.name_eq, h.settings_eq]
  exact Script.calls_of_made? huse hmade

/-- The same with the signals that it takes and makes. -/
theorem Tries.calls {a b : String} {x y z : Signal}
    (hsignals : s.signals? n (Script.Memory.empty.world "t" .default) a b = some (x, y, z)) :
    ∃ r before after, T.Calls use r before after ∧
      before.values.lookup a = some (.leaf x) ∧ before.values.lookup b = some (.leaf y) ∧
      r.2 = some (.leaf z) := by
  obtain ⟨r, before, after, hmade, hx, hy, hz⟩ := Script.made_of_signals? hsignals
  exact ⟨r, before, after, h.made huse hmade, hx, hy, hz⟩

end Tries

theorem solution : T.bench.Solution T.settled :=
  (Bench.settled_solution T.reached T.describes T.returns T.size T.prepared T.settles).1

theorem inRange : T.bench.InRange T.settled.values := Bench.run_inRange T.prepared T.settles

theorem elaborated : T.bench.Elaborated :=
  T.prepared.elaborated_of_describe? T.reached T.describes T.returns T.size

/-! ## What is known of values -/

section Values

variable {T} {s : Signal} {v : Value}

theorem signed_of_value? (h : T.value? s = some v) : v.signed = s.kind.isSigned := by
  unfold value? Signals.value? at h
  split at h
  · exact Option.some.inj h ▸ rfl
  · split at h
    · simp only [Option.bind_eq_bind, Option.bind_eq_some_iff] at h
      obtain ⟨n, -, W, -, hv⟩ := h
      exact Option.some.inj hv ▸ rfl
    · cases h
  · cases h

theorem width_of_value? (h : T.value? s = some v) {w : UInt32} (hw : s.width = .known w) :
    v.width = w.toNat := by
  unfold value? Signals.value? at h
  rw [hw] at h
  split at h
  · exact Option.some.inj h ▸ rfl
  · split at h
    · simp only [Width.get?, Option.bind_eq_bind, Option.bind_eq_some_iff] at h
      obtain ⟨n, -, W, hW, hv⟩ := h
      obtain rfl := Option.some.inj hW
      exact Option.some.inj hv ▸ rfl
    · cases h
  · cases h

/-- A literal has its value from the start. -/
theorem value?_of_literal {b : Bits} (h : s.literal = some b) :
    T.value? s = some ⟨b.value, (s.width.get?.getD b.width).toNat, s.kind.isSigned⟩ := by
  have hstanding : T.left.signals.standing s = .literal b := by simp [Signals.standing, h]
  simp only [value?, Signals.value?, hstanding]

theorem value?_of_bound {b : Binding} (h : T.left.signals.standing s = .bound b)
    (hc : b.context = T.start.context) {n : Nat} (hn : T.settled.value? b.id = some n) {w : UInt32}
    (hw : s.width = .known w) : T.value? s = some ⟨n, w.toNat, s.kind.isSigned⟩ := by
  simp [value?, Signals.value?, h, hc, hn, hw, Width.get?]

/-- The value of a signal that has one within its width. -/
structure Has (T : Trial) (s : Signal) (v : Value) : Prop where
  value : T.value? s = some v
  fits : v.Fits

end Values

/-! ## Sessions on the way -/

/-- The description has been through the session: what it has is there at the end, and nothing has been
    reported so far. -/
structure Passed (w : Session) : Prop where
  context_eq : w.draft.context = T.start.context
  later : Signals.Later T.start.context w.signals T.left.signals
  nodes : w.draft.nodes <+: T.bench.circuit.nodes
  commands : w.draft.commands <+: T.bench.circuit.commands
  clean : w.draft.sink.errorCount = 0

variable {T}

namespace Calls

variable {use : Script.Call} {r : Script.Answer × Option Draft.Bundle} {before after : Script.World}

/-- A call finds a proper session. -/
theorem proper (h : T.Calls use r before after) : before.session.Proper before.around :=
  Script.Calls.kept h Session.stable_proper (fun _ _ _ => Session.mark_proper)
    (T.reached.proper T.name T.settings)

/-- What a call makes is seen in the circuit. -/
theorem passed (h : T.Calls use r before after) : T.Passed after.session := by
  have hafter : Script.Holding Session.Lawful (Script.answered r) after :=
    (Script.makes_meaning Session.stable_lawful use).of_ok h.proper.lawful h.call
  have hbefore : before.session.NumberedUpTo T.start.context :=
    Script.Calls.kept h Session.closed_numbered.stable (fun _ _ _ => Session.mark_numbered)
      ⟨rfl, fun e he => Nat.le_of_lt (T.reached.fresh e he)⟩
  have hcontext : after.session.NumberedUpTo T.start.context :=
    (Script.makes_meaning Session.closed_numbered.stable use).of_ok hbefore h.call
  obtain ⟨w, ⟨-, honward⟩, hleft, hfinish⟩ := Script.Calls.finished h
    (Session.stable_after after.session) (fun _ _ _ => Session.mark_after)
    ⟨hafter.registered, .refl _⟩ T.describes T.returns
  have herrors := honward.errors
  rw [Script.errorCount_of_finish hfinish] at herrors
  obtain ⟨hcircuit, -⟩ := Script.finish_eq_ok hfinish
  refine ⟨hcontext.context_eq, ?_, ?_, ?_, Nat.le_zero.1 herrors⟩
  · rw [hleft]
    exact hcontext.context_eq ▸ honward.later
  · rw [hcircuit]
    exact honward.nodes
  · rw [hcircuit]
    exact honward.commands

end Calls

namespace Passed

variable {L made : List Signal} {w w' : Session}

/-- The description has been through whatever was before. -/
theorem back (h : T.Passed w') (ho : w.Onward w') : T.Passed w where
  context_eq := ho.context_eq.symm.trans h.context_eq
  later := by
    have hcontext : w.draft.context = T.start.context := ho.context_eq.symm.trans h.context_eq
    exact (hcontext ▸ ho.later).trans h.later
  nodes := ho.nodes.trans h.nodes
  commands := ho.commands.trans h.commands
  clean := Nat.le_zero.1 (h.clean ▸ ho.errors)

theorem back_step (h : T.Passed w') (hstep : Step L w made w') (hw : w.Proper L) : T.Passed w :=
  h.back (Session.step_onward hstep hw.lawful.registered)

/-- The nodes of the session are nodes of the circuit. -/
theorem node? (h : T.Passed w) {id : NodeId} {n : Node}
    (hn : w.draft.nodes[id.index.toNat]? = some n) : T.bench.circuit.node? id = some n := by
  obtain ⟨more, hmore⟩ := h.nodes
  rw [Circuit.node?, ← hmore]
  exact Draft.getElem?_append_of_eq_some more hn

theorem command? (h : T.Passed w) {i : Nat} {cmd : Command}
    (hcmd : w.draft.commands[i]? = some cmd) : T.bench.circuit.commands[i]? = some cmd := by
  obtain ⟨more, hmore⟩ := h.commands
  rw [← hmore]
  exact Draft.getElem?_append_of_eq_some more hcmd

theorem consistent (h : T.Passed w) (hw : w.Proper L) : w.Consistent L :=
  hw.lawful.consistent (Nat.le_trans h.nodes.length_le T.size)

/-- A node of the circuit has a value. -/
theorem value?_node {id : NodeId} {n : Node} (hn : T.bench.circuit.node? id = some n) :
    T.settled.value? id = some (Bench.valueAt T.settled.values id) := by
  have hlt : id.index.toNat < T.settled.values.length := by
    rw [T.solution.solves.length]
    exact (List.getElem?_eq_some_iff.1 hn).1
  rw [Bench.Settled.value?, Bench.valueAt, List.getD_eq_getElem?_getD, List.getElem?_eq_getElem hlt]
  rfl

/-- A signal that is bound on the way has the value of its node. -/
theorem value?_bound (h : T.Passed w) {s : Signal} {b : Binding}
    (hb : w.signals.standing s = .bound b) (hc : b.context = w.draft.context) {n : Node}
    (hn : w.draft.nodes[b.id.index.toNat]? = some n) (hty : n.ty = s.ty) {W : Nat}
    (hW : T.bench.width b.id = .ok W) :
    T.value? s = some ⟨Bench.valueAt T.settled.values b.id, W, s.kind.isSigned⟩ := by
  have hstanding : T.left.signals.standing s = .bound b :=
    (h.later.kept s (by rw [hb]; nofun)).trans hb
  have hnode := h.node? hn
  obtain ⟨m, kind, w', hm, hmty, rfl⟩ := Bench.width_eq_ok.1 hW
  obtain rfl := Option.some.inj (hm.symm.trans hnode)
  obtain ⟨-, hwidth⟩ := Ty.element.inj (hty.symm.trans hmty)
  exact value?_of_bound hstanding (hc.trans h.context_eq) (value?_node hnode) hwidth

/-- A signal that is bound to a node of known value has this value and the width of the node. -/
theorem value?_computed (h : T.Passed w) {s : Signal} {b : Binding}
    (hb : w.signals.standing s = .bound b) (hc : b.context = w.draft.context) {n : Node}
    (hn : w.draft.nodes[b.id.index.toNat]? = some n) (hty : n.ty = s.ty) {W v : Nat}
    (hW : T.bench.width b.id = .ok W) (hv : Bench.nodeValue? T.settled.values b.id = some v) :
    ∃ u, s.width = .known u ∧ W = u.toNat ∧ u.toNat ≤ Value.maxWidth ∧
      T.value? s = some ⟨v, u.toNat, s.kind.isSigned⟩ := by
  have hnode := h.node? hn
  obtain ⟨m, kind, u, hm, hmty, rfl⟩ := Bench.width_eq_ok.1 hW
  obtain rfl := Option.some.inj (hm.symm.trans hnode)
  obtain ⟨-, hwidth⟩ := Ty.element.inj (hty.symm.trans hmty)
  obtain ⟨W', hW', hle⟩ := T.prepared.exists_width hnode ⟨_, _, hmty⟩
  obtain rfl := Except.ok.inj (hW.symm.trans hW')
  have hat : some (Bench.valueAt T.settled.values b.id) = some v := (value?_node hnode).symm.trans hv
  refine ⟨u, hwidth, rfl, hle, ?_⟩
  rw [h.value?_bound hb hc hn hty hW, Option.some.inj hat]

/-- **Operands have the values of their signals.**  Whenever a command reads a signal and the evaluator
    has a value for the operand, this is the value of the signal, and it fits. -/
theorem reads (h : T.Passed w) (hw : w.Proper L) {s : Signal} (hs : s ∈ L) {a : Operand}
    (ha : w.Reads s a) {v : Value} (hv : T.bench.value? T.settled.values a = some v) :
    T.Has s v := by
  refine ⟨?_, T.prepared.fits T.inRange hv⟩
  cases ha with
  | @literal b hb =>
    obtain ⟨-, rfl⟩ := Constant.constant_eq_ok (Bench.value?_constant.1 hv)
    rw [value?_of_literal hb, Nat.mod_eq_of_lt]
    -- a payload that suits is not cut
    have hsuits := (hw.suited.signals s hs).payload b hb
    cases hwidth : s.width with
    | unknown => exact b.value_lt
    | known W =>
      rw [hwidth] at hsuits
      exact hsuits.value_lt
  | @node b hb hc =>
    obtain ⟨n, W, hn, hW, rfl⟩ := Bench.value?_node.1 hv
    obtain ⟨m, hm, -, hty⟩ := (h.consistent hw).bound s hs b hb hc
    obtain rfl := Option.some.inj (hn.symm.trans (h.node? hm))
    rw [h.value?_bound hb hc hm hty hW, hty]
    cases hkind : s.kind <;> simp [Signal.ty, Ty.kind?, Kind.isSigned, hkind]

theorem reads_all (h : T.Passed w) (hw : w.Proper L) {ss : List Signal} (hss : ss ⊆ L)
    {as : List Operand} (hreads : List.Forall₂ w.Reads ss as) : ∀ {vs : List Value},
      as.mapM (T.bench.value? T.settled.values) = some vs →
        List.Forall₂ T.Has ss vs := by
  induction hreads with
  | nil =>
    intro vs hvs
    obtain rfl := Option.some.inj hvs
    exact .nil
  | cons ha _ ih =>
    intro vs hvs
    obtain ⟨hs, hrest⟩ := List.cons_subset.1 hss
    simp only [List.mapM_cons, Option.bind_eq_bind, Option.bind_eq_some_iff] at hvs
    obtain ⟨v, hv, vs', hvs', hpure⟩ := hvs
    obtain rfl := Option.some.inj hpure
    exact .cons (h.reads hw hs ha hv) (ih hrest hvs')

/-- **What an operator makes** has the value that the operator has on the values of its operands, cut to
    the width of its own. -/
theorem result {op : Operator} {ss : List Signal} {args : List Operand} {kind : Kind} {width : Width}
    (h : T.Passed (w.defined op args kind width)) (hw : w.Proper L) (hss : ss ⊆ L)
    (hreads : List.Forall₂ w.Reads ss args) (harity : ss.length = op.arity) :
    ∃ vs W, List.Forall₂ T.Has ss vs ∧
      Signals.groundWidth kind width = .known W ∧ W.toNat ≤ Value.maxWidth ∧
      T.value? (w.resultSignal kind width) =
        some ⟨op.apply vs W.toNat, W.toNat, kind.isSigned⟩ := by
  let s := w.resultSignal kind width
  have hstep : Step L w [s] (w.defined op args kind width) :=
    .define op ss args kind width hreads harity hss
  have hpassed := h.back_step hstep hw
  -- the entry of the result, its binding, and the command that computes it
  have hlen : w.draft.nodes.length < 2 ^ 32 := by
    have hle := Nat.le_trans h.nodes.length_le T.size
    change (w.draft.nodes ++ [_]).length ≤ _ at hle
    rw [List.length_append, List.length_singleton] at hle
    omega
  have hindex : w.draft.nextId.index.toNat = w.draft.nodes.length := Draft.toNat_idAt hlen
  have hentry : (w.defined op args kind width).draft.nodes[w.draft.nextId.index.toNat]? =
      some (Session.resultNode s .defined) := by
    rw [hindex]
    exact List.getElem?_concat_length
  have hbound : (w.defined op args kind width).signals.standing s =
      .bound ⟨.result, w.draft.context, w.draft.nextId⟩ := Signals.standing_bind _ _ _ rfl
  have hcommand : T.bench.circuit.commands[w.draft.commands.length]? =
      some (.defPrim w.draft.nextId op args) := h.command? List.getElem?_concat_length
  have hholds := T.solution.solves.operators _ _ _ _ hcommand
  rw [Bench.operatorHolds_ground (h.node? hentry) ⟨_, _, rfl⟩] at hholds
  obtain ⟨W, vs, hW, hvs, hvalue⟩ := hholds
  obtain ⟨u, hwidth, rfl, hle, hs⟩ := h.value?_computed hbound rfl hentry rfl hW hvalue
  exact ⟨vs, u, hpassed.reads_all hw hss hreads hvs, hwidth, hle, hs⟩

end Passed

end Trial

end Circuitry
