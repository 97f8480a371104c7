/-
  Any circuit can be tried.

  A circuit that is read back need not be one that a description returns.  It may name nodes that are not
  there, define a node twice, give an operator too many operands, or call something an input that is none.
  As long as its payloads are well formed, trying it comes to a result or to a fault, and what it finds
  keeps within the widths of the nodes (`any_circuit`).

  1. A fault comes up at its own stage (`Fault.arisesIn`): reading the circuit, giving values, or running;
  2. values are given one after the other, and a refusal leaves the bench as it is (`giveAll`);
  3. what a run finds is within the widths, as a number and with a sign (`inBounds`).
-/
import Circuitry.Proofs.Bench.Careful

namespace Circuitry.Bench

/-! ## Faults by stage -/

/-- What is being done with a circuit. -/
inductive Stage where
  | preparing
  | giving
  | running
  deriving DecidableEq, Repr

/-- Whether a fault can come up at a stage. -/
def Fault.arisesIn : Fault → Stage → Bool
  | .region _, .preparing | .unknownWidth _, .preparing | .tooWide _, .preparing => true
  | .unknownName _ _, .giving | .danglingNode _, .giving => true
  | .danglingNode _, .running | .malformedOperands _ _, .running | .tooWide _, .running
  | .noConvergence _, .running => true
  | _, _ => false

section Faults

variable {b : Bench} {f : Fault}

theorem checkNode_arises {id : NodeId} {n : Node} (h : checkNode id n = .error f) :
    f.arisesIn .preparing = true := by
  unfold checkNode at h
  split at h
  · cases h
  · obtain rfl := Except.error.inj h
    rfl
  · split at h
    · cases h
    · obtain rfl := Except.error.inj h
      rfl

theorem of_arises {c : Circuit} (h : Bench.of c = .error f) : f.arisesIn .preparing = true := by
  unfold Bench.of at h
  split at h
  · obtain rfl := Except.error.inj h
    rfl
  · rcases bind_eq_error.1 h with hcheck | ⟨_, -, h⟩
    · obtain ⟨e, -, hfail⟩ := forM_eq_error hcheck
      exact checkNode_arises hfail
    · cases h

theorem width_arises {id : NodeId} (h : b.width id = .error f) : f.arisesIn .giving = true := by
  obtain ⟨rfl, -⟩ := width_error h
  rfl

theorem set_arises {g : Setting} (h : b.set g = .error f) : f.arisesIn .giving = true := by
  cases g with
  | input name n =>
    change b.setInput name n = .error f at h
    unfold setInput at h
    split at h
    · obtain rfl := Except.error.inj h
      rfl
    · rcases bind_eq_error.1 h with hw | ⟨_, -, h⟩
      · exact width_arises hw
      · cases h
  | register name n =>
    change b.setRegister name n = .error f at h
    unfold setRegister at h
    split at h
    · obtain rfl := Except.error.inj h
      rfl
    · rcases bind_eq_error.1 h with hw | ⟨_, -, h⟩
      · exact width_arises hw
      · cases h

theorem OperandFault.arises {i : Nat} {a : Operand} (h : b.OperandFault i a f) :
    f.arisesIn .running = true := by
  cases h <;> rfl

theorem CommandFault.arises {i : Nat} {cmd : Command} (h : b.CommandFault i cmd f) :
    f.arisesIn .running = true := by
  cases h with
  | operand _ _ _ fault => exact fault.arises
  | leaf _ _ _ fault => exact fault.arises
  | source fault => exact fault.arises
  | predicate fault => exact fault.arises
  | _ => rfl

theorem run_arises (h : b.run = .error f) : f.arisesIn .running = true := by
  rcases settle_error h with rfl | ⟨⟨i, pred⟩, -, hfault⟩
  · rfl
  cases pred with
  | none =>
    obtain ⟨cmd, -, hfault⟩ := hfault
    exact hfault.arises
  | some pred => exact OperandFault.arises hfault

end Faults

/-! ## Giving values -/

/-- Gives values one after the other.  What cannot be given is passed over. -/
def giveAll (b : Bench) (gs : List Setting) : Bench :=
  gs.foldl (fun b g => (b.set g).toOption.getD b) b

/-- A bench is prepared after whatever has been tried to be given. -/
theorem exists_prepared {c : Circuit} : ∀ {gs : List Setting} {b : Bench} {before : List Setting},
    Prepared c before b → ∃ after, Prepared c after (b.giveAll gs)
  | [], _, _, h => ⟨_, h⟩
  | g :: gs, b, _, h => by
    show ∃ after, Prepared c after (((b.set g).toOption.getD b).giveAll gs)
    cases hset : b.set g with
    | ok b' => exact exists_prepared (h.set g hset)
    | error f => exact exists_prepared h

/-! ## What is found -/

/-- The signed numbers of a width. -/
def SignedRange : Nat → Int → Prop
  | 0, i => i = 0
  | w + 1, i => -2 ^ w ≤ i ∧ i < 2 ^ w

theorem signedRange_of_inSpan {w : Nat} {i : Int} (h : InSpan true w i) : SignedRange w i := by
  obtain ⟨hlow, hhigh⟩ := h
  cases w with
  | zero =>
    show i = 0
    omega
  | succ w =>
    have hsucc := pow_succ_eq w
    exact ⟨by omega, by omega⟩

/-- What has been found for a node is a number of its width, also when it is read with a sign. -/
structure Settled.InBounds (e : Settled) (id : NodeId) (w : Nat) : Prop where
  value : ∃ n, e.value? id = some n ∧ n < 2 ^ w
  signed : ∃ i, e.signedValue? id = some i ∧ Careful.signedValue? e id = .ok (some i) ∧
    SignedRange w i

section Runs

variable {c : Circuit} {gs : List Setting} {b : Bench}

theorem sound_of_run (hb : Prepared c gs b) {e : Settled} (hrun : b.run = .ok e) :
    Careful.Sound b ⟨e.values, [], []⟩ ∧ e.circuit = c := by
  have hpass : ∀ values p, Careful.Sound b ⟨values, [], []⟩ →
      b.exec true b.block ⟨values, [], []⟩ = .ok p → Careful.Sound b ⟨b.drive p, [], []⟩ := by
    intro values p hvalues hexec
    have hp := hvalues.exec hexec
    exact ⟨length_drive hp.length, drive_inRange hp.inRange, List.forall_mem_nil _⟩
  obtain ⟨p, hsound, -, -, hcircuit, -⟩ :=
    Elaborated.settle_induction hpass b.passLimit (Careful.sound_initial hb) hrun
  exact ⟨hsound, hcircuit.trans hb.circuit_eq⟩

theorem inBounds (hb : Prepared c gs b) {e : Settled} (hrun : b.run = .ok e) {id : NodeId} {n : Node}
    {kind : Kind} {width : Width} (hn : c.node? id = some n) (hty : n.ty = .element kind width) :
    ∃ W, width = .known W ∧ e.InBounds id W.toNat := by
  obtain ⟨hsound, hcircuit⟩ := sound_of_run hb hrun
  obtain ⟨w, hw, hle⟩ := hb.exists_width hn ⟨kind, width, hty⟩
  obtain ⟨m, kind', W, hm, hmty, rfl⟩ := width_eq_ok.1 hw
  rw [hb.circuit_eq, hn] at hm
  obtain rfl := Option.some.inj hm
  obtain ⟨rfl, rfl⟩ := Ty.element.inj (hty.symm.trans hmty)
  have hlt : id.index.toNat < e.values.length := by
    rw [hsound.length]
    exact lt_of_width hw
  have hvalue : e.value? id = some e.values[id.index.toNat] := List.getElem?_eq_getElem hlt
  have hspan := Machine.inSpan_twosComplement W.toNat e.values[id.index.toNat]
  refine ⟨W, rfl, ⟨_, hvalue, hsound.inRange.values id _ hvalue _ hw⟩, _, ?_, ?_,
    signedRange_of_inSpan hspan⟩
  · simp [Settled.signedValue?, hcircuit, hn, hty, Ty.width?, Width.get?, hvalue]
  · simp only [Careful.signedValue?, hcircuit, hn, hty, Ty.width?, Width.get?, hvalue,
      Option.bind_some, Machine.signExtend_eq hle]
    show Except.ok (some (BitVec.ofInt Value.maxWidth _).toInt) = _
    rw [Machine.toInt_ofInt (hspan.mono hle)]

/-- **Any circuit can be tried.**  Where payloads are well formed, there is a bench for a circuit or a
    fault; whatever has been tried to be given to it, a machine takes the next value or refuses it as a
    bench does, and it runs as a bench does, to a result or a fault; and every ground node is found with a
    number of its width. -/
theorem any_circuit (hpayloads : ∀ a ∈ c.payloads, a.WellFormed) :
    (∀ f, Bench.of c = .error f → f.arisesIn .preparing = true) ∧
    ∀ b, Bench.of c = .ok b → ∀ gs : List Setting,
      (∀ g, Careful.set (b.giveAll gs) g = reported ((b.giveAll gs).set g) ∧
        ∀ f, (b.giveAll gs).set g = .error f → f.arisesIn .giving = true) ∧
      Careful.run (b.giveAll gs) = reported (b.giveAll gs).run ∧
      (∀ f, (b.giveAll gs).run = .error f → f.arisesIn .running = true) ∧
      ∀ e, (b.giveAll gs).run = .ok e → ∀ id n kind width, c.node? id = some n →
        n.ty = .element kind width → ∃ W, width = .known W ∧ e.InBounds id W.toNat := by
  refine ⟨fun f => of_arises, fun b hb gs => ?_⟩
  obtain ⟨after, hafter⟩ : ∃ after, Prepared c after (b.giveAll gs) := exists_prepared (.fresh hb)
  have hkept : ∀ a ∈ (b.giveAll gs).circuit.payloads, a.WellFormed := by
    rw [hafter.circuit_eq]
    exact hpayloads
  refine ⟨fun g => ⟨Careful.set_eq hafter g, fun f => set_arises⟩, Careful.run_eq hafter hkept,
    fun f => run_arises, fun e hrun id n kind width => inBounds hafter hrun⟩

end Runs

/-- A circuit that no description returns.  Its port names a wire, its result is defined twice, and where
    the region is enabled, a node that is not there is driven. -/
def tangled (enabled : UInt64) : Circuit where
  name := "t"
  nodes :=
    [⟨.element .sint (.known 4), .wire, some "w", .defined, .unknown⟩,
      ⟨.element .sint (.known 4), .result, none, .defined, .unknown⟩]
  ports := [⟨"a", .input, ⟨0⟩⟩]
  commands :=
    [.connect ⟨0⟩ (.constant ⟨.sint, .known 4, ⟨4, [8]⟩⟩),
      .defPrim ⟨1⟩ .sub [.node ⟨0⟩, .node ⟨1⟩],
      .defPrim ⟨1⟩ .div [.node ⟨0⟩, .constant ⟨.sint, .known 4, ⟨4, [15]⟩⟩],
      .whenBegin (.constant ⟨.bool, .known 1, ⟨1, [enabled]⟩⟩) 0,
      .connect ⟨9⟩ (.node ⟨9⟩),
      .whenEnd 0]

theorem tangled_payloads (enabled : UInt64) (h : enabled.toNat < 2) :
    ∀ a ∈ (tangled enabled).payloads, a.WellFormed := by
  have hpayloads : (tangled enabled).payloads = [⟨4, [8]⟩, ⟨4, [15]⟩, ⟨1, [enabled]⟩] := rfl
  rw [hpayloads]
  rintro a (_ | ⟨_, _ | ⟨_, _ | ⟨_, ⟨⟩⟩⟩⟩)
  · exact ⟨by decide, by decide⟩
  · exact ⟨by decide, by decide⟩
  · exact ⟨show 1 = Bits.wordCount 1 by decide, by simpa [Words.toNat] using h⟩

/-- The least number of four bits, divided by the greatest that is negative, is itself again; and a node
    that is not there is a fault only where it is driven. -/
theorem tangled_tried : ∃ b b', Bench.of (tangled 0) = .ok b ∧ Bench.of (tangled 1) = .ok b' ∧
    (∃ e, Careful.run (b.giveAll [.input "a" 300, .register "a" 1]) = .ok e ∧ e.values = [8, 8] ∧
      e.InBounds ⟨1⟩ 4 ∧ e.signedValue? ⟨1⟩ = some (-8)) ∧
    Careful.run (b'.giveAll []) = .error (.fault (.danglingNode ⟨9⟩)) := by
  have hfirst : (Bench.of (tangled 0)).toOption.map
      (fun b => (b.giveAll [.input "a" 300, .register "a" 1]).run) =
        some (.ok ⟨tangled 0, [8, 8], [], [0, 1, 2, 3], 3⟩) := by
    decide +kernel
  have hsecond : (Bench.of (tangled 1)).toOption.map (fun b => (b.giveAll []).run) =
      some (.error (.danglingNode ⟨9⟩)) := by
    decide +kernel
  obtain ⟨b, hb, hrun⟩ := Option.map_eq_some_iff.1 hfirst
  obtain ⟨b', hb', hrun'⟩ := Option.map_eq_some_iff.1 hsecond
  obtain ⟨-, hall⟩ := any_circuit (tangled_payloads 0 (by decide))
  obtain ⟨-, hall'⟩ := any_circuit (tangled_payloads 1 (by decide))
  obtain ⟨-, hcareful, -, hfound⟩ := hall b (eq_ok_of_toOption hb) _
  obtain ⟨-, hcareful', -, -⟩ := hall' b' (eq_ok_of_toOption hb') []
  obtain ⟨W, hW, hbounds⟩ := hfound _ hrun ⟨1⟩ _ _ _ rfl rfl
  obtain rfl := Width.known.inj hW
  rw [hrun] at hcareful
  rw [hrun'] at hcareful'
  exact ⟨b, b', eq_ok_of_toOption hb, eq_ok_of_toOption hb',
    ⟨_, hcareful, rfl, hbounds, by decide +kernel⟩, hcareful'⟩

end Circuitry.Bench
