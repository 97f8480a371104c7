/-
  Benches on a machine.

  `Bench.run` is total because it never looks where it must not: a value that is not there counts as
  zero, and what is written nowhere is lost.  A machine would stop.  This file runs a bench on one: every
  table is reached through an index that is checked, payloads are taken from the words that hold them,
  and operators, cuts and signs are those of `Machine`.  Apart from that it does what `Bench` does, step
  by step, and it stops with a fault where `Bench` does, or else with a hazard (`Stop`).

  The hazards never come up: with payloads that are well formed, every step comes to what `Bench` comes
  to, fault or result (`reported`).

  1. `operand_eq` reads operands, for tables of the right length and within their widths;
  2. `execCommand_eq` takes a command, and `exec_eq` a block, by induction, where `Sound` is what the
     steps keep and what the next one relies on;
  3. `run_eq` and `set_eq` say it of whole runs and of the values given before.

  Reading regions back and checking widths (`Bench.of`) has no index, shift or division to be careful
  about.
-/
import Circuitry.Proofs.Bench.Faults
import Circuitry.Proofs.Bench.Range
import Circuitry.Proofs.Operator.Machine
import Circuitry.Proofs.Stored.Payloads

namespace Circuitry.Bench

/-- What stops a machine. -/
inductive Stop where
  | fault (f : Fault)
  | hazard (h : Hazard)
  deriving DecidableEq, Repr

/-- An action that is not stopped but by its own faults. -/
def reported {α : Type} (x : Except Fault α) : Except Stop α := x.mapError .fault

/-- An action that only hazards can stop. -/
def checked {α : Type} (x : Except Hazard α) : Except Stop α := x.mapError .hazard

namespace Careful

open Machine (found lowBits fitted)

/-! ## Operands -/

/-- One more bit of a payload, taken from the word that holds it. -/
def addBit (a : Bits) (x : Word) (i : Nat) : Except Hazard Word := do
  if ← found (a.bit? i) then return x ||| (← Machine.shifted (· <<< ·) 1 i) else return x

/-- The unsigned number of a payload, bit by bit, if it fits a word. -/
def unsigned (a : Bits) : Except Hazard (Option Word) :=
  if a.significantBits ≤ Value.maxWidth then
    some <$> (List.range (min a.width.toNat Value.maxWidth)).foldlM (addBit a) 0
  else .ok none

def constant (k : Constant) : Except Stop Value :=
  let w := k.width.get?.getD k.value.width
  if Value.maxWidth < w.toNat then .error (.fault (.tooWide w))
  else do
    match ← checked (unsigned k.value) with
    | none => .error (.fault (.tooWide k.value.width))
    | some x => return ⟨← checked (lowBits x w.toNat), w.toNat, k.kind.isSigned⟩

def operand (b : Bench) (values : List Nat) (index : Nat) : Operand → Except Stop Value
  | .node id =>
    match b.circuit.node? id with
    | none => .error (.fault (.danglingNode id))
    | some n => do
      let raw ← checked (found values[id.index.toNat]?)
      return ⟨raw, ← reported (b.width id), n.ty.kind? = some .sint⟩
  | .constant k => constant k
  | .aggregate _ => .error (.fault (.malformedOperands index .mux))

/-! ## One pass -/

/-- A place that is written must be there. -/
def place {α : Type} (xs : List α) (i : Nat) : Except Hazard Unit :=
  if i < xs.length then .ok () else .error .index

def write (p : Pass) (id : NodeId) (n : Nat) : Except Hazard Pass := do
  place p.values id.index.toNat
  return p.write id n

def mark (b : Bench) (p : Pass) (index : Nat) (active : Bool) : Except Hazard Pass := do
  place b.circuit.commands index
  return p.mark index active

def selectLeaves (b : Bench) (index : Nat) : List (NodeId × Operand) → Pass → Except Stop Pass
  | [], p => .ok p
  | (leaf, source) :: rest, p => do
    let v ← operand b p.values index source
    let w ← reported (b.width leaf)
    let n ← checked (fitted v w)
    selectLeaves b index rest (← checked (write p leaf n))

def execAggregate (b : Bench) (index : Nat) (result : NodeId) (op : Operator)
    (args : List Operand) (p : Pass) : Except Stop Pass :=
  let malformed := Stop.fault (.malformedOperands index op)
  match op, args with
  | .mux, [cond, .aggregate t, .aggregate f] => do
    let leaves := b.circuit.fieldNodes result
    if leaves.isEmpty then throw malformed
    if t.length ≠ leaves.length ∨ f.length ≠ leaves.length then throw malformed
    let holds := (← operand b p.values index cond).isTrue
    selectLeaves b index (leaves.zip (if holds then t else f)) p
  | _, _ => .error malformed

def execCommand (b : Bench) (index : Nat) (active : Bool) (cmd : Command) (p : Pass) :
    Except Stop Pass :=
  match cmd with
  | .defPrim result op args =>
    if args.length ≠ op.arity then .error (.fault (.malformedOperands index op))
    else
      match b.circuit.node? result with
      | none => .error (.fault (.danglingNode result))
      | some ⟨.aggregate _, _, _, _, _⟩ => execAggregate b index result op args p
      | some _ => do
        let operands ← args.mapM (operand b p.values index)
        let w ← reported (b.width result)
        let n ← checked (Machine.apply op operands w)
        checked (write p result n)
  | .connect target source =>
    if active then do
      let w ← reported (b.width target)
      let v ← operand b p.values index source
      return { p with drivers := (target, ← checked (fitted v w)) :: p.drivers }
    else .ok p
  | _ => .ok p

def exec (b : Bench) (active : Bool) : Block → Pass → Except Stop Pass
  | .empty, p => .ok p
  | .command i rest, p => do
    let p ← checked (mark b p i active)
    let p ← match b.circuit.commands[i]? with
      | none => pure p
      | some cmd => execCommand b i active cmd p
    exec b active rest p
  | .clause pred i body rest, p => do
    let p ← checked (mark b p i active)
    let holds := (← operand b p.values i pred).isTrue
    let p ← exec b (active && holds) body p
    exec b active rest p
  | .clauseElse pred i body alternative rest, p => do
    let p ← checked (mark b p i active)
    let holds := (← operand b p.values i pred).isTrue
    let p ← exec b (active && holds) body p
    let p ← exec b (active && !holds) alternative p
    exec b active rest p

/-! ## Runs -/

/-- Every wire and output has a place for its driver. -/
def drive (b : Bench) (p : Pass) : Except Hazard (List Nat) := do
  b.circuit.numbered.forM fun (id, n) =>
    if isDriven n.role then place p.values id.index.toNat else .ok ()
  return b.drive p

/-- Whatever has been given has a place. -/
def initial (b : Bench) : Except Hazard (List Nat) := do
  (b.inputs ++ b.state).forM fun (id, _) => place b.circuit.nodes id.index.toNat
  return b.initial

def settle (b : Bench) : (left : Nat) → (values : List Nat) → Except Stop Settled
  | 0, _ => .error (.fault (.noConvergence b.passLimit))
  | left + 1, values => do
    let p ← exec b true b.block ⟨values, [], []⟩
    let after ← checked (drive b p)
    if after = values then
      return ⟨b.circuit, after, b.nextState p, p.active.reverse, b.passLimit - left⟩
    else settle b left after

def run (b : Bench) : Except Stop Settled := do settle b b.passLimit (← checked (initial b))

/-- Gives a value, a word of which is cut to the width of its place. -/
def set (b : Bench) : Setting → Except Stop Bench
  | .input name n =>
    match b.circuit.inputs.find? (·.name = name) with
    | none => .error (.fault (.unknownName .inputPort name))
    | some port => do
      let w ← reported (b.width port.node)
      return { b with inputs := (port.node, ← checked (lowBits (.ofNat _ n) w)) :: b.inputs }
  | .register name n =>
    match register? b.circuit name with
    | none => .error (.fault (.unknownName .register name))
    | some id => do
      let w ← reported (b.width id)
      return { b with state := (id, ← checked (lowBits (.ofNat _ n) w)) :: b.state }

/-- The value of a ground node in two's complement. -/
def signedValue? (e : Settled) (id : NodeId) : Except Hazard (Option Int) :=
  match (e.circuit.node? id).bind fun n => n.ty.width?.bind Width.get?, e.value? id with
  | some w, some n => do return some (← Machine.signExtend (.ofNat _ n) w.toNat).toInt
  | _, _ => .ok none

/-! ## Actions without hazards -/

section Actions

variable {α β : Type}

/-- Where the first action is not stopped but by its own faults, it is enough to look at what comes
    after its results. -/
theorem reported_bind {x : Except Fault α} {f : α → Except Fault β} {f' : α → Except Stop β}
    (h : ∀ a, x = .ok a → f' a = reported (f a)) :
    (reported x >>= f') = reported (x >>= f) := by
  cases x with
  | ok a => exact h a rfl
  | error e => rfl

theorem mapM_reported {f : α → Except Fault β} {f' : α → Except Stop β} : ∀ {xs : List α},
    (∀ x ∈ xs, f' x = reported (f x)) → xs.mapM f' = reported (xs.mapM f)
  | [], _ => rfl
  | x :: xs, h => by
    rw [List.forall_mem_cons] at h
    rw [List.mapM_cons, List.mapM_cons, h.1]
    refine reported_bind fun y _ => ?_
    rw [mapM_reported h.2]
    exact reported_bind fun ys _ => rfl

theorem forM_ok {ε : Type} {f : α → Except ε Unit} : ∀ {xs : List α},
    (∀ x ∈ xs, f x = .ok ()) → xs.forM f = .ok ()
  | [], _ => rfl
  | x :: xs, h => by
    rw [List.forall_mem_cons] at h
    show (f x >>= fun _ => xs.forM f) = _
    rw [h.1]
    exact forM_ok h.2

theorem place_eq {xs : List α} {i : Nat} (h : i < xs.length) : place xs i = .ok () := if_pos h

end Actions

/-! ## Payloads -/

/-- One more bit of a number. -/
theorem mod_two_pow_succ (n i : Nat) :
    n % 2 ^ (i + 1) = if n.testBit i then n % 2 ^ i ||| 1 <<< i else n % 2 ^ i := by
  refine Nat.eq_of_testBit_eq fun j => ?_
  rw [apply_ite (Nat.testBit · j)]
  rcases Nat.lt_trichotomy j i with h | rfl | h
  · simp [Nat.testBit_mod_two_pow, h, Nat.lt_succ_of_lt h, Nat.testBit_shiftLeft, Nat.not_le_of_lt h]
  · cases hj : n.testBit j <;> simp [Nat.testBit_mod_two_pow, hj, Nat.testBit_shiftLeft]
  · have hone : Nat.testBit 1 (j - i) = false :=
      Nat.testBit_lt_two_pow (Nat.one_lt_two_pow (Nat.sub_ne_zero_of_lt h))
    simp [Nat.testBit_mod_two_pow, Nat.not_lt_of_lt h, Nat.not_lt_of_le (Nat.succ_le_of_lt h),
      Nat.testBit_shiftLeft, hone]

theorem addBit_eq {a : Bits} (h : a.WellFormed) {i : Nat} (hi : i < Value.maxWidth) :
    addBit a (.ofNat _ (a.value % 2 ^ i)) i = .ok (.ofNat _ (a.value % 2 ^ (i + 1))) := by
  have hbit : (1 : Word) <<< i = .ofNat _ (1 <<< i) := Machine.shiftLeft_ofNat 1 i
  rw [addBit, h.bit?_eq, Machine.shifted_eq hi, hbit, mod_two_pow_succ, Bits.get]
  cases hset : a.value.testBit i with
  | true =>
    rw [if_pos rfl, BitVec.ofNat_or]
    rfl
  | false => rfl

/-- The low bits of a payload, up to the place that the loop has come to. -/
theorem foldlM_addBit {a : Bits} (h : a.WellFormed) : ∀ {places : Nat},
    places ≤ Value.maxWidth → (List.range places).foldlM (addBit a) 0 =
      .ok (.ofNat _ (a.value % 2 ^ places))
  | 0, _ => by
    rw [Nat.pow_zero, Nat.mod_one]
    rfl
  | places + 1, hle => by
    rw [List.range_succ, List.foldlM_append, foldlM_addBit h (Nat.le_of_succ_le hle)]
    show [places].foldlM (addBit a) _ = _
    rw [List.foldlM_cons, addBit_eq h hle]
    rfl

/-- A payload is read as the number that it stands for. -/
theorem unsigned_eq {a : Bits} (h : a.WellFormed) :
    unsigned a = .ok (a.toUnsigned?.map (BitVec.ofNat Value.maxWidth)) := by
  unfold unsigned Bits.toUnsigned?
  split
  · have hlow : BitVec.ofNat Value.maxWidth (a.value % 2 ^ min a.width.toNat Value.maxWidth) =
        .ofNat _ a.value := by
      rcases Nat.le_total a.width.toNat Value.maxWidth with hle | hle
      · rw [Nat.min_eq_left hle, Nat.mod_eq_of_lt a.value_lt]
      · rw [Nat.min_eq_right hle]
        exact BitVec.eq_of_toNat_eq (by rw [BitVec.toNat_ofNat, BitVec.toNat_ofNat, Nat.mod_mod])
    rw [foldlM_addBit h (Nat.min_le_right _ _), hlow]
    rfl
  · rfl

theorem constant_eq {k : Constant} (h : k.value.WellFormed) :
    constant k = reported (Bench.constant k) := by
  unfold constant Bench.constant
  dsimp only
  split
  · rfl
  next hle =>
  rw [unsigned_eq h]
  cases hn : k.value.toUnsigned? with
  | none => rfl
  | some n =>
    have hlow := Machine.lowBits_ofInt n (Nat.le_of_not_lt hle)
    rw [BitVec.ofInt_natCast] at hlow
    show (do return ⟨← checked (lowBits (.ofNat _ n) _), _, _⟩ : Except Stop Value) = _
    rw [hlow]
    rfl

/-- What holds of the constants of operands holds of those of each. -/
theorem forall_mem_operandsConstants {P : Constant → Prop} {as : List Operand} :
    (∀ k ∈ operandsConstants as, P k) ↔ ∀ a ∈ as, ∀ k ∈ a.constants, P k := by
  induction as with
  | nil => simp [operandsConstants]
  | cons a as ih => simp only [operandsConstants, List.forall_mem_append, ih, List.forall_mem_cons]

/-! ## One pass -/

/-- What the steps of a pass keep: every node has a value, and it is one that the node can hold. -/
structure Sound (b : Bench) (p : Pass) : Prop where
  length : p.values.length = b.circuit.nodes.length
  inRange : p.InRange b

namespace Sound

variable {b : Bench} {p : Pass}

theorem write (h : Sound b p) {id : NodeId} {w : Nat} (hw : b.width id = .ok w) (i : Int) :
    Sound b (p.write id (cut w i)) :=
  ⟨(sameExcept_write p id _).length.trans h.length, h.inRange.write (holds_cut hw i)⟩

theorem mark (h : Sound b p) (i : Nat) (active : Bool) : Sound b (p.mark i active) :=
  ⟨by rw [values_mark, h.length], h.inRange.mark i active⟩

theorem execCommand (h : Sound b p) {i : Nat} {active : Bool} {cmd : Command} {p' : Pass}
    (hcmd : b.circuit.commands[i]? = some cmd) (hexec : b.execCommand i active cmd p = .ok p') :
    Sound b p' := by
  have hexecuted := executed_of_execCommand hexec
  exact ⟨(hexecuted.sameExcept hcmd).length.trans h.length, hexecuted.inRange h.inRange⟩

theorem exec (h : Sound b p) {blk : Block} {active : Bool} {p' : Pass}
    (hexec : b.exec active blk p = .ok p') : Sound b p' :=
  ⟨(exec_sameExcept blk hexec).length.trans h.length, exec_inRange blk hexec h.inRange⟩

end Sound

section Passes

variable {c : Circuit} {gs : List Setting} {b : Bench} (hb : Prepared c gs b)

theorem operand_eq {values : List Nat} (hlen : values.length = b.circuit.nodes.length) {a : Operand}
    (ha : ∀ k ∈ a.constants, k.value.WellFormed) (i : Nat) :
    operand b values i a = reported (b.operand values i a) := by
  cases a with
  | node id =>
    cases hn : b.circuit.node? id with
    | none =>
      simp only [operand, Bench.operand, hn]
      rfl
    | some n =>
      have hlt : id.index.toNat < values.length := by
        rw [hlen]
        exact (List.getElem?_eq_some_iff.1 hn).1
      simp only [operand, Bench.operand, hn, valueAt, List.getD_eq_getElem?_getD,
        List.getElem?_eq_getElem hlt]
      exact reported_bind fun w _ => rfl
  | constant k => exact constant_eq (ha k (List.mem_singleton_self k))
  | aggregate as => rfl

theorem write_eq {p : Pass} (hp : Sound b p) {id : NodeId} {w : Nat} (hw : b.width id = .ok w)
    (n : Nat) : write p id n = .ok (p.write id n) := by
  have hlt : id.index.toNat < p.values.length := by
    rw [hp.length]
    exact lt_of_width hw
  rw [write, place_eq hlt]
  rfl

theorem mark_eq {i : Nat} (hi : i < b.circuit.commands.length) (p : Pass) (active : Bool) :
    mark b p i active = .ok (p.mark i active) := by
  rw [mark, place_eq hi]
  rfl

/-- Every operator has an operand. -/
theorem ne_nil_of_arity {op : Operator} {args : List Operand} (h : args.length = op.arity) :
    args ≠ [] := by
  rintro rfl
  cases op <;> cases h

/-- The constants of a command are among those of the circuit. -/
theorem constants_wellFormed (hpayloads : ∀ a ∈ b.circuit.payloads, a.WellFormed) {i : Nat}
    {cmd : Command} (hcmd : b.circuit.commands[i]? = some cmd) :
    ∀ k ∈ cmd.constants, k.value.WellFormed := by
  intro k hk
  refine hpayloads _ (List.mem_map.2 ⟨k, ?_, rfl⟩)
  exact List.mem_flatMap.2 ⟨cmd, List.mem_of_getElem? hcmd, hk⟩

/-- An entry of the table stands where its id says, or before, in a table too long for ids. -/
theorem drive_eq {p : Pass} (hp : Sound b p) : drive b p = .ok (b.drive p) := by
  have hplaces : (b.circuit.numbered.forM fun (id, n) =>
      if isDriven n.role then place p.values id.index.toNat else .ok ()) = .ok () := by
    refine forM_ok fun entry hentry => ?_
    obtain ⟨i, n, hn, rfl⟩ := Circuit.exists_of_mem_numbered hentry
    have hlt : (Draft.idAt i).index.toNat < p.values.length := by
      rw [hp.length]
      exact Nat.lt_of_le_of_lt (Nat.mod_le _ _) (List.getElem?_eq_some_iff.1 hn).1
    dsimp only
    split
    · exact place_eq hlt
    · rfl
  rw [drive, hplaces]
  rfl

include hb

theorem fitted_eq {p : Pass} (hp : Sound b p) {i w : Nat} {id : NodeId} {a : Operand} {v : Value}
    (hv : b.operand p.values i a = .ok v) (hw : b.width id = .ok w) :
    fitted v w = .ok (cut w v.reading) :=
  Machine.fitted_eq (hb.fits hp.inRange.values (operand_eq_ok.1 hv)) (hb.width_le hw)

theorem selectLeaves_eq (i : Nat) {pairs : List (NodeId × Operand)}
    (hpairs : ∀ pair ∈ pairs, ∀ k ∈ pair.2.constants, k.value.WellFormed) : ∀ {p : Pass},
    Sound b p → selectLeaves b i pairs p = reported (b.selectLeaves i pairs p) := by
  induction pairs with
  | nil => exact fun _ => rfl
  | cons pair rest ih =>
    intro p hp
    obtain ⟨leaf, source⟩ := pair
    rw [List.forall_mem_cons] at hpairs
    rw [selectLeaves, Bench.selectLeaves, operand_eq hp.length hpairs.1]
    refine reported_bind fun v hv => reported_bind fun w hw => ?_
    rw [fitted_eq hb hp hv hw]
    show (do selectLeaves b i rest (← checked (write p leaf _))) = _
    rw [write_eq hp hw]
    exact ih hpairs.2 (hp.write hw _)

theorem selection_eq (i : Nat) (result : NodeId) {cond : Operand} {t f : List Operand}
    (hcond : ∀ k ∈ cond.constants, k.value.WellFormed)
    (ht : ∀ a ∈ t, ∀ k ∈ a.constants, k.value.WellFormed)
    (hf : ∀ a ∈ f, ∀ k ∈ a.constants, k.value.WellFormed) {p : Pass} (hp : Sound b p) :
    execAggregate b i result .mux [cond, .aggregate t, .aggregate f] p =
      reported (b.execAggregate i result .mux [cond, .aggregate t, .aggregate f] p) := by
  simp only [execAggregate, Bench.execAggregate]
  by_cases hempty : (b.circuit.fieldNodes result).isEmpty = true
  · rw [if_pos hempty, if_pos hempty]
    rfl
  rw [if_neg hempty, if_neg hempty]
  by_cases hlen : t.length ≠ (b.circuit.fieldNodes result).length ∨
      f.length ≠ (b.circuit.fieldNodes result).length
  · rw [if_pos hlen, if_pos hlen]
    rfl
  rw [if_neg hlen, if_neg hlen, operand_eq hp.length hcond]
  refine reported_bind fun v _ => selectLeaves_eq hb i (fun pair hpair => ?_) hp
  have hsource := (List.of_mem_zip hpair).2
  split at hsource
  · exact ht _ hsource
  · exact hf _ hsource

theorem execAggregate_eq (i : Nat) (result : NodeId) (op : Operator) {args : List Operand}
    (hargs : ∀ a ∈ args, ∀ k ∈ a.constants, k.value.WellFormed) {p : Pass} (hp : Sound b p) :
    execAggregate b i result op args p = reported (b.execAggregate i result op args p) := by
  cases op with
  | mux =>
    -- only a condition with two aggregates is more than a fault
    rcases args with _ | ⟨cond, _ | ⟨x, _ | ⟨y, _ | ⟨z, rest⟩⟩⟩⟩
    · rfl
    · rfl
    · cases x <;> rfl
    · cases x with
      | aggregate t =>
        cases y with
        | aggregate f =>
          simp only [List.forall_mem_cons, Operand.constants, forall_mem_operandsConstants] at hargs
          obtain ⟨hcond, ht, hf, -⟩ := hargs
          exact selection_eq hb i result hcond ht hf hp
        | _ => rfl
      | _ => rfl
    · cases x <;> cases y <;> rfl
  | _ => rfl

/-- The values of operands fit. -/
theorem fits_of_mapM {p : Pass} (hp : Sound b p) {i : Nat} : ∀ {args : List Operand}
    {vs : List Value}, args.mapM (b.operand p.values i) = .ok vs →
      vs.length = args.length ∧ ∀ v ∈ vs, v.Fits
  | [], vs, h => by
    obtain rfl := Except.ok.inj h
    exact ⟨rfl, nofun⟩
  | a :: args, vs, h => by
    rw [List.mapM_cons] at h
    obtain ⟨v, hv, h⟩ := bind_eq_ok.1 h
    obtain ⟨rest, hrest, h⟩ := bind_eq_ok.1 h
    obtain rfl := Except.ok.inj h
    obtain ⟨hlength, hfits⟩ := fits_of_mapM hp hrest
    refine ⟨congrArg (· + 1) hlength, List.forall_mem_cons.2 ⟨?_, hfits⟩⟩
    exact hb.fits hp.inRange.values (operand_eq_ok.1 hv)

theorem execCommand_eq (i : Nat) (active : Bool) {cmd : Command}
    (hpayloads : ∀ k ∈ cmd.constants, k.value.WellFormed) {p : Pass} (hp : Sound b p) :
    execCommand b i active cmd p = reported (b.execCommand i active cmd p) := by
  have hoperands := forall_mem_operandsConstants.1 hpayloads
  cases cmd with
  | defPrim result op args =>
    by_cases harity : args.length ≠ op.arity
    · simp only [execCommand, Bench.execCommand, if_pos harity]
      rfl
    simp only [execCommand, Bench.execCommand, if_neg harity]
    cases hn : b.circuit.node? result with
    | none => rfl
    | some n =>
      obtain ⟨ty, role, name, origin, loc⟩ := n
      cases ty with
      | aggregate fs => exact execAggregate_eq hb i result op hoperands hp
      | element kind width =>
        have hargs : args.mapM (operand b p.values i) =
            reported (args.mapM (b.operand p.values i)) :=
          mapM_reported fun a ha => operand_eq hp.length (hoperands a ha) i
        dsimp only
        rw [hargs]
        refine reported_bind fun vs hvs => reported_bind fun w hw => ?_
        obtain ⟨hlength, hfits⟩ := fits_of_mapM hb hp hvs
        have hne : vs ≠ [] := by
          rintro rfl
          exact ne_nil_of_arity (Decidable.not_not.1 harity) (List.length_eq_zero_iff.1 hlength.symm)
        rw [Machine.apply_eq op hne hfits (hb.width_le hw)]
        show checked (write p result _) = _
        rw [write_eq hp hw]
        rfl
  | connect target source =>
    cases active with
    | false => rfl
    | true =>
      simp only [execCommand, Bench.execCommand, if_true]
      refine reported_bind fun w hw => ?_
      rw [operand_eq hp.length (hoperands source (List.mem_singleton_self _))]
      refine reported_bind fun v hv => ?_
      rw [fitted_eq hb hp hv hw]
      rfl
  | _ => rfl

/-- What a walk comes by is in the stream, and so are its constants. -/
theorem visited (hpayloads : ∀ a ∈ b.circuit.payloads, a.WellFormed) {v : Visit}
    (hv : v ∈ b.block.visits) : v.1 < b.circuit.commands.length ∧
      ∀ pred, v.2 = some pred → ∀ k ∈ pred.constants, k.value.WellFormed := by
  rw [Block.visits_ofCommands (hb.circuit_eq ▸ hb.block_eq), mem_streamVisits] at hv
  obtain ⟨i, cmd, hcmd, hv⟩ := hv
  rw [Nat.zero_add] at hv
  rw [fst_of_mem_visit hv]
  refine ⟨(List.getElem?_eq_some_iff.1 hcmd).1, fun pred hpred k hk => ?_⟩
  refine constants_wellFormed hpayloads hcmd k ?_
  -- a predicate is visited at the command that opens its region
  obtain ⟨j, begins⟩ := v
  subst hpred
  cases cmd with
  | whenBegin pred' depth =>
    obtain ⟨-, heq⟩ := Prod.mk.inj (List.mem_singleton.1 hv)
    obtain rfl := Option.some.inj heq
    exact List.mem_append_left _ hk
  | _ => simp [Command.visit] at hv

/-- A walk comes to the same. -/
theorem exec_eq (hpayloads : ∀ a ∈ b.circuit.payloads, a.WellFormed) (blk : Block) :
    ∀ {active : Bool} {p : Pass}, (∀ v ∈ blk.visits, v ∈ b.block.visits) → Sound b p →
      exec b active blk p = reported (b.exec active blk p) := by
  induction blk with
  | empty => exact fun _ _ => rfl
  | command i rest ih =>
    intro active p hvisits hp
    rw [Block.visits, List.forall_mem_cons] at hvisits
    obtain ⟨hi, -⟩ := visited hb hpayloads hvisits.1
    simp only [exec, Bench.exec]
    rw [mark_eq hi]
    have hmark := hp.mark i active
    cases hcmd : b.circuit.commands[i]? with
    | none => exact ih hvisits.2 hmark
    | some cmd =>
      show (execCommand b i active cmd _ >>= _) = _
      rw [execCommand_eq hb i active (constants_wellFormed hpayloads hcmd) hmark]
      exact reported_bind fun p₁ hp₁ => ih hvisits.2 (hmark.execCommand hcmd hp₁)
  | clause pred i body rest ihb ih =>
    intro active p hvisits hp
    rw [Block.visits, List.forall_mem_cons, List.forall_mem_append] at hvisits
    obtain ⟨hbegin, hbody, hrest⟩ := hvisits
    obtain ⟨hi, hpred⟩ := visited hb hpayloads hbegin
    simp only [exec, Bench.exec]
    rw [mark_eq hi]
    have hmark := hp.mark i active
    show (operand b _ i pred >>= _) = _
    rw [operand_eq hmark.length (hpred pred rfl)]
    refine reported_bind fun v _ => ?_
    rw [ihb hbody hmark]
    exact reported_bind fun p₁ hp₁ => ih hrest (hmark.exec hp₁)
  | clauseElse pred i body alternative rest ihb iha ih =>
    intro active p hvisits hp
    rw [Block.visits, List.forall_mem_cons, List.forall_mem_append, List.forall_mem_append]
      at hvisits
    obtain ⟨hbegin, hbody, halternative, hrest⟩ := hvisits
    obtain ⟨hi, hpred⟩ := visited hb hpayloads hbegin
    simp only [exec, Bench.exec]
    rw [mark_eq hi]
    have hmark := hp.mark i active
    show (operand b _ i pred >>= _) = _
    rw [operand_eq hmark.length (hpred pred rfl)]
    refine reported_bind fun v _ => ?_
    rw [ihb hbody hmark]
    refine reported_bind fun p₁ hp₁ => ?_
    have hsound := hmark.exec hp₁
    rw [iha halternative hsound]
    exact reported_bind fun p₂ hp₂ => ih hrest (hsound.exec hp₂)

/-! ## Runs -/

theorem initial_eq : initial b = .ok b.initial := by
  have hplaces : ((b.inputs ++ b.state).forM fun (id, _) =>
      place b.circuit.nodes id.index.toNat) = .ok () := by
    refine forM_ok fun e he => ?_
    -- only nodes that have a width have been given values
    obtain ⟨w, n, hw, -⟩ := hb.given_cut e he
    exact place_eq (lt_of_width hw)
  rw [initial, hplaces]
  rfl

theorem sound_initial : Sound b ⟨b.initial, [], []⟩ :=
  ⟨length_initial, initial_inRange hb, List.forall_mem_nil _⟩

theorem settle_eq (hpayloads : ∀ a ∈ b.circuit.payloads, a.WellFormed) : ∀ (left : Nat)
    {values : List Nat}, Sound b ⟨values, [], []⟩ →
      settle b left values = reported (b.settle left values)
  | 0, _, _ => rfl
  | left + 1, values, hvalues => by
    rw [settle, Bench.settle, exec_eq hb hpayloads _ (fun _ hv => hv) hvalues]
    refine reported_bind fun p hexec => ?_
    have hp := hvalues.exec hexec
    rw [drive_eq hp]
    show (if b.drive p = values then _ else settle b left (b.drive p)) =
      reported (if b.drive p = values then _ else b.settle left (b.drive p))
    by_cases hsame : b.drive p = values
    · rw [if_pos hsame, if_pos hsame]
      rfl
    · rw [if_neg hsame, if_neg hsame]
      exact settle_eq hpayloads left
        ⟨length_drive hp.length, drive_inRange hp.inRange, List.forall_mem_nil _⟩

/-- **Runs without hazards.**  A machine runs a circuit as a bench does, and stops only with its
    faults. -/
theorem run_eq (hpayloads : ∀ a ∈ b.circuit.payloads, a.WellFormed) :
    run b = reported b.run := by
  rw [run, initial_eq hb]
  exact settle_eq hb hpayloads _ (sound_initial hb)

theorem lowBits_ofNat (n : Nat) {id : NodeId} {w : Nat} (hw : b.width id = .ok w) :
    lowBits (.ofNat _ n) w = .ok (cut w n) := by
  rw [← BitVec.ofInt_natCast]
  exact Machine.lowBits_ofInt n (hb.width_le hw)

theorem set_eq (g : Setting) : set b g = reported (b.set g) := by
  cases g with
  | input name n =>
    simp only [set, Bench.set, setInput]
    cases b.circuit.inputs.find? (·.name = name) with
    | none => rfl
    | some port =>
      refine reported_bind fun w hw => ?_
      rw [lowBits_ofNat hb n hw]
      rfl
  | register name n =>
    simp only [set, Bench.set, setRegister]
    cases register? b.circuit name with
    | none => rfl
    | some id =>
      refine reported_bind fun w hw => ?_
      rw [lowBits_ofNat hb n hw]
      rfl

end Passes

end Careful

end Circuitry.Bench
