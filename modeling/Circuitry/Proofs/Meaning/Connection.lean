/-
  A connection transfers the value of its source, cut to the width of its target.

  A run takes the connections that are active in it.  Each of them has a value to transfer; the one that
  a target takes is that of the last active connection to it.  Wires and outputs take it at once, and a
  register holds it next.  An input can be connected to, but keeps what it has been given.

  1. Commands that are active stand in the order of the stream, so the last active connection to a node is
     the last of its sources (`driven?_of_lastActive`);
  2. every active connection of a settled run has something to transfer (`Elaborated.drivable`);
  3. connecting two aggregates connects their leaves one after the other, so the connection of a leaf
     stands at a position of its own (`Passed.connectAll`).  `Calls.connect` says it of calls.
-/
import Circuitry.Proofs.Meaning.Operators

namespace Circuitry

open Draft (Session)
open Draft.Session (Step Proper)

/-! ## Last active connections -/

/-- The last of what is found in a sorted list. -/
theorem getLast?_filterMap {α : Type} {f : Nat → Option α} {l : List Nat} (hsorted : l.Pairwise (· < ·))
    {i : Nat} {a : α} (hi : i ∈ l) (ha : f i = some a) (hlater : ∀ j ∈ l, i < j → f j = none) :
    (l.filterMap f).getLast? = some a := by
  obtain ⟨front, back, rfl⟩ := List.append_of_mem hi
  obtain ⟨-, hback, -⟩ := List.pairwise_append.1 hsorted
  have hnone : back.filterMap f = [] := by
    refine List.filterMap_eq_nil_iff.2 fun j hj => hlater j ?_ ((List.pairwise_cons.1 hback).1 j hj)
    exact List.mem_append_right _ (List.mem_cons_of_mem _ hj)
  rw [List.filterMap_append, List.filterMap_cons, ha, hnone]
  exact List.getLast?_concat

namespace Bench

variable {b : Bench} {e : Settled}

/-- The connection at a position counts, and none to the same node comes after it that does. -/
structure LastActive (b : Bench) (e : Settled) (i : Nat) (id : NodeId) : Prop where
  active : e.isActive i = true
  last : ∀ j source, i < j → b.circuit.commands[j]? = some (.connect id source) → e.isActive j = false

/-- What a run says to be active is what the guards say. -/
theorem Solution.isActive_iff (h : b.Solution e) {i : Nat} {cmd : Command}
    (hcmd : b.circuit.commands[i]? = some cmd) (hplain : cmd.isControl = false) :
    e.isActive i = true ↔ i ∈ b.block.active (b.holds e.values) := by
  obtain ⟨path, hpath, hunique, hactive⟩ := h.active i cmd hcmd hplain
  rw [hactive, Block.active_eq_filter, List.mem_map]
  constructor
  · exact fun hmet => ⟨(i, path), List.mem_filter.2 ⟨hpath, hmet⟩, rfl⟩
  · rintro ⟨⟨j, path'⟩, hfilter, rfl⟩
    obtain ⟨hpath', hmet⟩ := List.mem_filter.1 hfilter
    rwa [← hunique path' hpath']

namespace Elaborated

/-- Active commands stand in stream order. -/
theorem pairwise_active (h : b.Elaborated) (holds : Operand → Bool) :
    (b.block.active holds).Pairwise (· < ·) := by
  have hsorted : (b.block.guarded.map (·.1)).Pairwise (· < ·) := by
    rw [Block.guarded, Block.map_guardedBelow, List.pairwise_map]
    exact h.pairwise_visits.sublist List.filter_sublist
  rw [Block.active_eq_filter]
  exact hsorted.sublist (List.filter_sublist.map _)

section Connections

variable (h : b.Elaborated) (hsolution : b.Solution e) {i : Nat} {target : NodeId} {source : Operand}
  (hcmd : b.circuit.commands[i]? = some (.connect target source))

include h hsolution hcmd

/-- An active connection has something to transfer. -/
theorem drivable (hrun : b.run = .ok e) (hactive : e.isActive i = true) :
    ∃ n, b.drive? e.values target source = some n := by
  obtain ⟨p, hholding, hexec, hvalues, -⟩ := h.exists_lastPass hrun
  have hwalked := h.walked hholding.length hexec
  rw [hvalues] at hwalked
  exact hwalked.drivable i ((hsolution.isActive_iff hcmd rfl).1 hactive) target source hcmd

/-- A node is driven by the last active connection to it. -/
theorem driven?_of_lastActive (hlast : b.LastActive e i target) (rest : Nat) :
    b.driven? e.values target rest = b.drive? e.values target source := by
  have hget : (b.sourcesTo e.values target).getLast? = some source := by
    rw [sourcesTo_eq]
    refine getLast?_filterMap (h.pairwise_active _) ((hsolution.isActive_iff hcmd rfl).1 hlast.active)
      (sourceTo?_eq_some.2 hcmd) fun j hj hij => ?_
    -- a later connection to the node is not active
    by_contra hsource
    obtain ⟨s, hs⟩ := Option.ne_none_iff_exists'.1 hsource
    have hcmd' := sourceTo?_eq_some.1 hs
    have hnot := hlast.last j s hij hcmd'
    rw [(hsolution.isActive_iff hcmd' rfl).2 hj] at hnot
    cases hnot
  rw [driven?, hget]

end Connections

end Elaborated

theorem drive?_eq_some {values : List Nat} {target : NodeId} {source : Operand} {n : Nat}
    (h : b.drive? values target source = some n) :
    ∃ w v, b.width target = .ok w ∧ b.value? values source = some v ∧ n = cut w v.reading := by
  unfold drive? at h
  split at h
  · next w v hw hv => exact ⟨w, v, hw, hv, (Option.some.inj h).symm⟩
  · cases h

end Bench

/-! ## Connections taken apart -/

namespace Draft

variable {w w' : Session}

theorem connect_eq_ok {x y : Signal} (h : connect x y w = .ok () w') :
    ∃ b a, x.kind = y.kind ∧ w.Drives x b ∧ w.Reads y a ∧ w' = w.emitted (.connect b.id a) := by
  unfold connect at h
  by_cases hk : x.kind ≠ y.kind
  · rw [if_pos hk] at h
    cases h
  · rw [if_neg hk] at h
    obtain ⟨id, w₁, hassignable, hrest⟩ := bind_eq_ok.1 h
    obtain ⟨⟨b, hb, rfl⟩, rfl⟩ := (assignable_drives (I := fun v => v = w) x).of_ok rfl hassignable
    obtain ⟨a, w₂, hoperand, hemit⟩ := bind_eq_ok.1 hrest
    obtain ⟨ha, rfl⟩ := (operand_reads (I := fun v => v = w₁) y).of_ok rfl hoperand
    obtain ⟨-, rfl⟩ := EStateM.Result.ok.inj hemit
    exact ⟨b, a, Decidable.not_not.1 hk, hb, ha, rfl⟩

theorem connectFields_eq_ok {target source : Shape.Fields Signal}
    (h : connectFields target source w = .ok () w') :
    (Shape.fieldLeaves target).length = (Shape.fieldLeaves source).length ∧
      connectAll ((Shape.fieldLeaves target).zip (Shape.fieldLeaves source)) w = .ok () w' := by
  obtain ⟨⟨⟩, w₁, hshape, hrest⟩ := bind_eq_ok.1 h
  have hlen := ((checkShape_finds (I := fun _ v => v = w) (L := []) "connect" target source).of_ok rfl hshape).1
  obtain rfl := (looks_checkShape "connect" target source w).of_ok rfl hshape
  obtain ⟨⟨⟩, w₂, hcheck, hconnect⟩ := bind_eq_ok.1 hrest
  obtain ⟨-, rfl⟩ := (checkConnections_finds _).of_ok rfl hcheck
  exact ⟨hlen, hconnect⟩

end Draft

/-! ## Connections in a trial -/

namespace Trial

variable {T : Trial}

/-- What a signal has been driven to: a register holds it next, any other node at once. -/
def driven? (T : Trial) (s : Signal) : Option Value :=
  match T.left.signals.standing s with
  | .bound ⟨.register, _, id⟩ => do
    return ⟨← T.settled.next.lookup id, (← s.width.get?).toNat, s.kind.isSigned⟩
  | _ => T.value? s

/-- The command at position `i` connects `x` to `y`.  If it is active, it transfers the value of `y`, cut
    to the width of `x`; and unless `x` is an input, this is what `x` is driven to if no other active
    connection to `x` comes later. -/
def Transfers (T : Trial) (i : Nat) (x y : Signal) : Prop :=
  ∃ b a, T.left.signals.standing x = .bound b ∧
    T.bench.circuit.commands[i]? = some (.connect b.id a) ∧
    (T.settled.isActive i = true → ∃ p W, T.value? y = some p ∧ x.width = .known W ∧
      T.bench.drive? T.settled.values b.id a = some (cut W.toNat p.number) ∧
      (T.bench.LastActive T.settled i b.id → b.role ≠ .port .input →
        T.driven? x = some ⟨cut W.toNat p.number, W.toNat, x.kind.isSigned⟩))

section Driven

variable {s : Signal} {b : Binding} (h : T.left.signals.standing s = .bound b)

include h

theorem driven?_of_register (hrole : b.role = .register) {n : Nat}
    (hnext : T.settled.next.lookup b.id = some n) {W : UInt32} (hwidth : s.width = .known W) :
    T.driven? s = some ⟨n, W.toNat, s.kind.isSigned⟩ := by
  obtain ⟨role, context, id⟩ := b
  obtain rfl : role = .register := hrole
  have hlookup : T.settled.next.lookup id = some n := hnext
  simp [driven?, h, hlookup, hwidth, Width.get?]

theorem driven?_of_ne (hrole : b.role ≠ .register) : T.driven? s = T.value? s := by
  unfold driven?
  rw [h]
  split
  · next heq => exact absurd (congrArg Binding.role (Standing.bound.inj heq)) hrole
  · rfl

end Driven

/-- What can be driven is an input, a register, or takes its driver at once. -/
theorem role_cases_of_isAssignable {role : Role} (h : role.isAssignable = true) :
    role = .port .input ∨ role = .register ∨ Bench.isDriven role = true := by
  cases role with
  | port d => cases d <;> simp [Bench.isDriven]
  | wire => exact .inr (.inr rfl)
  | register => exact .inr (.inl rfl)
  | _ => cases h

namespace Passed

variable {L : List Signal} {w w' : Session}

/-- **A connection transfers the value of its source.** -/
theorem connect {x y : Signal} (h : T.Passed w') (hw : w.Proper L) (known : [x, y] ⊆ L)
    (hrun : Draft.connect x y w = .ok () w') : T.Transfers w.draft.commands.length x y := by
  obtain ⟨b, a, hkind, hdrives, hreads, rfl⟩ := Draft.connect_eq_ok hrun
  obtain ⟨hx, hy⟩ : x ∈ L ∧ y ∈ L := by simpa using known
  have hpassed := h.back_step (.connect x y b a hkind hdrives hreads known) hw
  have hcmd : T.bench.circuit.commands[w.draft.commands.length]? = some (.connect b.id a) :=
    h.command? (by simp)
  have hstanding : T.left.signals.standing x = .bound b :=
    (hpassed.later.kept x (by rw [hdrives.bound]; nofun)).trans hdrives.bound
  refine ⟨b, a, hstanding, hcmd, fun hactive => ?_⟩
  -- what the connection transfers
  obtain ⟨n, hn⟩ := T.elaborated.drivable T.solution hcmd T.settles hactive
  obtain ⟨W, p, hW, hp, rfl⟩ := Bench.drive?_eq_some hn
  obtain ⟨m, hentry, hrole, hty⟩ := (hpassed.consistent hw).bound x hx b hdrives.bound hdrives.context
  have hcomputed : ∀ {v : Nat}, Bench.nodeValue? T.settled.values b.id = some v → _ :=
    hpassed.value?_computed hdrives.bound hdrives.context hentry hty hW
  have hnode := hpassed.node? hentry
  obtain ⟨u, hwidth, rfl, hle, -⟩ := hcomputed (value?_node hnode)
  have hnumber : cut u.toNat p.reading = cut u.toNat p.number := cut_congr hle p.reading_modEq
  rw [hnumber] at hn
  refine ⟨p, u, (hpassed.reads hw hy hreads hp).value, hwidth, hn, fun hlast hinput => ?_⟩
  -- what the target takes
  have hdriven := T.elaborated.driven?_of_lastActive T.solution hcmd hlast
  rcases role_cases_of_isAssignable hdrives.assignable with hport | hregister | htakes
  · exact absurd hport hinput
  · obtain ⟨s, hnext, hs⟩ := T.solution.next b.id m hnode (hrole.trans hregister)
    rw [hdriven, hn] at hs
    obtain rfl := Option.some.inj hs
    exact driven?_of_register hstanding hregister hnext hwidth
  · have hvalue := T.solution.solves.driven b.id m hnode (hrole ▸ htakes)
    rw [hdriven, hn] at hvalue
    obtain ⟨u', hwidth', -, -, hv⟩ := hcomputed hvalue
    obtain rfl := Width.known.inj (hwidth.symm.trans hwidth')
    have hother : b.role ≠ .register := fun heq => by simp [heq, Bench.isDriven] at htakes
    rw [driven?_of_ne hstanding hother, hv]

/-- Pairs are connected one after the other, each at the next position. -/
theorem connectAll : ∀ (pairs : List (Signal × Signal)) {w : Session}, T.Passed w' → w.Proper L →
    (∀ pair ∈ pairs, [pair.1, pair.2] ⊆ L) → Draft.connectAll pairs w = .ok () w' →
      T.Passed w ∧ ∀ (k : Nat) x y, pairs[k]? = some (x, y) →
        T.Transfers (w.draft.commands.length + k) x y
  | [], w, h, _, _, hrun => by
    obtain ⟨-, rfl⟩ := EStateM.Result.ok.inj hrun
    exact ⟨h, nofun⟩
  | (x, y) :: rest, w, h, hw, known, hrun => by
    rw [List.forall_mem_cons] at known
    obtain ⟨⟨⟩, w₁, hfirst, hrest⟩ := bind_eq_ok.1 hrun
    obtain ⟨b, a, hkind, hdrives, hreads, rfl⟩ := Draft.connect_eq_ok hfirst
    have hstep : Step L w [] (w.emitted (.connect b.id a)) :=
      .connect x y b a hkind hdrives hreads known.1
    obtain ⟨hpassed, hall⟩ := connectAll rest h (Session.stable_proper.step hstep hw) known.2 hrest
    refine ⟨hpassed.back_step hstep hw, fun k s t hpair => ?_⟩
    cases k with
    | zero =>
      obtain ⟨rfl, rfl⟩ := Prod.mk.inj (Option.some.inj hpair)
      exact hpassed.connect hw known.1 hfirst
    | succ k =>
      have htransfers := hall k s t hpair
      rwa [Session.commands_emitted, List.length_append, List.length_singleton, Nat.add_assoc,
        Nat.add_comm 1] at htransfers

end Passed

/-- Leaf by leaf, `x` is connected to `y`, from position `n` on. -/
structure TransfersAll (T : Trial) (n : Nat) (x y : Draft.Bundle) : Prop where
  length : x.leaves.length = y.leaves.length
  leaf : ∀ (k : Nat) r s, x.leaves[k]? = some r → y.leaves[k]? = some s → T.Transfers (n + k) r s

theorem Passed.connectFields {L : List Signal} {w w' : Session} {target source : Shape.Fields Signal}
    (h : T.Passed w') (hw : w.Proper L) (htarget : Shape.fieldLeaves target ⊆ L)
    (hsource : Shape.fieldLeaves source ⊆ L)
    (hrun : Draft.connectFields target source w = .ok () w') :
    T.TransfersAll w.draft.commands.length (.group target) (.group source) := by
  obtain ⟨hlen, hall⟩ := Draft.connectFields_eq_ok hrun
  refine ⟨hlen, fun k r s hr hs => ?_⟩
  refine (Passed.connectAll _ h hw (fun pair hpair => ?_) hall).2 k r s ?_
  · obtain ⟨ht, hs⟩ := List.of_mem_zip hpair
    simp [htarget ht, hsource hs]
  · exact List.getElem?_zip_eq_some.2 ⟨hr, hs⟩

namespace Calls

variable {r : Script.Answer × Option Draft.Bundle} {before after : Script.World} {target source : String}

/-- What `connect` comes to, for ground values and for aggregates. -/
theorem connect (h : T.Calls (.connect target source) r before after) :
    ∃ x y, before.values.lookup target = some x ∧ before.values.lookup source = some y ∧
      T.TransfersAll before.session.draft.commands.length x y := by
  have hpassed := h.passed
  obtain ⟨x, w₁, htarget, hrest⟩ := bind_eq_ok.1 h.call
  obtain ⟨hx, rfl⟩ := (Script.bundle_looksUp target).of_ok rfl htarget
  obtain ⟨y, w₂, hsource, hrest₁⟩ := bind_eq_ok.1 hrest
  obtain ⟨hy, rfl⟩ := (Script.bundle_looksUp source).of_ok rfl hsource
  have hxs := Script.leaves_of_lookup hx
  have hys := Script.leaves_of_lookup hy
  refine ⟨x, y, hx, hy, ?_⟩
  cases x with
  | leaf a =>
    cases y with
    | leaf b =>
      obtain ⟨⟨⟩, w₃, hconnect, hanswer⟩ := bind_eq_ok.1 hrest₁
      obtain ⟨s, hrun, rfl⟩ := Script.liftBuild_eq_ok hconnect
      obtain ⟨-, rfl⟩ := EStateM.Result.ok.inj hanswer
      refine ⟨rfl, fun k p q hp hq => ?_⟩
      cases k with
      | zero =>
        obtain rfl := Option.some.inj hp
        obtain rfl := Option.some.inj hq
        exact Passed.connect hpassed h.proper (List.append_subset.2 ⟨hxs, hys⟩) hrun
      | succ k => cases hp
    | group ss => cases hrest₁
  | group ts =>
    cases y with
    | leaf b => cases hrest₁
    | group ss =>
      obtain ⟨⟨⟩, w₃, hconnect, hanswer⟩ := bind_eq_ok.1 hrest₁
      obtain ⟨s, hrun, rfl⟩ := Script.liftBuild_eq_ok hconnect
      obtain ⟨-, rfl⟩ := EStateM.Result.ok.inj hanswer
      exact Passed.connectFields hpassed h.proper hxs hys hrun

end Calls

end Trial

end Circuitry
