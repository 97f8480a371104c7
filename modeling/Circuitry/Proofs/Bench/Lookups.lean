/-
  What is given by a name, and what is read by that name.

  Names are not unique, and each look-up takes the first match of its own table: values are given to
  the first register of a name, or to the first input port; `named?` reads the first node, `nextState?`
  asks what that node holds next, and `port?` reads the first port.

  1. What a name has been given last is what its register or input holds after a run, cut to the width
     (`givenRegister_eq`, `givenInput_eq`).  Settings of other names do not get in between: two names
     never lead to the same node, since a node has one name and an input port has that of its node
     (`Grown.port_named`).
  2. So whatever look-up leads to that node reads it back, and `named?` does so if no node of the name
     stands before it, `port?` if the first port of the name is an input (`lookups_agree`).

  Where another node of the name does stand before it, the look-ups part (`namesakes_differ`).
-/
import Circuitry.Bench.Settled
import Circuitry.Proofs.Bench.Solution
import Circuitry.Proofs.Draft.WellFormed

namespace Circuitry

/-! ## Names -/

/-- A port has the name of its node. -/
theorem Draft.Grown.port_named {ns : List Node} {ps : List Port} {cs : List Command}
    (h : Grown ns ps cs) (hlen : ns.length ≤ 2 ^ 32) {p : Port} (hp : p ∈ ps) :
    ∃ n, ns[p.node.index.toNat]? = some n ∧ n.name = some p.name := by
  rw [h.ports_eq] at hp
  obtain ⟨cmd, hcmd, hport⟩ := List.mem_filterMap.1 hp
  cases cmd with
  | defPort node direction name =>
    obtain rfl := Option.some.inj hport
    obtain ⟨n, hn, -, -, hname⟩ := h.introduces hlen hcmd rfl
    exact ⟨n, hn, hname⟩
  | _ => cases hport

namespace Circuit

/-- No node of the name stands before this one. -/
def FirstNamed (c : Circuit) (name : String) (id : NodeId) : Prop :=
  ∀ n ∈ c.nodes.take id.index.toNat, n.name ≠ some name

instance (c : Circuit) (name : String) (id : NodeId) : Decidable (c.FirstNamed name id) :=
  inferInstanceAs (Decidable (∀ n ∈ _, _))

theorem named?_of_firstNamed {c : Circuit} {name : String} {id : NodeId} {n : Node}
    (hn : c.node? id = some n) (hname : n.name = some name) (hfirst : c.FirstNamed name id) :
    c.named? name = some id := by
  have hat : c.numbered[id.index.toNat]? = some (id, n) := by
    rw [getElem?_numbered, show c.nodes[id.index.toNat]? = some n from hn, Draft.idAt_toNat]
    rfl
  obtain ⟨hi, hget⟩ := List.getElem?_eq_some_iff.1 hat
  have hfind : c.numbered.find? (·.2.name = some name) = some (id, n) := by
    refine List.find?_eq_some_iff_getElem.2 ⟨decide_eq_true hname, _, hi, hget, fun j hj => ?_⟩
    have hlen : j < c.nodes.length := by
      rw [length_numbered] at hi
      omega
    have hentry : c.numbered[j] = (Draft.idAt j, c.nodes[j]) := List.getElem_mapIdx ..
    have hbefore : c.nodes[j] ∈ c.nodes.take id.index.toNat :=
      List.mem_take_iff_getElem.2 ⟨j, by omega, rfl⟩
    rw [hentry, Bool.not_eq_true', decide_eq_false_iff_not]
    exact hfirst _ hbefore
  rw [named?, hfind]
  rfl

/-- An input that is found by its name. -/
theorem port_of_find? {c : Circuit} {name : String} {p : Port}
    (h : c.inputs.find? (·.name = name) = some p) : p ∈ c.ports ∧ p.name = name := by
  have hfound := List.find?_some h
  exact ⟨(List.mem_filter.1 (List.mem_of_find?_eq_some h)).1, of_decide_eq_true hfound⟩

/-- If the first port of a name is an input, then it is the first input of the name. -/
theorem port?_of_input {c : Circuit} {name : String} {p : Port}
    (hfind : c.inputs.find? (·.name = name) = some p)
    (hinput : ∀ q, c.port? name = some q → q.direction = .input) : c.port? name = some p := by
  obtain ⟨hmem, hpname⟩ := port_of_find? hfind
  have hsome : (c.ports.find? (·.name = name)).isSome :=
    List.find?_isSome.2 ⟨p, hmem, decide_eq_true hpname⟩
  obtain ⟨q, hq⟩ := Option.isSome_iff_exists.1 hsome
  obtain ⟨hname, before, after, hports, hbefore⟩ := List.find?_eq_some_iff_append.1 hq
  have hkept : c.inputs.find? (·.name = name) = some q := by
    refine List.find?_eq_some_iff_append.2
      ⟨hname, before.filter (·.direction = .input), after.filter (·.direction = .input), ?_, ?_⟩
    · rw [inputs, hports, List.filter_append,
        List.filter_cons_of_pos (by simpa using hinput q hq)]
    · exact fun r hr => hbefore r (List.mem_filter.1 hr).1
  rw [port?, hq, ← hkept, hfind]

end Circuit

namespace Bench

/-! ## What a name has been given last -/

/-- The value that a setting gives to inputs of a name. -/
def Setting.inputValue? (name : String) : Setting → Option Nat
  | .input name' n => if name' = name then some n else none
  | .register _ _ => none

/-- The value that a setting gives to registers of a name. -/
def Setting.registerValue? (name : String) : Setting → Option Nat
  | .input _ _ => none
  | .register name' n => if name' = name then some n else none

/-- What has been given last by the name of an input. -/
def lastInput? (gs : List Setting) (name : String) : Option Nat :=
  gs.findSome? (Setting.inputValue? name)

/-- What has been given last by the name of a register. -/
def lastRegister? (gs : List Setting) (name : String) : Option Nat :=
  gs.findSome? (Setting.registerValue? name)

theorem mem_of_lastInput? {gs : List Setting} {name : String} {v : Nat}
    (h : lastInput? gs name = some v) : .input name v ∈ gs := by
  obtain ⟨g, hg, hvalue⟩ := List.exists_of_findSome?_eq_some h
  cases g with
  | input name' n =>
    obtain ⟨rfl, heq⟩ := Option.ite_none_right_eq_some.1 hvalue
    obtain rfl := Option.some.inj heq
    exact hg
  | register name' n => cases hvalue

theorem mem_of_lastRegister? {gs : List Setting} {name : String} {v : Nat}
    (h : lastRegister? gs name = some v) : .register name v ∈ gs := by
  obtain ⟨g, hg, hvalue⟩ := List.exists_of_findSome?_eq_some h
  cases g with
  | input name' n => cases hvalue
  | register name' n =>
    obtain ⟨rfl, heq⟩ := Option.ite_none_right_eq_some.1 hvalue
    obtain rfl := Option.some.inj heq
    exact hg

section Settings

variable {c : Circuit} {gs : List Setting} {b : Bench} {name : String} {v : Nat}

/-- A value that has been given has found its place. -/
theorem Prepared.found (h : Prepared c gs b) :
    (∀ name v, .input name v ∈ gs → ∃ p, c.inputs.find? (·.name = name) = some p) ∧
      ∀ name v, .register name v ∈ gs → ∃ id, register? c name = some id := by
  induction h with
  | fresh _ => exact ⟨nofun, nofun⟩
  | set before g hset ih =>
    obtain ⟨ihi, ihr⟩ := ih
    cases g with
    | input name' n =>
      obtain ⟨p, w, hp, -, -⟩ := setInput_eq_ok hset
      rw [before.circuit_eq] at hp
      refine ⟨fun name v hmem => ?_, fun name v hmem => ?_⟩
      · rcases List.mem_cons.1 hmem with heq | hmem
        · obtain ⟨rfl, -⟩ := Setting.input.inj heq
          exact ⟨p, hp⟩
        · exact ihi name v hmem
      · rcases List.mem_cons.1 hmem with heq | hmem
        · cases heq
        · exact ihr name v hmem
    | register name' n =>
      obtain ⟨id, w, hid, -, -⟩ := setRegister_eq_ok hset
      rw [before.circuit_eq] at hid
      refine ⟨fun name v hmem => ?_, fun name v hmem => ?_⟩
      · rcases List.mem_cons.1 hmem with heq | hmem
        · cases heq
        · exact ihi name v hmem
      · rcases List.mem_cons.1 hmem with heq | hmem
        · obtain ⟨rfl, -⟩ := Setting.register.inj heq
          exact ⟨id, hid⟩
        · exact ihr name v hmem

/-- What a register has been given is what its name has been given. -/
theorem givenRegister_eq (hsize : c.nodes.length ≤ 2 ^ 32) {id : NodeId}
    (hid : register? c name = some id) (hlast : lastRegister? gs name = some v) :
    givenRegister c gs id = v := by
  obtain ⟨n, hn, -, hname⟩ := node_of_register? hsize hid
  have hsame : Setting.toRegister? c id = Setting.registerValue? name := by
    funext g
    cases g with
    | input _ _ => rfl
    | register name' m =>
      refine if_congr ⟨fun hid' => ?_, fun heq => heq ▸ hid⟩ rfl rfl
      obtain ⟨n', hn', -, hname'⟩ := node_of_register? hsize hid'
      obtain rfl := Option.some.inj (hn.symm.trans hn')
      exact Option.some.inj (hname'.symm.trans hname)
  rw [givenRegister, hsame, show gs.findSome? _ = some v from hlast]
  rfl

/-- What an input has been given is what its name has been given. -/
theorem givenInput_eq (hgrown : Draft.Grown c.nodes c.ports c.commands)
    (hsize : c.nodes.length ≤ 2 ^ 32) {p : Port} (hp : c.inputs.find? (·.name = name) = some p)
    (hlast : lastInput? gs name = some v) : givenInput c gs p.node = v := by
  -- of two ports on one node, both have its name
  have hnamed : ∀ name' q, c.inputs.find? (·.name = name') = some q →
      ∃ n, c.node? q.node = some n ∧ n.name = some name' := by
    intro name' q hq
    obtain ⟨hmem, hqname⟩ := Circuit.port_of_find? hq
    obtain ⟨n, hn, hname⟩ := hgrown.port_named hsize hmem
    exact ⟨n, hn, hname.trans (congrArg _ hqname)⟩
  obtain ⟨n, hn, hname⟩ := hnamed name p hp
  have hsame : Setting.toInput? c p.node = Setting.inputValue? name := by
    funext g
    cases g with
    | input name' m =>
      refine if_congr ⟨fun hp' => ?_, fun heq => ?_⟩ rfl rfl
      · obtain ⟨q, hq, hnode⟩ := Option.map_eq_some_iff.1 hp'
        obtain ⟨n', hn', hname'⟩ := hnamed name' q hq
        rw [hnode] at hn'
        obtain rfl := Option.some.inj (hn.symm.trans hn')
        exact Option.some.inj (hname'.symm.trans hname)
      · rw [heq, hp]
        rfl
    | register _ _ => rfl
  rw [givenInput, hsame, show gs.findSome? _ = some v from hlast]
  rfl

end Settings

/-! ## Reading back -/

theorem circuit_of_run {b : Bench} {e : Settled} (hrun : b.run = .ok e) : e.circuit = b.circuit := by
  obtain ⟨-, -, -, -, hcircuit, -⟩ := Elaborated.settle_induction (Q := fun _ => True)
    (fun _ _ _ _ => trivial) b.passLimit trivial hrun
  exact hcircuit

/-- **Look-ups by one name.**  For every circuit that a description has returned: what has been given
    last to a register by its name is what that register holds after a run, cut to its width, and the
    run knows what it holds next; the first node of the name is this register if none stands before it.
    What has been given last to an input by its name is what that input holds, cut to its width; the
    first port of the name is this input if it is one at all, and the first node of the name is this
    input if none stands before it. -/
theorem lookups_agree {s : Script} {m m' : Script.Memory} {title : String}
    {settings : Settings.Elaboration} {o : Script.Outcome} {c : Circuit} {gs : List Setting}
    {b : Bench} {e : Settled} (hm : m.Reached) (hdescribe : s.describe? m title settings = some (o, m'))
    (hc : o.result = .ok c) (hsize : c.nodes.length ≤ 2 ^ 32) (hb : Prepared c gs b)
    (hrun : b.run = .ok e) :
    (∀ name v, lastRegister? gs name = some v → ∃ id w next,
      register? c name = some id ∧ b.width id = .ok w ∧ e.value? id = some (v % 2 ^ w) ∧
      e.next.lookup id = some next ∧ b.driven? e.values id (v % 2 ^ w) = some next ∧
      (c.FirstNamed name id → e.named? name = some (v % 2 ^ w) ∧ e.nextState? name = some next)) ∧
    ∀ name v, lastInput? gs name = some v → ∃ p w,
      c.inputs.find? (·.name = name) = some p ∧ b.width p.node = .ok w ∧
      e.value? p.node = some (v % 2 ^ w) ∧
      ((∀ q, c.port? name = some q → q.direction = .input) → e.port? name = some (v % 2 ^ w)) ∧
      (c.FirstNamed name p.node → e.named? name = some (v % 2 ^ w)) := by
  have helaborated := hb.elaborated_of_describe? hm hdescribe hc hsize
  have hsolution := helaborated.solution hrun
  have hgiven := hb.given helaborated hsolution.solves
  have hgrown := (Script.grown_of_describe? hm hdescribe hc hsize).1
  have hcircuit : e.circuit = c := (circuit_of_run hrun).trans hb.circuit_eq
  constructor
  · intro name v hlast
    obtain ⟨id, hid⟩ := hb.found.2 name v (mem_of_lastRegister? hlast)
    obtain ⟨n, hn, hrole, hname⟩ := node_of_register? hsize hid
    obtain ⟨w, hw, hvalue, hstate⟩ := hgiven.registers id n hn hrole
    rw [givenRegister_eq hsize hid hlast, cut_natCast] at hvalue hstate
    obtain ⟨next, hnext, hdriven⟩ := hsolution.next id n (hb.circuit_eq ▸ hn) hrole
    rw [hstate] at hdriven
    refine ⟨id, w, next, hid, hw, hvalue, hnext, hdriven, fun hfirst => ?_⟩
    have hnamed : e.circuit.named? name = some id := by
      rw [hcircuit]
      exact Circuit.named?_of_firstNamed hn hname hfirst
    rw [Settled.named?, Settled.nextState?, hnamed]
    exact ⟨hvalue, hnext⟩
  · intro name v hlast
    obtain ⟨p, hp⟩ := hb.found.1 name v (mem_of_lastInput? hlast)
    obtain ⟨hmem, hpname⟩ := Circuit.port_of_find? hp
    obtain ⟨w, hw, hvalue⟩ := hgiven.inputs p (List.mem_of_find?_eq_some hp)
    rw [givenInput_eq hgrown hsize hp hlast, cut_natCast] at hvalue
    refine ⟨p, w, hp, hw, hvalue, fun hinput => ?_, fun hfirst => ?_⟩
    · rw [Settled.port?, hcircuit, Circuit.port?_of_input hp hinput]
      exact hvalue
    · obtain ⟨n, hn, hname⟩ := hgrown.port_named hsize hmem
      have hnode : n.name = some name := hname.trans (congrArg _ hpname)
      rw [Settled.named?, hcircuit, Circuit.named?_of_firstNamed hn hnode hfirst]
      exact hvalue

/-- The follower holds 3 and is shown 21, which is 5 in four bits. -/
theorem follower_agrees : ∃ b e, Prepared b.circuit [.input "a" 21, .register "r" 3] b ∧
    b.run = .ok e ∧ e.named? "r" = some 3 ∧ e.nextState? "r" = some 5 ∧ e.port? "a" = some 5 ∧
      e.named? "a" = some 5 := by
  have htry : (tryOut? follower [.input "a" 21, .register "r" 3]).any (fun (b, e) =>
      b.circuit.nodes.length = 4 ∧ register? b.circuit "r" = some ⟨1⟩ ∧
      b.circuit.FirstNamed "r" ⟨1⟩ ∧ (b.width ⟨1⟩).toOption = some 4 ∧
      e.next.lookup ⟨1⟩ = some 5 ∧ (b.circuit.inputs.find? (·.name = "a")).map (·.node) = some ⟨0⟩ ∧
      b.circuit.FirstNamed "a" ⟨0⟩ ∧ (b.width ⟨0⟩).toOption = some 4 ∧
      (b.circuit.port? "a").map (·.direction) = some .input) := by
    decide +kernel
  obtain ⟨⟨b, e⟩, hbe, hfacts⟩ := (Option.any_eq_true _ _).1 htry
  obtain ⟨hlength, hregister, hfirst, hwidth, hlater, hinput, hfirst', hwidth', hport⟩ :=
    of_decide_eq_true hfacts
  obtain ⟨o, m', hdescribe, hc, hb, hrun⟩ := tryOut?_eq_some hbe
  have hsize : b.circuit.nodes.length ≤ 2 ^ 32 := by omega
  obtain ⟨hregisters, hinputs⟩ :=
    lookups_agree Script.Memory.Reached.empty hdescribe hc hsize hb hrun
  obtain ⟨id, w, next, hid, hw, -, hnext, -, hread⟩ := hregisters "r" 3 rfl
  obtain rfl := Option.some.inj (hregister.symm.trans hid)
  obtain rfl := Option.some.inj (hlater.symm.trans hnext)
  obtain rfl := Except.ok.inj ((eq_ok_of_toOption hwidth).symm.trans hw)
  obtain ⟨p, w', hp, hw', -, hport', hread'⟩ := hinputs "a" 21 rfl
  have hnode : p.node = ⟨0⟩ := by simpa [hp] using hinput
  rw [hnode] at hw' hread'
  obtain rfl := Except.ok.inj ((eq_ok_of_toOption hwidth').symm.trans hw')
  have hdirection : ∀ q, b.circuit.port? "a" = some q → q.direction = .input := by
    intro q hq
    simpa [hq] using hport
  exact ⟨b, e, hb, hrun, (hread hfirst).1, (hread hfirst).2, hport' hdirection, hread' hfirst'⟩

/-- Describes a wire and a register of one name, then an output and an input of another. -/
def namesakes : Script :=
  let declared (role : Draft.Declared) (name : String) (rest : Script) : Script :=
    .call ⟨"", false, none⟩ (.declare role name (.leaf (.template .uint (.known 4)))) rest
  declared .wire "r" <| declared .register "r" <| declared (.port .output) "x" <|
    declared (.port .input) "x" .done

/-- **Where names are shared, look-ups part.**  The circuit is described without a fault, and both are
    given 5.  The register holds it and the input too, but the wire and the output are read, and the wire
    holds nothing next. -/
theorem namesakes_differ : ∃ o m' b e,
    namesakes.describe? .empty "t" .default = some (o, m') ∧ o.result = .ok b.circuit ∧
    Prepared b.circuit [.input "x" 5, .register "r" 5] b ∧
    b.run = .ok e ∧ register? b.circuit "r" = some ⟨1⟩ ∧ e.value? ⟨1⟩ = some 5 ∧
    e.named? "r" = some 0 ∧ e.next.lookup ⟨1⟩ = some 5 ∧ e.nextState? "r" = none ∧
    (b.circuit.inputs.find? (·.name = "x")).map (·.node) = some ⟨3⟩ ∧ e.value? ⟨3⟩ = some 5 ∧
    e.port? "x" = some 0 ∧ e.named? "x" = some 0 := by
  have htry : (tryOut? namesakes [.input "x" 5, .register "r" 5]).any (fun (b, e) =>
      register? b.circuit "r" = some ⟨1⟩ ∧ e.value? ⟨1⟩ = some 5 ∧
      e.named? "r" = some 0 ∧ e.next.lookup ⟨1⟩ = some 5 ∧ e.nextState? "r" = none ∧
      (b.circuit.inputs.find? (·.name = "x")).map (·.node) = some ⟨3⟩ ∧ e.value? ⟨3⟩ = some 5 ∧
      e.port? "x" = some 0 ∧ e.named? "x" = some 0) := by
    decide +kernel
  obtain ⟨⟨b, e⟩, hbe, hreads⟩ := (Option.any_eq_true _ _).1 htry
  obtain ⟨o, m', hdescribe, hc, hb, hrun⟩ := tryOut?_eq_some hbe
  exact ⟨o, m', b, e, hdescribe, hc, hb, hrun, of_decide_eq_true hreads⟩

end Bench

end Circuitry
