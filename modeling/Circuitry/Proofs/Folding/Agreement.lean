/-
  With folding and without.

  A description that cannot tell literals from results goes the same way whether bits of literals are
  taken at once or by operators: it sees the same, fails in the same places and has the same reported
  (`EndAlike`).  The circuits that come out, given the same values, settle at the same values of ports
  and the same next states of registers (`folding_agrees`), as long as no bits are taken of a negative
  literal above its payload.

  There the two ways differ, even for a single literal (`Draft.extract_literal_iff`), and
  `overreach_differs` is a circuit where it shows at a port.  They also differ at the last index of a
  literal of open width (`CallAt.TakesLast`): no payload can be continued so far, so with folding the
  description stops at such a call, and without folding an operator takes the bits.
-/
import Mathlib.Data.List.Find
import Circuitry.Proofs.Folding.Passes
import Circuitry.Proofs.Folding.Script

namespace Circuitry

/-! ## Runs of one description -/

/-- The settings with folding on or off. -/
abbrev Settings.Elaboration.folding (settings : Settings.Elaboration) (on : Bool) :
    Settings.Elaboration :=
  { settings with foldLiterals := on }

namespace Script

/-- The circuit that comes out of a description on its own, if one does. -/
def circuit? (s : Script) (name : String) (settings : Settings.Elaboration) : Option Circuit :=
  (s.describe? .empty name settings).bind fun (o, _) => o.result.toOption

/-- Where a description on its own begins. -/
abbrev begin (name : String) (settings : Settings.Elaboration) : World :=
  Memory.empty.world name settings

/-- Two runs of a description that end alike: both go through or both stop for the same reason, with the
    same reports, and nothing that can be seen tells one from the other. -/
inductive EndAlike : EStateM.Result Stop World Unit → EStateM.Result Stop World Unit → Prop
  | ok {w w' : World} (reports : w'.session.draft.sink = w.session.draft.sink)
      (view : w'.view = w.view) : EndAlike (.ok () w) (.ok () w')
  | error {e e' : Stop} {w w' : World} (stop : e'.veiled = e.veiled)
      (reports : w'.session.draft.sink = w.session.draft.sink) (view : w'.view = w.view) :
      EndAlike (.error e w) (.error e' w')

/-- Both runs begin with nothing. -/
theorem begin_twin (name : String) (settings : Settings.Elaboration) :
    Twin .empty (begin name (settings.folding false)) (begin name (settings.folding true)) where
  session :=
    { tied :=
        { next := rfl
          next' := rfl
          fresh := fun _ _ => rfl
          context := rfl
          name := rfl
          sink := rfl
          errorLimit := rfl
          shiftLimit := rfl
          off := rfl
          on := rfl
          length := rfl
          bound := fun _ _ => .neither
          gone := nofun }
      folds := fun _ => .nothing name }
  values := .nil
  log := rfl

/-- With and without folding a description ends alike, unless it stops with folding at a call that takes
    the last bit of a literal of open width. -/
theorem run_endAlike {s : Script} (hs : s.Oblivious) (name : String)
    (settings : Settings.Elaboration) :
    EndAlike (s.run (begin name (settings.folding false)))
        (s.run (begin name (settings.folding true))) ∨
      (∃ w, s.run (begin name (settings.folding true)) = .error .overflow w) ∧
        ∃ c ∈ s.calls (begin name (settings.folding true)), c.TakesLast := by
  rcases ends_run hs (begin_twin name settings) with hend | hstops
  · left
    generalize s.run (begin name (settings.folding false)) = r at hend ⊢
    generalize s.run (begin name (settings.folding true)) = r' at hend ⊢
    cases hend with
    | ok later twins related => exact .ok twins.session.tied.sink twins.view_eq
    | error later twins alike => exact .error alike.symm twins.session.tied.sink twins.view_eq
  · exact .inr hstops

theorem circuit?_eq_some {s : Script} {name : String} {settings : Settings.Elaboration}
    {c : Circuit} : s.circuit? name settings = some c ↔
      ∃ o m', s.describe? .empty name settings = some (o, m') ∧ o.result = .ok c := by
  constructor
  · intro h
    obtain ⟨⟨o, m'⟩, hdescribe, hresult⟩ := Option.bind_eq_some_iff.1 h
    exact ⟨o, m', hdescribe, Bench.eq_ok_of_toOption hresult⟩
  · rintro ⟨o, m', hdescribe, hresult⟩
    rw [circuit?, hdescribe]
    show o.result.toOption = some c
    rw [hresult]
    rfl

/-- A circuit that comes out has been described to the end. -/
theorem run_of_circuit? {s : Script} {name : String} {settings : Settings.Elaboration} {c : Circuit}
    (h : s.circuit? name settings = some c) :
    ∃ w, s.run (begin name settings) = .ok () w ∧ c = w.session.draft.circuit := by
  obtain ⟨o, m', hdescribe, hresult⟩ := circuit?_eq_some.1 h
  cases describe?_iff.1 hdescribe with
  | @finished w run => exact ⟨w, run, (finish_eq_ok hresult).1⟩
  | stopped _ => cases hresult

/-- The two circuits of a description have grown side by side. -/
theorem folds_of_circuit? {s : Script} (hs : s.Oblivious) {name : String}
    {settings : Settings.Elaboration} {c c' : Circuit}
    (hc : s.circuit? name (settings.folding false) = some c)
    (hc' : s.circuit? name (settings.folding true) = some c') (hsize : c.nodes.length ≤ 2 ^ 32) :
    ∃ im, Folds c c' im := by
  obtain ⟨w, hrun, rfl⟩ := run_of_circuit? hc
  obtain ⟨w', hrun', rfl⟩ := run_of_circuit? hc'
  rcases ends_run hs (begin_twin name settings) with hend | ⟨⟨v, hstop⟩, -⟩
  · rw [hrun, hrun'] at hend
    cases hend with
    | @ok l _ _ _ _ later twins related =>
      refine ⟨l.images, twins.session.folds ?_⟩
      rw [Ledger.Fits, twins.session.tied.length]
      exact hsize
  · cases hrun'.symm.trans hstop

end Script

/-! ## Runs of the circuits -/

namespace Bench

/-- The ports with their values. -/
def Settled.portValues (e : Settled) : List (String × Direction × Option Nat) :=
  e.circuit.ports.map fun p => (p.name, p.direction, e.value? p.node)

/-- The registers by name, with what they hold next. -/
def Settled.nextStates (e : Settled) : List (Option String × Nat) :=
  e.next.map fun (id, v) => ((e.circuit.node? id).bind (·.name), v)

variable {im : List Operand} {b b' : Bench}

namespace Twin

/-- The first register of a name has the first register of that name in its place. -/
theorem register?_image (h : Twin im b b') (name : String) :
    register? b'.circuit name = (register? b.circuit name).map (NodeId.image im) := by
  have hfind : b.circuit.numbered.find? (fun e => (entryImage im e).any
        fun e' => e'.2.role = .register ∧ e'.2.name = some name) =
      b.circuit.numbered.find? fun e => e.2.role = .register ∧ e.2.name = some name := by
    refine List.find?_congr fun e hmem => ?_
    obtain ⟨id, n⟩ := e
    have hn := (Circuit.mem_numbered h.left.size).1 hmem
    rcases h.place_cases hn with ⟨id', hid, -, -⟩ | ⟨k, hk⟩
    · rw [entryImage, image_of_getElem? hid]
      rfl
    · -- what is gone is a result
      obtain ⟨m, hi, lo, a, j, hm, -, htaken⟩ := (h.folds.gone_of_constant h.left.size hk).operator
      obtain rfl := Option.some.inj (hn.symm.trans hm)
      rw [entryImage, image_of_getElem? hk]
      simp [htaken.role]
  rw [register?, register?, h.folds.numbered h.left.size, List.find?_filterMap]
  refine (congrArg (fun found => (found.bind (entryImage im)).map (·.1)) hfind).trans ?_
  show _ = ((b.circuit.numbered.find? fun e =>
    e.2.role = .register ∧ e.2.name = some name).map (·.1)).map (NodeId.image im)
  cases hsome : b.circuit.numbered.find? fun e => e.2.role = .register ∧ e.2.name = some name with
  | none => rfl
  | some e =>
    obtain ⟨id, n⟩ := e
    have hn := (Circuit.mem_numbered h.left.size).1 (List.mem_of_find?_eq_some hsome)
    have hpred := List.find?_some hsome
    have hrole : n.role = .register := (of_decide_eq_true hpred).1
    obtain ⟨id', hid, -, -⟩ := h.exists_place hn (.inl (by rw [hrole]; decide))
    simp only [Option.bind_some, Option.map_some, entryImage, image_of_getElem? hid,
      idImage_of_getElem? hid]

theorem input?_image (h : Twin im b b') (name : String) :
    (b'.circuit.inputs.find? (·.name = name)).map (·.node) =
      ((b.circuit.inputs.find? (·.name = name)).map (·.node)).map (NodeId.image im) := by
  rw [Circuit.inputs, Circuit.inputs, h.folds.ports h.left.size, List.filter_map, List.find?_map,
    Option.map_map, Option.map_map]
  rfl

/-- A place is what stands in the place of one node only. -/
theorem map_image_eq_some (h : Twin im b b') {id id' : NodeId}
    (hid : im[id.index.toNat]? = some (.node id')) {found : Option NodeId}
    (hfound : ∀ r, found = some r → ∃ r', im[r.index.toNat]? = some (.node r')) :
    found.map (NodeId.image im) = some id' ↔ found = some id := by
  constructor
  · intro hmap
    obtain ⟨r, hr, himage⟩ := Option.map_eq_some_iff.1 hmap
    obtain ⟨r', hr'⟩ := hfound r hr
    rw [idImage_of_getElem? hr'] at himage
    rw [himage] at hr'
    rw [hr, h.folds.image_injective h.left.size hr' hid]
  · rintro rfl
    rw [Option.map_some, idImage_of_getElem? hid]

/-- What is declared has the same width in both circuits. -/
theorem width_image (h : Twin im b b') {id id' : NodeId} {n : Node}
    (hn : b.circuit.node? id = some n) (hrole : n.role ≠ .result)
    (hid : im[id.index.toNat]? = some (.node id')) :
    ∃ w, b.width id = .ok w ∧ b'.width id' = .ok w := by
  obtain ⟨w, hw, -⟩ := h.width id n hn (h.left.isGround_of_role hn hrole)
  obtain ⟨id'', hid', -, hwidth⟩ := h.exists_place hn (.inl hrole)
  obtain rfl := Operand.node.inj (Option.some.inj (hid.symm.trans hid'))
  exact ⟨w, hw, hwidth w hw⟩

/-- What gives a register its state gives it to the register in its place. -/
theorem toRegister?_image (h : Twin im b b') {id id' : NodeId}
    (hid : im[id.index.toNat]? = some (.node id')) :
    Setting.toRegister? b'.circuit id' = Setting.toRegister? b.circuit id := by
  funext g
  cases g with
  | input name m => rfl
  | register name m =>
    have hfound : ∀ r, register? b.circuit name = some r →
        ∃ r', im[r.index.toNat]? = some (.node r') := by
      intro r hr
      obtain ⟨⟨r, m⟩, hfind, rfl⟩ := Option.map_eq_some_iff.1 hr
      have hm := (Circuit.mem_numbered h.left.size).1 (List.mem_of_find?_eq_some hfind)
      have hpred := List.find?_some hfind
      have hregister : m.role = .register := (of_decide_eq_true hpred).1
      obtain ⟨r', hr', -, -⟩ := h.exists_place hm (.inl (by rw [hregister]; decide))
      exact ⟨r', hr'⟩
    simp only [Setting.toRegister?, h.register?_image, h.map_image_eq_some hid hfound]

/-- What gives an input its value gives it to the input in its place. -/
theorem toInput?_image (h : Twin im b b') {id id' : NodeId}
    (hid : im[id.index.toNat]? = some (.node id')) :
    Setting.toInput? b'.circuit id' = Setting.toInput? b.circuit id := by
  funext g
  cases g with
  | register name m => rfl
  | input name m =>
    have hfound : ∀ r, (b.circuit.inputs.find? (·.name = name)).map (·.node) = some r →
        ∃ r', im[r.index.toNat]? = some (.node r') := by
      intro r hr
      obtain ⟨p, hfind, rfl⟩ := Option.map_eq_some_iff.1 hr
      obtain ⟨hp, -⟩ := List.mem_filter.1 (List.mem_of_find?_eq_some hfind)
      obtain ⟨m, hm, hport, -⟩ := h.left.grown.port_node h.left.size p hp
      obtain ⟨r', hr', -, -⟩ := h.exists_place hm (.inl (by rw [hport]; exact nofun))
      exact ⟨r', hr'⟩
    simp only [Setting.toInput?, h.input?_image, h.map_image_eq_some hid hfound]

/-- Benches that have been prepared in the same way have been given the same values. -/
theorem fed (h : Twin im b b') {gs : List Setting} (hb : Prepared b.circuit gs b)
    (hb' : Prepared b'.circuit gs b') : Fed im b b' := by
  constructor
  · intro id id' n hn hrole hid
    obtain ⟨w, hw, hw'⟩ := h.width_image hn (by rw [hrole]; decide) hid
    rw [hb.stateOf_eq hw, hb'.stateOf_eq hw', givenRegister, givenRegister, h.toRegister?_image hid]
  · intro id id' n hn hrole hid
    obtain ⟨w, hw, hw'⟩ := h.width_image hn (by rw [hrole]; decide) hid
    rw [hb.inputOf_eq hw, hb'.inputOf_eq hw', givenInput, givenInput, h.toInput?_image hid]

variable {e e' : Settled}

theorem portValues_eq (h : Twin im b b') (hf : Fed im b b') (hrun : b.run = .ok e)
    (hrun' : b'.run = .ok e') : e'.portValues = e.portValues := by
  have hm := h.matches_run hf hrun hrun'
  rw [Settled.portValues, Settled.portValues, (settle_reaches _ hrun).1, (settle_reaches _ hrun').1,
    h.folds.ports h.left.size, List.map_map]
  refine List.map_congr_left fun p hp => ?_
  obtain ⟨n, hn, hrole, -⟩ := h.left.grown.port_node h.left.size p hp
  have hdeclared : n.role ≠ .result := by rw [hrole]; exact nofun
  obtain ⟨id', hid, -, -⟩ := h.exists_place hn (.inl hdeclared)
  have hvalue : nodeValue? e.values p.node = nodeValue? e'.values id' := by
    rw [← imageValue?_node hid]
    exact hm p.node n hn hdeclared
  show (p.name, p.direction, nodeValue? e'.values (p.node.image im)) =
    (p.name, p.direction, nodeValue? e.values p.node)
  rw [idImage_of_getElem? hid, hvalue]

theorem nextStates_eq (h : Twin im b b') (hf : Fed im b b') (hrun : b.run = .ok e)
    (hrun' : b'.run = .ok e') : e'.nextStates = e.nextStates := by
  obtain ⟨p, -, -, -, -, hnext, -⟩ := h.left.exists_lastPass hrun
  rw [Settled.nextStates, Settled.nextStates, h.next_image hf hrun hrun', List.map_map,
    (settle_reaches _ hrun).1, (settle_reaches _ hrun').1]
  refine List.map_congr_left fun e hmem => ?_
  obtain ⟨id, v⟩ := e
  rw [hnext] at hmem
  obtain ⟨⟨id₀, n⟩, hentry, he⟩ := List.mem_filterMap.1 hmem
  dsimp only at he
  split at he
  · next hrole =>
    obtain ⟨rfl, -⟩ := Prod.mk.inj (Option.some.inj he)
    have hn := (Circuit.mem_numbered h.left.size).1 hentry
    obtain ⟨id', hid, hn', -⟩ := h.exists_place hn (.inl (by rw [hrole]; decide))
    show ((b'.circuit.node? (id₀.image im)).bind (·.name), v) =
      ((b.circuit.node? id₀).bind (·.name), v)
    rw [idImage_of_getElem? hid, hn, hn']
    rfl
  · cases he

end Twin

end Bench

/-! ## Both ways -/

namespace Script

open Bench (Prepared)

/-- **Folding agrees.**  A description that cannot tell literals from results ends alike with and without
    folding, unless it stops with folding at a call that takes the last bit of a literal of open width.
    If both circuits run on the same values given, they agree on every port and on the next state of every
    register, as long as no bits are taken of a negative literal above its payload.  For a single literal,
    and an index below the last one, this is exactly when the bits taken at once are those that the
    operator takes. -/
theorem folding_agrees {s : Script} (hs : s.Oblivious) (name : String)
    (settings : Settings.Elaboration) :
    (EndAlike (s.run (begin name (settings.folding false)))
        (s.run (begin name (settings.folding true))) ∨
      (∃ w, s.run (begin name (settings.folding true)) = .error .overflow w) ∧
        ∃ c ∈ s.calls (begin name (settings.folding true)), c.TakesLast) ∧
      (∀ c c' gs b b' e e', s.circuit? name (settings.folding false) = some c →
        s.circuit? name (settings.folding true) = some c' → c.nodes.length ≤ 2 ^ 32 →
        c.StaysWithin → Prepared c gs b → Prepared c' gs b' → b.run = .ok e → b'.run = .ok e' →
          e'.portValues = e.portValues ∧ e'.nextStates = e.nextStates) ∧
      ∀ (a : Signal) v w x, a.literal = some v → w.draft.settings.foldLiterals = true →
        Bench.constant ⟨a.kind, a.width, v⟩ = .ok x →
        (∀ hi lo : Int, 0 ≤ lo → lo ≤ hi → Draft.indexFits a.width hi = true → hi < 2 ^ 32 - 1 →
          hi - lo < Value.maxWidth → ∃ r w' payload,
            (Draft.extract a hi lo).run w = .ok (some r) w' ∧ r.literal = some payload ∧
            (payload.value =
                Operator.apply (.bits (.ofNat hi.toNat) (.ofNat lo.toNat)) [x] (hi - lo + 1).toNat ↔
              ¬ Constant.Overreaches ⟨a.kind, a.width, v⟩ (.ofNat hi.toNat))) ∧
        ∀ index : Int, 0 ≤ index → Draft.indexFits a.width index = true → index < 2 ^ 32 - 1 →
          ∃ r w' payload, (Draft.bit a index).run w = .ok (some r) w' ∧ r.literal = some payload ∧
            (payload.value =
                Operator.apply (.bits (.ofNat index.toNat) (.ofNat index.toNat)) [x] 1 ↔
              ¬ Constant.Overreaches ⟨a.kind, a.width, v⟩ (.ofNat index.toNat)) := by
  refine ⟨run_endAlike hs name settings, ?_, fun a v w x ha hon hx => ⟨?_, ?_⟩⟩
  · intro c c' gs b b' e e' hc hc' hsize hwithin hb hb' hrun hrun'
    obtain ⟨im, hfolds⟩ := folds_of_circuit? hs hc hc' hsize
    obtain ⟨o, m, hdescribe, ho⟩ := circuit?_eq_some.1 hc
    obtain ⟨o', m', hdescribe', ho'⟩ := circuit?_eq_some.1 hc'
    have hleft := hb.elaborated_of_describe? .empty hdescribe ho hsize
    have hright := hb'.elaborated_of_describe? .empty hdescribe' ho'
      (Nat.le_trans hfolds.length_le hsize)
    obtain rfl := hb.circuit_eq
    obtain rfl := hb'.circuit_eq
    have htwin : Bench.Twin im b b' :=
      ⟨hleft, hright, hfolds, fun id n hn hground => hb.exists_width hn hground, hwithin⟩
    have hfed := htwin.fed hb hb'
    exact ⟨htwin.portValues_eq hfed hrun hrun', htwin.nextStates_eq hfed hrun hrun'⟩
  · intro hi lo hlo hle hfits hreach hwidth
    exact Draft.extract_literal_iff ha hon hlo hle hfits hreach hwidth hx
  · intro index hindex hfits hreach
    exact Draft.bit_literal_iff ha hon hindex hfits hreach hx

/-! ## Where both ways agree, and where not -/

theorem circuit?_of_tryWith? {s : Script} {settings : Settings.Elaboration}
    {gs : List Bench.Setting} {b : Bench} {e : Bench.Settled}
    (h : Bench.tryWith? settings s gs = some (b, e)) : s.circuit? "t" settings = some b.circuit := by
  obtain ⟨o, m', hdescribe, hresult, -, -⟩ := Bench.tryWith?_eq_some h
  exact circuit?_eq_some.2 ⟨o, m', hdescribe, hresult⟩

/-- A call without a label whose value takes a name. -/
def named (name : String) (use : Call) (rest : Script) : Script :=
  .call ⟨"", false, some name⟩ use rest

/-- Bits of a literal, combined with an input, at an output and for a register. -/
def masked : Script :=
  named "k" (.literalUInt 0b101101 .unknown) <| named "m" (.extract "k" 4 1) <|
  named "a" (.declare (.port .input) "a" (.leaf (.template .uint (.known 4)))) <|
  named "y" (.declare (.port .output) "y" (.leaf (.template .uint (.known 4)))) <|
  named "q" (.declare .register "q" (.leaf (.template .uint (.known 4)))) <|
  named "v" (.binary .xor "a" "m") <|
  named "c" (.connect "y" "v") <| named "d" (.connect "q" "m") .done

/-- With 3 at its input, what is masked comes to 5, and the register goes from 9 to 6. -/
theorem masked_agrees : ∃ c c' b b' e e',
    masked.circuit? "t" (Settings.Elaboration.default.folding false) = some c ∧
      masked.circuit? "t" (Settings.Elaboration.default.folding true) = some c' ∧
      Prepared c [.input "a" 3, .register "q" 9] b ∧
      Prepared c' [.input "a" 3, .register "q" 9] b' ∧ b.run = .ok e ∧ b'.run = .ok e' ∧
      c.nodes.length = 5 ∧ c'.nodes.length = 4 ∧ c.StaysWithin ∧
      EndAlike (masked.run (begin "t" (Settings.Elaboration.default.folding false)))
        (masked.run (begin "t" (Settings.Elaboration.default.folding true))) ∧
      e'.portValues = e.portValues ∧ e'.nextStates = e.nextStates ∧
      e.portValues = [("a", .input, some 3), ("y", .output, some 5)] ∧
      e.nextStates = [(some "q", 6)] := by
  have hoff : (Bench.tryWith? (Settings.Elaboration.default.folding false) masked
      [.input "a" 3, .register "q" 9]).map (fun (_, e) => (e.portValues, e.nextStates)) =
      some ([("a", .input, some 3), ("y", .output, some 5)], [(some "q", 6)]) := by
    decide +kernel
  have hcircuit : (Bench.tryWith? (Settings.Elaboration.default.folding false) masked
      [.input "a" 3, .register "q" 9]).map
        (fun (b, _) => (b.circuit.nodes.length, decide b.circuit.StaysWithin)) =
      some (5, true) := by
    decide +kernel
  have hon : (Bench.tryWith? (Settings.Elaboration.default.folding true) masked
      [.input "a" 3, .register "q" 9]).map (fun (b, _) => b.circuit.nodes.length) = some 4 := by
    decide +kernel
  obtain ⟨⟨b, e⟩, htry, hvalues⟩ := Option.map_eq_some_iff.1 hoff
  obtain ⟨⟨b', e'⟩, htry', hlength'⟩ := Option.map_eq_some_iff.1 hon
  rw [htry] at hcircuit
  obtain ⟨hports, hnext⟩ := Prod.mk.inj hvalues
  obtain ⟨hlength, hwithin⟩ := Prod.mk.inj (Option.some.inj hcircuit)
  obtain ⟨-, -, -, -, hb, hrun⟩ := Bench.tryWith?_eq_some htry
  obtain ⟨-, -, -, -, hb', hrun'⟩ := Bench.tryWith?_eq_some htry'
  have hc := circuit?_of_tryWith? htry
  have hc' := circuit?_of_tryWith? htry'
  have hmasked : masked.Oblivious := trivial
  obtain ⟨halike, hcircuits, -⟩ := folding_agrees hmasked "t" .default
  have hagree := hcircuits _ _ _ _ _ _ _ hc hc' (by omega) (of_decide_eq_true hwithin) hb hb' hrun hrun'
  obtain ⟨w, hended, -⟩ := run_of_circuit? hc'
  have hsame := halike.resolve_right fun hstops => by
    obtain ⟨v, hstop⟩ := hstops.1
    cases hended.symm.trans hstop
  exact ⟨_, _, b, b', e, e', hc, hc', hb, hb', hrun, hrun', hlength, hlength',
    of_decide_eq_true hwithin, hsame, hagree.1, hagree.2, hports, hnext⟩

/-- Three bits of a negative literal of open width, above its only bit. -/
def overreaching : Script :=
  named "k" (.literalSInt (-1) .unknown) <| named "r" (.extract "k" 5 3) <|
  named "y" (.declare (.port .output) "y" (.leaf (.template .uint (.known 3)))) <|
  named "c" (.connect "y" "r") .done

/-- **Folding can differ.**  Taken at once, the bits are those of the sign; the operator reads zeros. -/
theorem overreach_differs : overreaching.Oblivious ∧ ∃ c c' b b' e e',
    overreaching.circuit? "t" (Settings.Elaboration.default.folding false) = some c ∧
      overreaching.circuit? "t" (Settings.Elaboration.default.folding true) = some c' ∧
      Prepared c [] b ∧ Prepared c' [] b' ∧ b.run = .ok e ∧ b'.run = .ok e' ∧
      e.portValues = [("y", .output, some 0)] ∧ e'.portValues = [("y", .output, some 7)] := by
  have hoff : (Bench.tryWith? (Settings.Elaboration.default.folding false) overreaching []).map
      (·.2.portValues) = some [("y", .output, some 0)] := by
    decide +kernel
  have hon : (Bench.tryWith? (Settings.Elaboration.default.folding true) overreaching []).map
      (·.2.portValues) = some [("y", .output, some 7)] := by
    decide +kernel
  obtain ⟨⟨b, e⟩, htry, hports⟩ := Option.map_eq_some_iff.1 hoff
  obtain ⟨⟨b', e'⟩, htry', hports'⟩ := Option.map_eq_some_iff.1 hon
  obtain ⟨-, -, -, -, hb, hrun⟩ := Bench.tryWith?_eq_some htry
  obtain ⟨-, -, -, -, hb', hrun'⟩ := Bench.tryWith?_eq_some htry'
  exact ⟨trivial, _, _, b, b', e, e', circuit?_of_tryWith? htry, circuit?_of_tryWith? htry', hb, hb',
    hrun, hrun', hports, hports'⟩

end Script

end Circuitry
