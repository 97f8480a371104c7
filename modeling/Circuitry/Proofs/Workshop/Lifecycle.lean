/-
  The life of a signal across circuits.

  A program works on any number of circuits at a time, in any order, and hands signals from one to
  another.  Whatever it does:

  1. a signal keeps its kind, its width and its literal value, and once it is bound it stays bound to
     the same node of the same circuit in the same role (`Workshop.Lasts`);
  2. a signal that is bound in a circuit is bound to a node of its own type, in its own role, no two
     signals share a node, and the commands of a circuit use only nodes that signals are bound to in
     this very circuit (`Workshop.Sound`);
  3. a call on a circuit, or a condition of a chain, takes a signal as an operand if and only if it is
     a literal or is bound in this very circuit (`Workshop.Gated`).

  The ids of nodes are numbers counted from zero in every circuit, so nothing in a command itself tells
  one circuit from another.  What rules a mistake out is an invariant of all circuits together
  (`Kept`): each is sound as its own session, and what is done to one of them leaves the others so.
-/
import Circuitry.Proofs.Draft.Sharing
import Circuitry.Proofs.Script.Gate
import Circuitry.Workshop

namespace Circuitry.Workshop

open Draft (Build Gate Session Stable)
open Draft.Session (Mark Registered Shared)
open Script (Answer Answers Holding Performs Run RunMakes Step World answered held)

/-! ## What is to be shown -/

/-- What is the same at a later moment. -/
structure Lasts (w w' : Workshop) : Prop where
  handles : held w.values ⊆ held w'.values
  /-- Signals are known by their serial numbers; the rest of them never changes. -/
  fixed : ∀ s ∈ held w.values, ∀ r ∈ held w'.values, r.serial = s.serial → r = s
  /-- Role, circuit and node are set at once, and only of a template. -/
  once : ∀ s, w.signals.standing s ≠ .template → w'.signals.standing s = w.signals.standing s

/-- How signals and nodes belong together.  Ids are told apart up to `2 ^ 32` nodes. -/
structure Sound (w : Workshop) : Prop where
  /-- A bound signal has an entry of its type and role in the circuit that it is bound in. -/
  entry : ∀ s ∈ held w.values, ∀ b, w.signals.standing s = .bound b →
    ∃ d, w.drafts[b.context]? = some d ∧ (d.nodes.length ≤ 2 ^ 32 →
      ∃ n, d.nodes[b.id.index.toNat]? = some n ∧ n.ty = s.ty ∧ n.role = b.role)
  single : ∀ s ∈ held w.values, ∀ r ∈ held w.values, ∀ b c,
    w.signals.standing s = .bound b → w.signals.standing r = .bound c →
    b.context = c.context → b.id = c.id →
    (∀ d, w.drafts[b.context]? = some d → d.nodes.length ≤ 2 ^ 32) → s = r
  /-- A command of a circuit uses only nodes that signals are bound to in this circuit. -/
  cites : ∀ c d, w.drafts[c]? = some d → ∀ cmd ∈ d.commands, ∀ id ∈ cmd.uses,
    ∃ e ∈ w.signals.bindings, e.2.context = c ∧ e.2.id = id

/-- The signal is a literal, or bound in the circuit. -/
def Admits (w : Workshop) (context : Nat) (s : Signal) : Prop :=
  match w.signals.standing s with
  | .literal _ => True
  | .template => False
  | .bound b => b.context = context

/-- What a use takes as operands. -/
def Use.operands (w : World) : Use → List Signal
  | .call use => use.operands w
  | .whenBegin pred _ => w.leavesOf pred
  | .whenEnd _ | .altBegin _ | .otherwiseEnd _ => []

/-- What a use drives. -/
def Use.targets (w : World) : Use → List Signal
  | .call use => use.targets w
  | .whenBegin _ _ | .whenEnd _ | .altBegin _ | .otherwiseEnd _ => []

/-- What can be an operand of a use of a circuit. -/
structure Gated (w : Workshop) : Prop where
  /-- A use that goes through has taken nothing else. -/
  taken : ∀ c d, w.drafts[c]? = some d → ∀ (use : Use) log r v,
    use.meaning (w.world d log) = .ok r v → ∀ s ∈ use.operands (w.world d log), w.Admits c s
  /-- A use that turns a signal away has been given one that it had to turn away. -/
  turnedAway : ∀ c d, w.drafts[c]? = some d → ∀ (use : Use) log ty why v,
    use.meaning (w.world d log) = .error (.fault (.notSynthesizable ty why)) v →
    ∃ s ∈ use.operands (w.world d log) ++ use.targets (w.world d log),
      ¬ w.Admits c s ∧ s.ty = ty

/-! ## Uses go step by step -/

section Steps

variable {I : List Signal → Session → Prop} (hI : Stable I)
  (hM : ∀ ⦃L : List Signal⦄ ⦃w w' : Session⦄, Mark L w w' → I L w → I L w')

include hI hM

theorem makes_use (use : Use) : RunMakes I answered use.meaning := by
  have hmark : ∀ {cmd : Command}, (∀ L w, Mark L w (w.emitted cmd)) → RunMakes I answered (do
      Draft.emit cmd
      Script.answerOnly .nothing) := fun h =>
    .bind (Script.keeps_mark hM h) fun _ => Script.makes_answerOnly (fun _ hw => hw) _
  cases use with
  | call use => exact Script.makes_meaning hI use
  | whenBegin pred depth =>
    exact .bind (Script.boolean_finds pred) fun s =>
      Script.makes_opening hM depth s (Script.makes_answerOnly (fun _ hw => hw) _)
  | whenEnd depth => exact hmark fun _ _ => .whenEnd depth
  | altBegin depth => exact hmark fun _ _ => .altBegin depth
  | otherwiseEnd depth => exact hmark fun _ _ => .otherwiseEnd depth

end Steps

/-! ## Uses are single operations -/

/-- The operation that a use comes to. -/
inductive Use.Operates (w : World) : Use → (α : Type) → Build α → Prop
  | call {use : Script.Call} {α : Type} {op : Build α} (h : use.Operates w α op) :
      Operates w (.call use) α op
  | whenBegin {pred : String} {s : Signal} (hs : w.values.lookup pred = some (.leaf s))
      (depth : UInt32) : Operates w (.whenBegin pred depth) Unit
        (do Draft.emit (.whenBegin (← Draft.operand s) depth))
  | whenEnd (depth : UInt32) :
      Operates w (.whenEnd depth) Unit (Draft.emit (.whenEnd depth))
  | altBegin (depth : UInt32) :
      Operates w (.altBegin depth) Unit (Draft.emit (.altBegin depth))
  | otherwiseEnd (depth : UInt32) :
      Operates w (.otherwiseEnd depth) Unit (Draft.emit (.otherwiseEnd depth))

theorem performs_use (use : Use) {w : World} : Performs w (use.Operates w) use.meaning := by
  have hanswer : ∀ _ : Unit, Answers (Script.answerOnly .nothing) :=
    fun _ => Script.answers_answerOnly _
  cases use with
  | call use => exact (Script.performs_meaning use).mono fun _ _ => .call
  | whenBegin pred depth =>
    exact .lookUp (Script.boolean_looksUp pred) fun s hs =>
      .lift_seq (.whenBegin hs depth) hanswer
  | whenEnd depth => exact .before (.lift (.whenEnd depth)) hanswer
  | altBegin depth => exact .before (.lift (.altBegin depth)) hanswer
  | otherwiseEnd depth => exact .before (.lift (.otherwiseEnd depth)) hanswer

/-- A command by itself turns nothing away. -/
theorem gate_emit (cmd : Command) {all : List Signal} {s : Session} :
    Gate [] all s (Draft.emit cmd) :=
  .silent ⟨(), s.emitted cmd, rfl, rfl⟩

theorem Use.Operates.gate {w : World} {use : Use} {α : Type} {op : Build α} {s : Session}
    (h : use.Operates w α op) :
    Gate (use.operands w) (use.operands w ++ use.targets w) s op := by
  cases h with
  | call h => exact h.gate
  | whenBegin hs depth =>
    simp only [operands, World.leavesOf_eq hs]
    exact .operand (List.mem_append_left _ (List.mem_singleton_self _)) fun _ => gate_emit _
  | whenEnd | altBegin | otherwiseEnd => exact gate_emit _

theorem held_keep (w : World) (name : Option String) (value : Option Draft.Bundle) :
    w.around ⊆ (w.keep name value).around := by
  unfold World.keep
  split
  · exact List.subset_append_right _ _
  · exact List.Subset.refl _

/-- Variables keep what they hold. -/
theorem around_perform {w : World} {operations : (α : Type) → Build α → Prop}
    {act : Run (Answer × Option Draft.Bundle)} (h : Performs w operations act) (step : Step) :
    Triple (· = w) (step.perform act) (fun _ v => w.around ⊆ v.around) (fun _ _ => True) := by
  rintro w rfl
  have hact := h w rfl
  unfold Step.perform
  cases hr : act w with
  | ok r v =>
    rw [hr] at hact
    obtain ⟨_, _, _, _, s, -, -, rfl⟩ := hact
    exact held_keep { w with session := s } step.bindAs r.2
  | error e v =>
    rw [hr] at hact
    cases e with
    | nonsense | overflow => trivial
    | fault f =>
      obtain ⟨_, _, _, s, -, -, rfl⟩ := hact f rfl
      cases ha : step.attempt with
      | true => simp
      | false => simp

/-! ## All circuits together -/

/-- Each circuit is sound as a session of its own, under the number of its place. -/
structure Kept (w : Workshop) : Prop where
  registered : Registered (held w.values) w.signals
  /-- Nothing is bound under a number that is still to come. -/
  homes : ∀ e ∈ w.signals.bindings, e.2.context < w.drafts.length
  numbered : ∀ (c : Nat) (d : Draft), w.drafts[c]? = some d → d.context = c
  sound : ∀ d ∈ w.drafts, Session.Sound (held w.values) ⟨w.signals, d⟩

theorem kept_empty : Kept empty where
  registered := ⟨List.forall_mem_nil _, List.forall_mem_nil _, List.forall_mem_nil _⟩
  homes := List.forall_mem_nil _
  numbered _ _ hd := nomatch hd
  sound := List.forall_mem_nil _

/-- Nothing is bound in a circuit that has just been begun. -/
theorem sound_begun {w : Workshop} (h : w.Kept) (name : String) (settings : Settings.Elaboration) :
    Session.Sound (held w.values) ⟨w.signals, .empty w.drafts.length name settings⟩ where
  lawful := Draft.Session.lawful_empty h.registered h.homes
  single _ _ _ _ _ _ _ hb _ hc _ _ :=
    absurd hc (Nat.ne_of_lt (h.homes _ (Draft.Session.mem_bindings hb)))
  cites := List.forall_mem_nil _

theorem kept_begin {w : Workshop} (h : w.Kept) (name : String) (settings : Settings.Elaboration) :
    (w.act (.begin name settings)).Kept where
  registered := h.registered
  homes e he := by
    show _ < (w.drafts ++ [_]).length
    rw [List.length_append]
    exact Nat.lt_add_right _ (h.homes e he)
  numbered c d hd := by
    by_cases hc : c < w.drafts.length
    · exact h.numbered c d ((List.getElem?_append_left hc).symm.trans hd)
    · -- the one that has been begun stands at the end
      obtain ⟨hlt, rfl⟩ := List.getElem?_eq_some_iff.1 hd
      have heq : c = w.drafts.length := by
        have hle : c < w.drafts.length + 1 := by simpa [act] using hlt
        omega
      subst heq
      simp [act, Draft.empty]
  sound d hd := by
    rcases List.mem_append.1 hd with hd | hd
    · exact h.sound d hd
    · exact List.mem_singleton.1 hd ▸ sound_begun h name settings

/-- What a use makes of all circuits. -/
theorem shared_perform {w : Workshop} (h : w.Kept) {context : Nat} {d : Draft}
    (hd : w.drafts[context]? = some d) (step : Step) (use : Use)
    {log : List Script.Entry} {v : World}
    (hv : step.perform use.meaning (w.world d log) = .ok () v) :
    Shared context w.signals w.drafts v.around v.session := by
  have hkeeps := Script.keeps_perform (I := Shared context w.signals w.drafts)
    Draft.Session.stable_shared step
    (makes_use Draft.Session.stable_shared (fun _ _ _ => Draft.Session.mark_shared) use)
  have hstart : Shared context w.signals w.drafts (held w.values) ⟨w.signals, d⟩ :=
    { context_eq := h.numbered context d hd
      sound := h.sound d (List.mem_of_getElem? hd)
      later := .refl
      aside := fun d' hd' _ => h.sound d' hd' }
  exact hkeeps.of_ok (s := w.world d log) hstart hv

theorem kept_put {w : Workshop} (h : w.Kept) {context : Nat} (hlt : context < w.drafts.length)
    {v : World} (hv : Shared context w.signals w.drafts v.around v.session) :
    (w.put context v).Kept where
  registered := hv.sound.lawful.registered
  homes e he := by
    show _ < (w.drafts.set context v.session.draft).length
    rw [List.length_set]
    obtain ⟨new, hnew, hcontext⟩ := hv.later.added
    rcases List.mem_append.1 (hnew ▸ he) with he | he
    · exact hcontext e he ▸ hlt
    · exact h.homes e he
  numbered c d hd := by
    by_cases hc : context = c
    · subst hc
      rw [put, List.getElem?_set_self hlt] at hd
      exact Option.some.inj hd ▸ hv.context_eq
    · rw [put, List.getElem?_set_ne hc] at hd
      exact h.numbered c d hd
  sound d hd := by
    obtain ⟨c, hd⟩ := List.getElem?_of_mem hd
    by_cases hc : context = c
    · subst hc
      rw [put, List.getElem?_set_self hlt] at hd
      exact Option.some.inj hd ▸ hv.sound
    · rw [put, List.getElem?_set_ne hc] at hd
      have hne : d.context ≠ context := fun heq => hc (heq.symm.trans (h.numbered c d hd))
      exact hv.aside d (List.mem_of_getElem? hd) hne

/-! ## One act after the other -/

namespace Lasts

variable {w w' w'' : Workshop}

theorem refl (h : w.Kept) : w.Lasts w where
  handles := List.Subset.refl _
  fixed s hs r hr := h.registered.unique r hr s hs
  once _ _ := rfl

theorem trans (h : w.Lasts w') (h' : w'.Lasts w'') : w.Lasts w'' where
  handles := List.Subset.trans h.handles h'.handles
  fixed s hs := h'.fixed s (h.handles hs)
  once s hs := by
    have honce := h.once s hs
    exact (h'.once s (honce ▸ hs)).trans honce

end Lasts

/-- A use does nothing, or leaves what it has made of its draft. -/
theorem act_use (w : Workshop) (context : Nat) (log : List Script.Entry) (bindAs : Option String)
    (use : Use) :
    w.act (.use context log bindAs use) = w ∨ ∃ d v, w.drafts[context]? = some d ∧
      Step.perform ⟨"", true, bindAs⟩ use.meaning (w.world d log) = .ok () v ∧
      w.act (.use context log bindAs use) = w.put context v := by
  cases hd : w.drafts[context]? with
  | none => exact .inl (by simp only [act, hd])
  | some d =>
    cases hv : Step.perform ⟨"", true, bindAs⟩ use.meaning (w.world d log) with
    | error e v => exact .inl (by simp only [act, hd, hv])
    | ok u v => exact .inr ⟨d, v, rfl, hv, by simp only [act, hd, hv]⟩

/-- **One act.**  All circuits stay sound, and what was settled lasts. -/
theorem act_keeps {w : Workshop} (h : w.Kept) (a : Act) :
    (w.act a).Kept ∧ w.Lasts (w.act a) := by
  cases a with
  | begin name settings =>
    have hlasts := Lasts.refl h
    exact ⟨kept_begin h name settings, hlasts.handles, hlasts.fixed, hlasts.once⟩
  | use context log bindAs use =>
    obtain heq | ⟨d, v, hd, hv, heq⟩ := act_use w context log bindAs use
    · rw [heq]
      exact ⟨h, .refl h⟩
    · rw [heq]
      have hshared := shared_perform h hd _ use hv
      have hkept := kept_put h (List.getElem?_eq_some_iff.1 hd).1 hshared
      have hheld : held w.values ⊆ held v.values :=
        (around_perform (performs_use use) _).of_ok rfl hv
      refine ⟨hkept, hheld, fun s hs r hr => ?_, hshared.later.kept⟩
      exact hkept.registered.unique r hr s (hheld hs)

/-- **All acts.** -/
theorem run_keeps (acts : List Act) : ∀ {w : Workshop}, w.Kept →
    (w.run acts).Kept ∧ w.Lasts (w.run acts) := by
  induction acts with
  | nil => exact fun h => ⟨h, .refl h⟩
  | cons a rest ih =>
    intro w h
    obtain ⟨hkept, hlasts⟩ := act_keeps h a
    obtain ⟨hkept', hlasts'⟩ := ih hkept
    exact ⟨hkept', hlasts.trans hlasts'⟩

/-! ## The life of a signal -/

theorem Kept.entries {w : Workshop} (h : w.Kept) : w.Sound where
  entry s hs b hb := by
    have hlt := h.homes _ (Draft.Session.mem_bindings hb)
    have hd := List.getElem?_eq_getElem hlt
    refine ⟨_, hd, fun hlen => ?_⟩
    have hsound := h.sound _ (List.getElem_mem hlt)
    obtain ⟨n, hn, hrole, hty⟩ :=
      (hsound.lawful.consistent hlen).bound s hs b hb (h.numbered _ _ hd).symm
    exact ⟨n, hn, hty, hrole⟩
  single s hs r hr b c hb hc hcontext hid hlen := by
    have hlt := h.homes _ (Draft.Session.mem_bindings hb)
    have hd := List.getElem?_eq_getElem hlt
    have hnumber := h.numbered _ _ hd
    have hsound := h.sound _ (List.getElem_mem hlt)
    exact hsound.single (hlen _ hd) s hs r hr b c hb hc hnumber.symm
      (hcontext.symm.trans hnumber.symm) hid
  cites c d hd cmd hcmd id hid := by
    obtain ⟨e, he, hcontext, hhere⟩ := (h.sound d (List.mem_of_getElem? hd)).cites cmd hcmd id hid
    exact ⟨e, he, hcontext.trans (h.numbered c d hd), hhere⟩

/-- An operand of a circuit is a literal, or bound in it. -/
theorem admits_iff {w : Workshop} {context : Nat} {d : Draft} (hd : d.context = context)
    (s : Signal) : w.Admits context s ↔ Session.Ready ⟨w.signals, d⟩ s := by
  unfold Admits
  constructor
  · intro h
    split at h
    · next v hs => exact ⟨_, .literal (Signals.literal_of_standing hs)⟩
    · exact h.elim
    · next b hs => exact ⟨_, .node hs (h.trans hd.symm)⟩
  · rintro ⟨a, ha⟩
    cases ha with
    | literal hl => simp [Signals.standing, hl]
    | node hb hc => simpa [hb, hd] using hc

theorem Kept.gated {w : Workshop} (h : w.Kept) : w.Gated where
  taken c d hd use log r v hv s hs := by
    rw [admits_iff (h.numbered c d hd)]
    exact (performs_use use).ready (fun hop => hop.gate) hv s hs
  turnedAway c d hd use log ty why v hv := by
    obtain ⟨s, hs, hunready, hty⟩ := (performs_use use).unready (fun hop => hop.gate) hv
    refine ⟨s, hs, ?_, hty⟩
    rw [admits_iff (h.numbered c d hd)]
    exact hunready.not_ready

/-- **The life of a signal across circuits.** -/
theorem run_lifecycle (acts later : List Act) :
    (empty.run acts).Lasts (empty.run (acts ++ later)) ∧ (empty.run acts).Sound ∧
      (empty.run acts).Gated := by
  have hkept := (run_keeps acts kept_empty).1
  have hlater : empty.run (acts ++ later) = (empty.run acts).run later := List.foldl_append
  rw [hlater]
  exact ⟨(run_keeps later hkept).2, hkept.entries, hkept.gated⟩

/-- Two wires of two circuits have the same id.  A circuit takes its own wire as a source, and not the
    other one. -/
example :
    let wire (context : Nat) (name : String) : Act := .use context [] (some name)
      (.call (.declare .wire name (.leaf (.template .bool (.known 1)))))
    let connect (target source : String) : Act := .use 1 [] none (.call (.connect target source))
    let w := empty.run [.begin "a" .default, .begin "b" .default, wire 0 "x", wire 1 "y",
      connect "y" "x", connect "y" "y"]
    w.drafts.map (·.commands) =
      [[.defWire ⟨0⟩], [.defWire ⟨0⟩, .connect ⟨0⟩ (.node ⟨0⟩)]] := by
  decide +kernel

end Circuitry.Workshop
