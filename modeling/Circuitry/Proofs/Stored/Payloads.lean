/-
  Payloads of literals that are read back.

  A bit string keeps its storage bits above the width clear, in exactly as many words as the width asks
  for (`Bits.WellFormed`).  That is what its readers rely on: no read of a bit goes outside the words,
  and two strings are equal exactly if they have one width and one value (`Bits.Faithful`).  Neither
  says less than the other (`Bits.wellFormed_iff_faithful`).

  1. What a description returns has such payloads only.
  2. Reading checks nothing of this.  A circuit comes back from its artifact and from its text with the
     payloads it went in with, and every width beside any words goes in (`exists_accepted`).

  So payloads that are read are well formed because of where they come from, not because they were read.
-/
import Circuitry.Proofs.Bench.Solution
import Circuitry.Proofs.Bits.Storage
import Circuitry.Proofs.Json.RoundTrip
import Circuitry.Proofs.Script.Described
import Circuitry.Proofs.Stored.RoundTrip

namespace Circuitry

/-! ## Payloads and their readers -/

namespace Bits

/-- What readers of a bit string rely on. -/
structure Faithful (a : Bits) : Prop where
  bit?_eq : ∀ index, a.bit? index = some (a.get index)
  eq_iff : ∀ b : Bits, b.WellFormed → (a = b ↔ a.width = b.width ∧ a.value = b.value)

/-- Equality alone pins the words down: the constructors make a string of every width and value. -/
theorem wellFormed_iff_faithful {a : Bits} : a.WellFormed ↔ a.Faithful := by
  constructor
  · intro h
    exact ⟨h.bit?_eq, fun _ => h.eq_iff⟩
  · intro h
    have hmade := wellFormed_ofNat a.width a.value
    have hvalue : a.value = (ofNat a.width a.value).value := by
      rw [value_ofNat, Nat.mod_eq_of_lt a.value_lt]
    have heq : a = ofNat a.width a.value := (h.eq_iff _ hmade).2 ⟨rfl, hvalue⟩
    rwa [← heq] at hmade

end Bits

/-! ## Circuits that are read -/

/-- A list nests one deeper than its items. -/
theorem Json.height_list {α : Type} {g : α → Json} {n : Nat} : ∀ {xs : List α},
    (∀ x ∈ xs, (g x).height ≤ n) → (list g xs).height ≤ n + 1
  | [], _ => Nat.succ_le_succ (Nat.zero_le n)
  | x :: xs, h => by
    rw [List.forall_mem_cons] at h
    have hrest := height_list h.2
    simp only [list, List.map_cons, height, itemsHeight] at hrest ⊢
    omega

namespace Circuit

/-- The payloads of the constants of a circuit. -/
def payloads (c : Circuit) : List Bits := c.constants.map Constant.value

/-- Some bytes are an artifact of the circuit, and some text is its text. -/
def Accepted (c : Circuit) : Prop :=
  (∃ bytes, Artifact.decode bytes = .ok c) ∧ ∃ text, ofText? text = some c

/-- A circuit of constants only, each of which drives the same node. -/
def holding (xs : List Bits) : Circuit :=
  ⟨"c", [], [], xs.map fun x => .connect ⟨0⟩ (.constant ⟨.uint, .known x.width, x⟩)⟩

theorem payloads_holding (xs : List Bits) : (holding xs).payloads = xs := by
  induction xs with
  | nil => rfl
  | cons x xs ih =>
    have hcons : (holding (x :: xs)).payloads = x :: (holding xs).payloads := rfl
    rw [hcons, ih]

theorem sized_holding {xs : List Bits} (hlength : xs.length < 2 ^ 64) (h : ∀ x ∈ xs, x.Sized) :
    (holding xs).Sized where
  name := show SizedText "c" by decide +kernel
  nodeCount := Nat.two_pow_pos 64
  nodes := nofun
  portCount := Nat.two_pow_pos 64
  ports := nofun
  commandCount := by
    show (xs.map _).length < 2 ^ 64
    rwa [List.length_map]
  commands := by
    intro cmd hcmd
    obtain ⟨x, hx, rfl⟩ := List.mem_map.1 hcmd
    exact h x hx

/-- The form of a circuit of constants nests eight deep, whatever the constants are. -/
theorem height_holding (xs : List Bits) : (holding xs).toJson.height ≤ Json.maxDepth := by
  have hwords : ∀ x : Bits, (Json.list (fun w : UInt64 => .nat w.toNat) x.words).height ≤ 1 :=
    fun x => Json.height_list fun _ _ => Nat.le_refl 0
  have hcommand : ∀ x : Bits,
      (Command.connect ⟨0⟩ (.constant ⟨.uint, .known x.width, x⟩)).toJson.height ≤ 6 := by
    intro x
    have hx := hwords x
    simp only [Command.toJson, Operand.toJson, Constant.toJson, Bits.toJson, Kind.toJson,
      Width.toJson, NodeId.toJson, Json.tagged, Json.nat, Json.height, Json.membersHeight] at hx ⊢
    omega
  have hcommands : (Json.list Command.toJson (holding xs).commands).height ≤ 7 := by
    refine Json.height_list fun cmd hcmd => ?_
    obtain ⟨x, -, rfl⟩ := List.mem_map.1 hcmd
    exact hcommand x
  have hall : (holding xs).toJson.height ≤ 8 := by
    simp only [toJson, Json.height, Json.membersHeight]
    simp only [holding, Json.list, Json.height, List.map_nil, Json.itemsHeight] at hcommands ⊢
    omega
  exact Nat.le_trans hall (by decide)

theorem accepted_holding {xs : List Bits} (hlength : xs.length < 2 ^ 64) (h : ∀ x ∈ xs, x.Sized) :
    (holding xs).Accepted :=
  ⟨⟨_, (sized_holding hlength h).round_trip.1⟩, ⟨_, (text_round_trip (height_holding xs)).1⟩⟩

/-- What a description returns has well-formed payloads only. -/
theorem payloads_of_describe? {s : Script} {m m' : Script.Memory} {name : String}
    {settings : Settings.Elaboration} {o : Script.Outcome} {c : Circuit} (hm : m.Reached)
    (hdescribe : s.describe? m name settings = some (o, m')) (hc : o.result = .ok c) :
    ∀ a ∈ c.payloads, a.WellFormed := by
  intro a ha
  obtain ⟨k, hk, rfl⟩ := List.mem_map.1 ha
  exact (Script.suits_of_describe? hm hdescribe hc k hk).payload.wellFormed

/-- Every width beside any words is a payload of some circuit that is accepted. -/
theorem exists_accepted {a : Bits} (h : a.Sized) : ∃ c : Circuit, c.Accepted ∧ a ∈ c.payloads := by
  refine ⟨holding [a], accepted_holding (by simp) fun x hx => List.mem_singleton.1 hx ▸ h, ?_⟩
  rw [payloads_holding]
  exact List.mem_singleton_self a

/-- **What is read and what is checked.**  A circuit comes back from its artifact and from its text
    whatever its payloads are.  Its readers are served rightly exactly if all of them are well formed,
    and so they are if a description returned the circuit. -/
theorem accepted_payloads (c : Circuit) :
    (c.Sized → c.toJson.height ≤ Json.maxDepth →
      Artifact.decode (Artifact.encode c) = .ok c ∧ ofText? c.jsonText = some c) ∧
    ((∀ a ∈ c.payloads, a.Faithful) ↔ ∀ a ∈ c.payloads, a.WellFormed) ∧
    ∀ {s : Script} {m m' : Script.Memory} {name : String} {settings : Settings.Elaboration}
      {o : Script.Outcome}, m.Reached → s.describe? m name settings = some (o, m') →
      o.result = .ok c → ∀ a ∈ c.payloads, a.WellFormed := by
  refine ⟨fun hsized hheight => ?_, ?_, payloads_of_describe?⟩
  · exact ⟨hsized.round_trip.1, (text_round_trip hheight).1⟩
  · exact forall₂_congr fun _ _ => Bits.wellFormed_iff_faithful.symm

/-- An output of 65 bits that is driven by a literal of two words. -/
def wide : Circuit where
  name := "t"
  nodes := [⟨.element .uint (.known 65), .port .output, some "y", .defined, .unknown⟩]
  ports := [⟨"y", .output, ⟨0⟩⟩]
  commands :=
    [.defPort ⟨0⟩ .output "y", .connect ⟨0⟩ (.constant ⟨.uint, .known 65, ⟨65, [5, 1]⟩⟩)]

theorem wide_sized : wide.Sized where
  name := by decide +kernel
  nodeCount := by decide
  nodes := by
    rintro n (_ | ⟨_, ⟨⟩⟩)
    exact
      { ty := trivial
        name := by
          rintro s ⟨⟩
          decide +kernel
        file := by decide +kernel }
  portCount := by decide
  ports := by
    rintro p (_ | ⟨_, ⟨⟩⟩)
    decide +kernel
  commandCount := by decide
  commands := by
    rintro cmd (_ | ⟨_, _ | ⟨_, ⟨⟩⟩⟩)
    · show SizedText "y"
      decide +kernel
    · show 2 < 2 ^ 64
      decide

/-- A description that returns it. -/
def describesWide : Script :=
  .call ⟨"", false, some "y"⟩ (.declare (.port .output) "y" (.leaf (.template .uint (.known 65)))) <|
    .call ⟨"", false, some "k"⟩ (.literalUInt (2 ^ 64 + 5) (.known 65)) <|
      .call ⟨"", false, none⟩ (.connect "y" "k") .done

theorem wide_payloads :
    Artifact.decode (Artifact.encode wide) = .ok wide ∧ ofText? wide.jsonText = some wide ∧
      (⟨65, [5, 1]⟩ : Bits).WellFormed ∧ (⟨65, [5, 1]⟩ : Bits).bit? 64 = some true := by
  have hreturns : (describesWide.describe? .empty "t" .default).bind (·.1.result.toOption) =
      some wide := by
    decide +kernel
  obtain ⟨⟨o, m'⟩, hdescribe, hc⟩ := Option.bind_eq_some_iff.1 hreturns
  obtain ⟨haccepted, hfaithful, hdescribed⟩ := accepted_payloads wide
  obtain ⟨hartifact, htext⟩ := haccepted wide_sized (by decide +kernel)
  have hwf := hdescribed .empty hdescribe (Bench.eq_ok_of_toOption hc)
  have hmem : (⟨65, [5, 1]⟩ : Bits) ∈ wide.payloads := by decide +kernel
  have hbit := (hfaithful.2 hwf _ hmem).bit?_eq 64
  exact ⟨hartifact, htext, hwf _ hmem, hbit.trans (by decide +kernel)⟩

/-- **Payloads that are read and not well formed.**  A stored bit above the width makes two payloads of
    one width and one value differ, and where a word is missing a bit cannot be read. -/
theorem illFormed_accepted : ∃ c : Circuit, c.Accepted ∧ ∃ a b short, c.payloads = [a, b, short] ∧
    (a.width = b.width ∧ a.value = b.value ∧ a ≠ b ∧ ¬ a.WellFormed) ∧
    (short.bit? 64 = none ∧ ¬ short.WellFormed) := by
  have haccepted : (holding [⟨1, [3]⟩, ⟨1, [1]⟩, ⟨65, [0]⟩]).Accepted := by
    refine accepted_holding (by decide) ?_
    rintro x (_ | ⟨_, _ | ⟨_, _ | ⟨_, ⟨⟩⟩⟩⟩) <;> exact (by decide : 1 < 2 ^ 64)
  refine ⟨_, haccepted, _, _, _, payloads_holding _, ⟨by decide, by decide, by decide, ?_⟩,
    by decide, ?_⟩
  · intro h
    exact absurd h.value_lt (by decide)
  · intro h
    exact absurd h.words_length (by decide)

end Circuit

end Circuitry
