/-
  Two runs of one description, side by side.

  A description runs once without folding and once with folding.  Its signals get the same serial
  numbers in both runs; only where the first has made an operator that takes bits of what is a literal
  in the second, the second has made a literal.  A `Ledger` keeps the books: it has the literals that
  stand for such results, by their serial numbers, and what stands in the places of nodes.

  1. Ledgers only grow (`Ledger.Le`), and what has been entered for a signal stays (`twin_mono`);
  2. `Sim l act act' R` says that from states that are twins under `l` the two actions end alike, in
     states that are twins under a later ledger, with results in `R`.

  As with triples, there is one rule for each way in which actions are put together.
-/
import Mathlib.Data.List.Forall2
import Circuitry.Proofs.Folding.Image

namespace Circuitry

/-- The books of two runs. -/
structure Ledger where
  /-- The next serial number. -/
  next : Nat
  /-- The literals that stand for results. -/
  folded : Nat → Option Constant
  /-- What stands in the places of nodes. -/
  images : List Operand

namespace Ledger

/-- Nothing entered yet. -/
def empty : Ledger := ⟨0, fun _ => none, []⟩

/-- More has been entered. -/
structure Le (l l' : Ledger) : Prop where
  next : l.next ≤ l'.next
  folded : ∀ n, n < l.next → l'.folded n = l.folded n
  images : l.images <+: l'.images

variable {l l' l'' : Ledger}

theorem Le.refl (l : Ledger) : l.Le l := ⟨Nat.le_refl _, fun _ _ => rfl, List.prefix_rfl⟩

theorem Le.trans (h : l.Le l') (h' : l'.Le l'') : l.Le l'' where
  next := Nat.le_trans h.next h'.next
  folded n hn := (h'.folded n (Nat.lt_of_lt_of_le hn h.next)).trans (h.folded n hn)
  images := h.images.trans h'.images

/-! ## Signals -/

/-- What a signal of the first run is in the second. -/
def twin (l : Ledger) (s : Signal) : Signal :=
  { s with literal := s.literal.or ((l.folded s.serial).map (·.value)) }

/-- The signal is there, and the entry for it is one of its kind. -/
structure Knows (l : Ledger) (s : Signal) : Prop where
  old : s.serial < l.next
  entry : ∀ k, l.folded s.serial = some k → s.literal = none ∧ k.kind = s.kind ∧ k.width = s.width

theorem Knows.mono {s : Signal} (h : l.Knows s) (hle : l.Le l') : l'.Knows s := by
  refine ⟨Nat.lt_of_lt_of_le h.old hle.next, fun k hk => h.entry k ?_⟩
  rw [← hle.folded _ h.old]
  exact hk

theorem twin_mono {s : Signal} (h : l.Knows s) (hle : l.Le l') : l'.twin s = l.twin s := by
  rw [twin, twin, hle.folded _ h.old]

/-- A signal without an entry is the same in both runs. -/
theorem twin_of_folded {s : Signal} (h : l.folded s.serial = none) : l.twin s = s := by
  rw [twin, h, Option.map_none, Option.or_none]

/-- The same signal in both runs. -/
structure Same (l : Ledger) (s s' : Signal) : Prop where
  known : l.Knows s
  eq : s' = l.twin s

theorem Same.kind {s s' : Signal} (h : l.Same s s') : s'.kind = s.kind := by rw [h.eq, twin]

theorem Same.width {s s' : Signal} (h : l.Same s s') : s'.width = s.width := by rw [h.eq, twin]

theorem Same.ty {s s' : Signal} (h : l.Same s s') : s'.ty = s.ty := by
  rw [Signal.ty, Signal.ty, h.kind, h.width]

theorem Same.mono {s s' : Signal} (h : l.Same s s') (hle : l.Le l') : l'.Same s s' :=
  ⟨h.known.mono hle, h.eq.trans (twin_mono h.known hle).symm⟩

theorem Same.of_folded {s : Signal} (hold : s.serial < l.next) (h : l.folded s.serial = none) :
    l.Same s s := by
  refine ⟨⟨hold, fun k hk => ?_⟩, (twin_of_folded h).symm⟩
  rw [h] at hk
  cases hk

/-- The ids of the nodes fit 32 bits. -/
def Fits (l : Ledger) : Prop := l.images.length ≤ 2 ^ 32

theorem Fits.of_le (h : l'.Fits) (hle : l.Le l') : l.Fits :=
  Nat.le_trans hle.images.length_le h

/-- Operands of the two runs, the second what stands in the place of the first. -/
structure Stands (l : Ledger) (a a' : Operand) : Prop where
  there : ∀ id ∈ a.nodes, id.index.toNat < l.images.length
  image : a.image l.images = a'

theorem Stands.mono {a a' : Operand} (h : l.Stands a a') (hle : l.Le l') : l'.Stands a a' := by
  obtain ⟨more, hmore⟩ := hle.images
  refine ⟨fun id hid => Nat.lt_of_lt_of_le (h.there id hid) hle.images.length_le, ?_⟩
  rw [← hmore, image_append more h.there]
  exact h.image

/-- The same operand in both runs. -/
def SameOperand (l : Ledger) (a a' : Operand) : Prop := l.Fits → l.Stands a a'

theorem SameOperand.mono {a a' : Operand} (h : l.SameOperand a a') (hle : l.Le l') :
    l'.SameOperand a a' :=
  fun hfits => (h (hfits.of_le hle)).mono hle

/-- The same operands in both runs. -/
def SameOperands (l : Ledger) (as as' : List Operand) : Prop := List.Forall₂ l.SameOperand as as'

theorem SameOperands.mono {as as' : List Operand} (h : l.SameOperands as as') (hle : l.Le l') :
    l'.SameOperands as as' :=
  List.Forall₂.imp (fun _ _ ha => SameOperand.mono ha hle) h

theorem SameOperands.stands {as as' : List Operand} (h : l.SameOperands as as') (hfits : l.Fits) :
    (∀ id ∈ operandsNodes as, id.index.toNat < l.images.length) ∧
      operandsImage l.images as = as' := by
  induction h with
  | nil => exact ⟨nofun, rfl⟩
  | cons ha _ ih =>
    obtain ⟨hthere, himage⟩ := ha hfits
    refine ⟨fun id hid => ?_, ?_⟩
    · rcases List.mem_append.1 hid with hid | hid
      · exact hthere id hid
      · exact ih.1 id hid
    · rw [operandsImage, himage, ih.2]

/-- The same signals in both runs. -/
def AllSame (l : Ledger) (ss ss' : List Signal) : Prop := List.Forall₂ l.Same ss ss'

theorem AllSame.mono {ss ss' : List Signal} (h : l.AllSame ss ss') (hle : l.Le l') :
    l'.AllSame ss ss' :=
  List.Forall₂.imp (fun _ _ hs => Same.mono hs hle) h

theorem AllSame.widths {ss ss' : List Signal} (h : l.AllSame ss ss') :
    ss'.map (·.width) = ss.map (·.width) := by
  induction h with
  | nil => rfl
  | cons hs _ ih => rw [List.map_cons, List.map_cons, ih, hs.width]

end Ledger

/-! ## Actions side by side -/

variable {ε σ α α' β β' : Type}

/-- How two actions end side by side. -/
inductive Ends (T : Ledger → σ → σ → Prop) (F : ε → ε → Prop) (l : Ledger)
    (R : Ledger → α → α' → Prop) : EStateM.Result ε σ α → EStateM.Result ε σ α' → Prop
  | ok {l' : Ledger} {a : α} {a' : α'} {w w' : σ} (later : l.Le l') (twins : T l' w w')
      (related : R l' a a') : Ends T F l R (.ok a w) (.ok a' w')
  | error {l' : Ledger} {e e' : ε} {w w' : σ} (later : l.Le l') (twins : T l' w w')
      (alike : F e e') : Ends T F l R (.error e w) (.error e' w')

/-- What has begun with more in the ledger ends the same way. -/
theorem Ends.since {T : Ledger → σ → σ → Prop} {F : ε → ε → Prop} {l l' : Ledger}
    {R : Ledger → α → α' → Prop} {r : EStateM.Result ε σ α} {r' : EStateM.Result ε σ α'}
    (h : Ends T F l' R r r') (hle : l.Le l') : Ends T F l R r r' := by
  cases h with
  | ok later twins related => exact .ok (hle.trans later) twins related
  | error later twins alike => exact .error (hle.trans later) twins alike

/-- How both actions have ended, by what each of them has come to. -/
theorem Ends.eq_ok_or_error {T : Ledger → σ → σ → Prop} {F : ε → ε → Prop} {l : Ledger}
    {R : Ledger → α → α' → Prop} {r : EStateM.Result ε σ α} {r' : EStateM.Result ε σ α'}
    (h : Ends T F l R r r') :
    (∃ l' a a' w w', r = .ok a w ∧ r' = .ok a' w' ∧ l.Le l' ∧ T l' w w' ∧ R l' a a') ∨
      ∃ l' e e' w w', r = .error e w ∧ r' = .error e' w' ∧ l.Le l' ∧ T l' w w' ∧ F e e' := by
  cases h with
  | ok later twins related => exact .inl ⟨_, _, _, _, _, rfl, rfl, later, twins, related⟩
  | error later twins alike => exact .inr ⟨_, _, _, _, _, rfl, rfl, later, twins, alike⟩

/-- From states that are twins, two actions end alike. -/
def Sim (T : Ledger → σ → σ → Prop) (F : ε → ε → Prop) (l : Ledger) (act : EStateM ε σ α)
    (act' : EStateM ε σ α') (R : Ledger → α → α' → Prop) : Prop :=
  ∀ w w', T l w w' → Ends T F l R (act w) (act' w')

namespace Sim

variable {T : Ledger → σ → σ → Prop} {F : ε → ε → Prop} {l : Ledger} {act : EStateM ε σ α}
  {act' : EStateM ε σ α'} {R : Ledger → α → α' → Prop} {Q : Ledger → β → β' → Prop}

theorem ret {a : α} {a' : α'} (h : R l a a') :
    Sim T F l (pure a : EStateM ε σ α) (pure a' : EStateM ε σ α') R :=
  fun _ _ hw => .ok (.refl l) hw h

theorem raise {e e' : ε} (h : F e e') :
    Sim T F l (throw e : EStateM ε σ α) (throw e' : EStateM ε σ α') R :=
  fun _ _ hw => .error (.refl l) hw h

/-- One action after the other. -/
theorem bind {f : α → EStateM ε σ β} {f' : α' → EStateM ε σ β'} (hact : Sim T F l act act' R)
    (hf : ∀ l', l.Le l' → ∀ a a', R l' a a' → Sim T F l' (f a) (f' a') Q) :
    Sim T F l (act >>= f) (act' >>= f') Q := by
  intro w w' hw
  have hmid := hact w w' hw
  show Ends T F l Q (EStateM.bind act f w) (EStateM.bind act' f' w')
  unfold EStateM.bind
  generalize act w = r at hmid ⊢
  generalize act' w' = r' at hmid ⊢
  cases hmid with
  | ok later twins related => exact (hf _ later _ _ related _ _ twins).since later
  | error later twins alike => exact .error later twins alike

/-- What the results are turned into afterwards. -/
theorem map {f : α → β} {f' : α' → β'} (h : Sim T F l act act' R)
    (hf : ∀ l' a a', R l' a a' → Q l' (f a) (f' a')) : Sim T F l (f <$> act) (f' <$> act') Q := by
  rw [← bind_pure_comp, ← bind_pure_comp]
  exact bind h fun l' _ a a' ha => ret (hf l' a a' ha)

/-- Two actions that go on from what they look at. -/
theorem look_bind {f : σ → EStateM ε σ β} {f' : σ → EStateM ε σ β'}
    (h : ∀ w w', T l w w' → Sim T F l (f w) (f' w') Q) : Sim T F l (get >>= f) (get >>= f') Q :=
  fun w w' hw => h w w' hw w w' hw

theorem ite {c c' : Prop} [Decidable c] [Decidable c'] {other : EStateM ε σ α}
    {other' : EStateM ε σ α'} (hc : c ↔ c') (ht : c → Sim T F l act act' R)
    (hf : ¬ c → Sim T F l other other' R) :
    Sim T F l (if c then act else other) (if c' then act' else other') R := by
  by_cases h : c
  · rw [if_pos h, if_pos (hc.1 h)]
    exact ht h
  · rw [if_neg h, if_neg (mt hc.2 h)]
    exact hf h

end Sim

end Circuitry
