/-
  What actions do to a state.

  The steps of a description are actions with a state and faults.  `Triple pre act post fail` says that
  from every state with `pre` the action ends in `post`, or with a fault in `fail`.  Most of what is
  said about an action is that it keeps something, whether it ends well or not, and that its faults
  are of some sort; that is `Keeps`.

  There is one rule for each way in which actions are put together.  An action is taken apart with
  `Triple.bind` from left to right, as it is written.
-/

namespace Circuitry

variable {ε σ α β : Type}

/-! ## One action after the other -/

section Bind

variable {act : EStateM ε σ α} {f : α → EStateM ε σ β} {s s' : σ}

/-- Two actions go through if the first does, and the second from where the first ends. -/
theorem bind_eq_ok {b : β} :
    (act >>= f) s = .ok b s' ↔ ∃ a s₁, act s = .ok a s₁ ∧ f a s₁ = .ok b s' := by
  show EStateM.bind act f s = _ ↔ _
  unfold EStateM.bind
  cases hact : act s with
  | ok a s₁ =>
    refine ⟨fun h => ⟨a, s₁, rfl, h⟩, ?_⟩
    rintro ⟨a', s₁', ⟨⟩, h⟩
    exact h
  | error e s₁ =>
    refine ⟨nofun, ?_⟩
    rintro ⟨a', s₁', ⟨⟩, h⟩

theorem bind_of_ok {a : α} (h : act s = .ok a s') : (act >>= f) s = f a s' := by
  show EStateM.bind act f s = _
  unfold EStateM.bind
  rw [h]

theorem bind_of_error {e : ε} (h : act s = .error e s') : (act >>= f) s = .error e s' := by
  show EStateM.bind act f s = _
  unfold EStateM.bind
  rw [h]

end Bind

/-! ## Triples -/

/-- From states with `pre`, an action ends in `post`, or with a fault in `fail`. -/
def Triple (pre : σ → Prop) (act : EStateM ε σ α) (post : α → σ → Prop) (fail : ε → σ → Prop) :
    Prop :=
  ∀ s, pre s →
    match act s with
    | .ok a s' => post a s'
    | .error e s' => fail e s'

/-- An action keeps `I`, and all its faults are `thrown`. -/
abbrev Keeps (I : σ → Prop) (thrown : ε → Prop) (act : EStateM ε σ α) : Prop :=
  Triple I act (fun _ => I) (fun e s => thrown e ∧ I s)

namespace Triple

variable {pre pre' : σ → Prop} {act : EStateM ε σ α} {f : α → EStateM ε σ β}
  {post post' : α → σ → Prop} {result : β → σ → Prop} {fail fail' : ε → σ → Prop}

/-- What is known of an action that ended well. -/
theorem of_ok (h : Triple pre act post fail) {s s' : σ} {a : α} (hs : pre s)
    (hact : act s = .ok a s') : post a s' := by
  have hpost := h s hs
  rw [hact] at hpost
  exact hpost

/-- What is known of an action that ended with a fault. -/
theorem of_error (h : Triple pre act post fail) {s s' : σ} {e : ε} (hs : pre s)
    (hact : act s = .error e s') : fail e s' := by
  have hfail := h s hs
  rw [hact] at hfail
  exact hfail

theorem conseq (h : Triple pre act post fail) (hpre : ∀ s, pre' s → pre s)
    (hpost : ∀ a s, post a s → post' a s) (hfail : ∀ e s, fail e s → fail' e s) :
    Triple pre' act post' fail' := by
  intro s hs
  have hact := h s (hpre s hs)
  cases hr : act s with
  | ok a s' =>
    rw [hr] at hact
    exact hpost a s' hact
  | error e s' =>
    rw [hr] at hact
    exact hfail e s' hact

/-- A stronger beginning. -/
theorem strengthen (h : Triple pre act post fail) (hpre : ∀ s, pre' s → pre s) :
    Triple pre' act post fail :=
  h.conseq hpre (fun _ _ => id) (fun _ _ => id)

/-- A weaker end. -/
theorem weaken (h : Triple pre act post fail) (hpost : ∀ a s, post a s → post' a s) :
    Triple pre act post' fail :=
  h.conseq (fun _ => id) hpost (fun _ _ => id)

/-- Less is said of the faults. -/
theorem relax (h : Triple pre act post fail) (hfail : ∀ e s, fail e s → fail' e s) :
    Triple pre act post fail' :=
  h.conseq (fun _ => id) (fun _ _ => id) hfail

/-- Both of two things that are said of an action. -/
theorem and (h : Triple pre act post fail) (h' : Triple pre act post' fail') :
    Triple pre act (fun a s => post a s ∧ post' a s) (fun e s => fail e s ∧ fail' e s) := by
  intro s hs
  have hact := h s hs
  have hact' := h' s hs
  cases hr : act s with
  | ok a s' =>
    rw [hr] at hact hact'
    exact ⟨hact, hact'⟩
  | error e s' =>
    rw [hr] at hact hact'
    exact ⟨hact, hact'⟩

theorem ret {a : α} (h : ∀ s, pre s → post a s) :
    Triple pre (pure a : EStateM ε σ α) post fail :=
  h

theorem raise {e : ε} (h : ∀ s, pre s → fail e s) :
    Triple pre (throw e : EStateM ε σ α) post fail :=
  h

/-- One action after the other. -/
theorem bind (hact : Triple pre act post fail) (hf : ∀ a, Triple (post a) (f a) result fail) :
    Triple pre (act >>= f) result fail := by
  intro s hs
  have hmid := hact s hs
  show match EStateM.bind act f s with | .ok b s' => result b s' | .error e s' => fail e s'
  unfold EStateM.bind
  cases hr : act s with
  | ok a s' =>
    rw [hr] at hmid
    exact hf a s' hmid
  | error e s' =>
    rw [hr] at hmid
    exact hmid

/-- A result that is put in another form. -/
theorem map {g : α → β} (hact : Triple pre act (fun a => result (g a)) fail) :
    Triple pre (g <$> act) result fail := by
  rw [← bind_pure_comp]
  exact bind hact fun _ => ret fun _ => id

/-- From a state in which the first of two actions is known to go through. -/
theorem from_ok {s s' : σ} {a : α} (h : act s = .ok a s') (hf : Triple (· = s') (f a) result fail) :
    Triple (· = s) (act >>= f) result fail := by
  rintro _ rfl
  rw [bind_of_ok h]
  exact hf s' rfl

/-- From a state in which the first of two actions is known to fail. -/
theorem from_error {s s' : σ} {e : ε} (h : act s = .error e s') (he : fail e s') :
    Triple (· = s) (act >>= f) result fail := by
  rintro _ rfl
  rw [bind_of_error h]
  exact he

/-- Two actions that keep something, one after the other. -/
theorem seq {I : σ → Prop} {thrown : ε → Prop} (hact : Keeps I thrown act)
    (hf : ∀ a, Keeps I thrown (f a)) : Keeps I thrown (act >>= f) :=
  bind hact hf

/-- The present state as it is looked at. -/
theorem look : Triple pre (get : EStateM ε σ σ) (fun a s => a = s ∧ pre s) fail :=
  fun _ hs => ⟨rfl, hs⟩

/-- An action that goes on from what it looked at. -/
theorem look_bind {f : σ → EStateM ε σ β}
    (h : ∀ s₀, Triple (fun s => s₀ = s ∧ pre s) (f s₀) result fail) :
    Triple pre (get >>= f) result fail :=
  bind look h

/-- Looking keeps everything. -/
theorem look_seq {I : σ → Prop} {thrown : ε → Prop} {f : σ → EStateM ε σ β}
    (h : ∀ s, Keeps I thrown (f s)) : Keeps I thrown (get >>= f) :=
  look_bind fun s => (h s).strengthen fun _ hs => hs.2

theorem change {g : σ → σ} {post : PUnit → σ → Prop} (h : ∀ s, pre s → post ⟨⟩ (g s)) :
    Triple pre (modify g : EStateM ε σ PUnit) post fail :=
  h

/-- A fact that does not depend on the state may be used from the start. -/
theorem of_fact {p : Prop} (h : p → Triple pre act post fail) :
    Triple (fun s => p ∧ pre s) act post fail :=
  fun s hs => h hs.1 s hs.2

theorem ite {c : Prop} [Decidable c] {act' : EStateM ε σ α}
    (ht : c → Triple pre act post fail) (hf : ¬ c → Triple pre act' post fail) :
    Triple pre (if c then act else act') post fail := by
  by_cases hc : c
  · rw [if_pos hc]
    exact ht hc
  · rw [if_neg hc]
    exact hf hc

end Triple

end Circuitry
