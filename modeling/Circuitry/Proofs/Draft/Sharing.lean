/-
  Drafts that share their signals.

  Several drafts can be under construction at a time, and any of them may be handed any signal.  What a
  step of one draft does to the signals is little: it binds templates, each to a node of that draft,
  and whatever is no template stays as it is (`Signals.Later`).  So the other drafts do not notice it,
  although the ids of their nodes are the same numbers.

  A session is sound if it is lawful, no two signals are bound to the same node of its draft, and its
  commands use only nodes that signals are bound to in this very draft.

  1. `step_later`: what a step does to the signals;
  2. `step_sound`: a step of a draft keeps its own session sound;
  3. `Sound.aside`: a step of another draft keeps it sound as well;
  4. `Shared` puts these together, for one draft among others, as a fact that is kept by every step.

  As everywhere, ids are told apart only as long as there are at most `2 ^ 32` nodes.
-/
import Circuitry.Proofs.Draft.Consistent

namespace Circuitry

/-! ## Signals after some steps of a draft -/

namespace Signals

/-- What steps of a draft do to the signals. -/
structure Later (context : Nat) (t t' : Signals) : Prop where
  kept : ∀ s, t.standing s ≠ .template → t'.standing s = t.standing s
  added : ∃ new, t'.bindings = new ++ t.bindings ∧ ∀ e ∈ new, e.2.context = context

variable {context : Nat} {t t' t'' : Signals}

/-- A signal without a literal value and without a binding is a template. -/
theorem standing_of_unbound {s : Signal} (hs : s.literal = none)
    (h : ∀ e ∈ t.bindings, e.1 ≠ s.serial) : t.standing s = .template := by
  have hnone : t.bindings.lookup s.serial = none := by
    rw [List.lookup_eq_none_iff]
    intro e he
    exact bne_iff_ne.2 fun heq => h e he heq.symm
  simp [standing, hs, hnone]

/-- Nothing is known of a template but its kind and width. -/
theorem unbound_of_standing {s : Signal} (h : t.standing s = .template) :
    s.literal = none ∧ ∀ e ∈ t.bindings, e.1 ≠ s.serial := by
  unfold standing at h
  split at h
  · cases h
  · next hs =>
    refine ⟨hs, fun e he heq => ?_⟩
    split at h
    · cases h
    · next hnone =>
      rw [List.lookup_eq_none_iff] at hnone
      simpa [heq] using hnone e he

namespace Later

theorem refl : Later context t t where
  kept _ _ := rfl
  added := ⟨[], rfl, List.forall_mem_nil _⟩

theorem trans (h : Later context t t') (h' : Later context t' t'') : Later context t t'' where
  kept s hs := by
    have hkept := h.kept s hs
    exact (h'.kept s (hkept ▸ hs)).trans hkept
  added := by
    obtain ⟨new, hnew, hcontext⟩ := h.added
    obtain ⟨new', hnew', hcontext'⟩ := h'.added
    refine ⟨new' ++ new, by rw [hnew', hnew, List.append_assoc], fun e he => ?_⟩
    rcases List.mem_append.1 he with he | he
    · exact hcontext' e he
    · exact hcontext e he

/-- New signals are not bound. -/
theorem next (next : Nat) : Later context t { t with next } where
  kept _ _ := rfl
  added := ⟨[], rfl, List.forall_mem_nil _⟩

theorem bind {s : Signal} (hs : t.standing s = .template) (role : Role) (id : NodeId) :
    Later context t (t.bind s ⟨role, context, id⟩) where
  kept r hr := by
    obtain ⟨-, hunbound⟩ := unbound_of_standing hs
    by_cases hserial : r.serial = s.serial
    · cases hliteral : r.literal with
      | some v => simp [standing, hliteral]
      | none =>
        -- with no literal value, it would be a template like `s`
        exact absurd (standing_of_unbound hliteral fun e he heq => hunbound e he (heq.trans hserial)) hr
    · exact standing_bind_of_ne t _ hserial
  added := ⟨[(s.serial, ⟨role, context, id⟩)], rfl, by simp⟩

/-- What is bound later was bound before, or has been bound in the draft. -/
theorem bound (h : Later context t t') {s : Signal} {b : Binding} (hs : t'.standing s = .bound b) :
    t.standing s = .bound b ∨ b.context = context := by
  by_cases htemplate : t.standing s = .template
  · obtain ⟨new, hnew, hcontext⟩ := h.added
    have hmem := Draft.Session.mem_bindings hs
    rw [hnew] at hmem
    rcases List.mem_append.1 hmem with hmem | hmem
    · exact .inr (hcontext _ hmem)
    · exact absurd rfl ((unbound_of_standing htemplate).2 _ hmem)
  · exact .inl ((h.kept s htemplate).symm.trans hs)

theorem bindings_subset (h : Later context t t') : t.bindings ⊆ t'.bindings := by
  obtain ⟨new, hnew, -⟩ := h.added
  rw [hnew]
  exact List.subset_append_right _ _

end Later

end Signals

namespace Draft.Session

open Signals (Later)

/-- Fields are new signals, bound one after the other. -/
theorem later_fielded (parent : NodeId) (types : List (Kind × Width)) :
    ∀ (index next : Nat) (w : Session), (∀ e ∈ w.signals.bindings, e.1 < next) →
      Later w.draft.context w.signals
        (fielded parent index (freshSignals next types) w).signals := by
  induction types with
  | nil => exact fun _ _ _ _ => .refl
  | cons u rest ih =>
    intro index next w h
    let s : Signal := ⟨next, u.1, Signals.groundWidth u.1 u.2, none⟩
    have htemplate : w.signals.standing s = .template :=
      Signals.standing_of_unbound rfl fun e he => Nat.ne_of_lt (h e he)
    have hrest := ih (index + 1) (next + 1)
      (w.placed s (resultNode s (.field parent (UInt32.ofNat index)))) fun e he => by
        rcases List.mem_cons.1 he with rfl | he
        · exact Nat.lt_succ_self next
        · exact Nat.lt_succ_of_lt (h e he)
    exact (Later.bind htemplate .result w.draft.nextId).trans hrest

theorem step_later {L made : List Signal} {w w' : Session} (hstep : Step L w made w')
    (h : ∀ e ∈ w.signals.bindings, e.1 < w.signals.next) :
    Later w.draft.context w.signals w'.signals := by
  cases hstep with
  | create kind width literal _ => exact .next _
  | declare r name s template _ => exact .bind template _ _
  | define op signals args kind width _ _ _ =>
    have htemplate : w.created.signals.standing (w.resultSignal kind width) = .template :=
      Signals.standing_of_unbound rfl fun e he => Nat.ne_of_lt (h e he)
    exact (Later.next _).trans (.bind htemplate _ _)
  | select cond ts fs c t f types _ _ _ _ _ _ _ =>
    -- the session in which the fields are bound
    let w₀ : Session := ⟨{ w.signals with next := w.signals.next + (Shape.fieldLeaves types).length },
      (w.draft.withNode (selectionNode types)).withCommand
        (.defPrim w.draft.nextId .mux (selectionArgs c t f))⟩
    have hfields := later_fielded w.draft.nextId (Shape.fieldLeaves types) 0 w.signals.next w₀ h
    exact (Later.next _).trans hfields
  | _ => exact .refl

/-- A step leaves the number of the draft as it is. -/
theorem step_context {L made : List Signal} {w w' : Session} (hstep : Step L w made w') :
    w'.draft.context = w.draft.context := by
  cases hstep with
  | select cond ts fs c t f types _ _ _ _ _ _ _ => exact context_selected w c t f types
  | _ => rfl

/-- What a step makes has not been there before. -/
theorem step_made {L made : List Signal} {w w' : Session} (hstep : Step L w made w') :
    ∀ s ∈ made, w.signals.next ≤ s.serial := by
  cases hstep with
  | create kind width literal _ => simp
  | define op signals args kind width _ _ _ => simp [resultSignal]
  | select cond ts fs c t f types _ _ _ _ _ _ _ => exact le_serial_freshSignals _ _
  | _ => exact List.forall_mem_nil _

/-! ## Nodes of single signals -/

variable {L : List Signal} {w : Session}

/-- No two signals are bound to the same node of the draft. -/
def Single (L : List Signal) (w : Session) : Prop :=
  ∀ s ∈ L, ∀ r ∈ L, ∀ b c, w.signals.standing s = .bound b → w.signals.standing r = .bound c →
    b.context = w.draft.context → c.context = w.draft.context → b.id = c.id → s = r

theorem single_made (hreg : Registered L w.signals) (h : Single L w) {made : List Signal}
    (hmade : ∀ s ∈ made, w.signals.next ≤ s.serial) : Single (made ++ L) w := by
  have hold : ∀ s ∈ made ++ L, ∀ b, w.signals.standing s = .bound b → s ∈ L := by
    intro s hs b hb
    rcases List.mem_append.1 hs with hs | hs
    · exact absurd (hreg.used _ (mem_bindings hb)) (Nat.not_lt.2 (hmade s hs))
    · exact hs
  intro s hs r hr b c hb hc
  exact h s (hold s hs b hb) r (hold r hr c hc) b c hb hc

/-- What is bound has an entry already, so the next one is not its. -/
theorem Bound.ne_nextId (h : Bound L w) (hlen : w.draft.nodes.length < 2 ^ 32) {s : Signal}
    (hs : s ∈ L) {b : Binding} (hb : w.signals.standing s = .bound b)
    (hc : b.context = w.draft.context) : b.id ≠ w.draft.nextId := by
  rintro hid
  obtain ⟨n, hn, -⟩ := h s hs b hb hc
  have hnext : w.draft.nextId.index.toNat = w.draft.nodes.length := toNat_idAt hlen
  rw [hid, hnext] at hn
  simp at hn

theorem single_placed (hreg : Registered L w.signals) (hbound : Bound L w) (h : Single L w)
    {s : Signal} (hs : s ∈ L) (n : Node) (hlen : w.draft.nodes.length < 2 ^ 32) :
    Single L (w.placed s n) := by
  intro r hr q hq b c hb hc hbc hcc hid
  obtain ⟨rfl, rfl⟩ | hold := placed_cases hreg hs hr hb
  · obtain ⟨rfl, rfl⟩ | hold := placed_cases hreg hs hq hc
    · rfl
    · exact absurd hid.symm (hbound.ne_nextId hlen hq hold hcc)
  · obtain ⟨rfl, rfl⟩ | hold' := placed_cases hreg hs hq hc
    · exact absurd hid (hbound.ne_nextId hlen hr hold hbc)
    · exact h r hr q hq b c hold hold' hbc hcc hid

theorem single_fielded (parent : NodeId) (ss : List Signal) : ∀ (index : Nat) (w : Session),
    ss ⊆ L → w.draft.nodes.length + ss.length ≤ 2 ^ 32 → Registered L w.signals → Bound L w →
      Single L w → Single L (fielded parent index ss w) := by
  induction ss with
  | nil => exact fun _ _ _ _ _ _ h => h
  | cons s rest ih =>
    intro index w hss hlen hreg hbound h
    obtain ⟨hs, hrest⟩ := List.cons_subset.1 hss
    rw [List.length_cons] at hlen
    have hlt : w.draft.nodes.length < 2 ^ 32 := by omega
    refine ih (index + 1) _ hrest ?_ (hreg.bind hs _) (bound_placed hreg hbound hs rfl hlt)
      (single_placed hreg hbound h hs _ hlt)
    rw [nodes_placed, List.length_append, List.length_singleton]
    omega

/-! ## Commands of one draft -/

/-- A signal is bound to the node of this draft. -/
def Homed (w : Session) (id : NodeId) : Prop :=
  ∃ e ∈ w.signals.bindings, e.2.context = w.draft.context ∧ e.2.id = id

/-- Commands use only nodes that signals are bound to in this draft. -/
def Cites (w : Session) : Prop := ∀ cmd ∈ w.draft.commands, ∀ id ∈ cmd.uses, w.Homed id

theorem Reads.homed {s : Signal} {a : Operand} (h : w.Reads s a) : ∀ id ∈ a.nodes, w.Homed id := by
  intro id hid
  cases h with
  | literal _ => cases hid
  | node hb hc =>
    obtain rfl := List.mem_singleton.1 hid
    exact ⟨_, mem_bindings hb, hc, rfl⟩

theorem homed_of_reads {ss : List Signal} {as : List Operand} (h : List.Forall₂ w.Reads ss as) :
    ∀ id ∈ operandsNodes as, w.Homed id := by
  induction h with
  | nil => exact List.forall_mem_nil _
  | cons ha _ ih =>
    intro id hid
    rcases List.mem_append.1 hid with hid | hid
    · exact ha.homed id hid
    · exact ih id hid

/-- Whatever a step appends uses nodes of its own draft. -/
theorem step_homed {made : List Signal} {w' : Session} (hstep : Step L w made w') :
    ∀ cmd ∈ w'.draft.commands, cmd ∈ w.draft.commands ∨ ∀ id ∈ cmd.uses, w.Homed id := by
  have hnew : ∀ {cmd : Command}, (∀ id ∈ cmd.uses, w.Homed id) →
      ∀ c ∈ w.draft.commands ++ [cmd], c ∈ w.draft.commands ∨ ∀ id ∈ c.uses, w.Homed id := by
    intro cmd hcmd c hc
    rcases List.mem_append.1 hc with hc | hc
    · exact .inl hc
    · exact .inr (List.mem_singleton.1 hc ▸ hcmd)
  cases hstep with
  | declare r name s _ _ =>
    refine hnew ?_
    cases r <;> exact List.forall_mem_nil _
  | define op signals args kind width reads _ _ => exact hnew (homed_of_reads reads)
  | connect target source b a _ drives reads _ =>
    refine hnew (List.forall_mem_cons.2 ⟨?_, reads.homed⟩)
    exact ⟨_, mem_bindings drives.bound, drives.context, rfl⟩
  | select cond ts fs c t f types readsCond readsTrue readsFalse _ _ _ _ =>
    rw [commands_selected]
    refine hnew fun id hid => ?_
    simp only [Command.uses, Command.reads, selectionArgs, operandsNodes, Operand.nodes,
      List.append_nil, List.mem_append] at hid
    rcases hid with hid | hid | hid
    · exact readsCond.homed id hid
    · exact homed_of_reads readsTrue id hid
    · exact homed_of_reads readsFalse id hid
  | _ => exact fun _ => .inl

/-! ## Sound sessions -/

/-- The session is lawful, and signals and nodes of its draft belong together. -/
structure Sound (L : List Signal) (w : Session) : Prop where
  lawful : w.Lawful L
  single : w.draft.nodes.length ≤ 2 ^ 32 → w.Single L
  cites : w.Cites

theorem Sound.forget {L' : List Signal} (h : w.Sound L) (hL : L' ⊆ L) : w.Sound L' where
  lawful := stable_lawful.forget hL h.lawful
  single hlen s hs r hr := h.single hlen s (hL hs) r (hL hr)
  cites := h.cites

theorem step_single {made : List Signal} {w' : Session} (hstep : Step L w made w')
    (h : w.Sound L) (hlen : w'.draft.nodes.length ≤ 2 ^ 32) : w'.Single (made ++ L) := by
  have hreg := h.lawful.registered
  cases hstep with
  | create kind width literal _ => exact single_made hreg (h.single hlen) (by simp)
  | declare r name s _ known =>
    change (w.draft.nodes ++ [_]).length ≤ _ at hlen
    rw [List.length_append, List.length_singleton] at hlen
    have hw := h.lawful.consistent (by omega)
    exact single_placed hreg hw.bound (h.single (by omega)) known (declaredNode r name s) (by omega)
  | define op signals args kind width reads arity known =>
    change (w.draft.nodes ++ [_]).length ≤ _ at hlen
    rw [List.length_append, List.length_singleton] at hlen
    have hw := h.lawful.consistent (by omega)
    have hmade : ∀ s ∈ [w.resultSignal kind width], w.signals.next ≤ s.serial := by
      simp [resultSignal]
    -- the result is made as a template, and bound when its node is there
    have hbound : Bound ([w.resultSignal kind width] ++ L) w.created :=
      bound_made hreg hw.bound hmade
    have hsingle : Single ([w.resultSignal kind width] ++ L) w.created :=
      single_made hreg (h.single (by omega)) hmade
    exact single_placed (hreg.create rfl) hbound hsingle (List.mem_cons_self ..)
      (resultNode (w.resultSignal kind width) .defined) hlen
  | select cond ts fs c t f types readsCond readsTrue readsFalse lengths shape grounded known =>
    rw [nodes_selected, List.length_append, List.length_cons, length_fieldNodes,
      length_freshSignals] at hlen
    have hw := h.lawful.consistent (by omega)
    have hmade := le_serial_freshSignals (Shape.fieldLeaves types) w.signals.next
    refine single_fielded _ _ 0 _ (List.subset_append_left _ _) ?_ (hreg.createMany _) ?_ ?_
    · rw [length_freshSignals]
      simp only [withNode, withCommand, List.length_append, List.length_singleton]
      omega
    · intro s hs b hb hc
      obtain ⟨m, hm, hrole⟩ := bound_made hreg hw.bound hmade s hs b hb hc
      exact ⟨m, getElem?_append_of_eq_some _ hm, hrole⟩
    · exact single_made hreg (h.single (by omega)) hmade
  | _ => exact h.single hlen

theorem step_sound {made : List Signal} {w' : Session} (hstep : Step L w made w')
    (h : w.Sound L) : w'.Sound (made ++ L) where
  lawful := stable_lawful.step hstep h.lawful
  single hlen := step_single hstep h hlen
  cites cmd hcmd id hid := by
    have hlater := step_later hstep h.lawful.registered.used
    have hhomed : w.Homed id := by
      rcases step_homed hstep cmd hcmd with hold | hnew
      · exact h.cites cmd hold id hid
      · exact hnew id hid
    obtain ⟨e, he, hcontext, hhere⟩ := hhomed
    exact ⟨e, hlater.bindings_subset he, hcontext.trans (step_context hstep).symm, hhere⟩

theorem mark_sound {w' : Session} (hmark : Mark L w w') (h : w.Sound L) : w'.Sound L where
  lawful := mark_lawful hmark h.lawful
  single := by
    obtain ⟨cmd, -, rfl⟩ := hmark.commands
    exact h.single
  cites := by
    have hemitted : ∀ {cmd : Command}, (∀ id ∈ cmd.uses, w.Homed id) → (w.emitted cmd).Cites := by
      intro cmd hcmd c hc
      rcases List.mem_append.1 hc with hc | hc
      · exact h.cites c hc
      · exact List.mem_singleton.1 hc ▸ hcmd
    cases hmark with
    | whenBegin s a reads _ _ depth => exact hemitted reads.homed
    | whenEnd depth | altBegin depth | otherwiseEnd depth => exact hemitted (List.forall_mem_nil _)

/-! ## Drafts aside -/

/-- Steps of another draft leave a draft sound. -/
theorem Sound.aside {d : Draft} {t t' : Signals} {context : Nat} {made : List Signal}
    (h : Sound L ⟨t, d⟩) (hd : d.context ≠ context) (hlater : Later context t t')
    (hreg : Registered (made ++ L) t') (hmade : ∀ s ∈ made, t.next ≤ s.serial) :
    Sound (made ++ L) ⟨t', d⟩ := by
  -- a signal bound in this draft is an old one, and was bound before
  have hold : ∀ s ∈ made ++ L, ∀ b, t'.standing s = .bound b → b.context = d.context →
      s ∈ L ∧ t.standing s = .bound b := by
    intro s hs b hb hc
    obtain hb | hcontext := hlater.bound hb
    · rcases List.mem_append.1 hs with hs | hs
      · exact absurd (h.lawful.registered.used _ (mem_bindings hb)) (Nat.not_lt.2 (hmade s hs))
      · exact ⟨hs, hb⟩
    · exact absurd (hc.symm.trans hcontext) hd
  refine ⟨⟨hreg, fun hlen => ⟨(h.lawful.consistent hlen).grown, ?_⟩⟩, fun hlen => ?_, ?_⟩
  · intro s hs b hb hc
    obtain ⟨hs, hb⟩ := hold s hs b hb hc
    exact (h.lawful.consistent hlen).bound s hs b hb hc
  · intro s hs r hr b c hb hc hbc hcc
    obtain ⟨hs, hb⟩ := hold s hs b hb hbc
    obtain ⟨hr, hc⟩ := hold r hr c hc hcc
    exact h.single hlen s hs r hr b c hb hc hbc hcc
  · intro cmd hcmd id hid
    obtain ⟨e, he, hhere⟩ := h.cites cmd hcmd id hid
    exact ⟨e, hlater.bindings_subset he, hhere⟩

/-! ## One draft among others -/

/-- The draft `context` at work, since the signals were `t`, while `others` are left alone. -/
structure Shared (context : Nat) (t : Signals) (others : List Draft) (L : List Signal)
    (w : Session) : Prop where
  context_eq : w.draft.context = context
  sound : w.Sound L
  later : Later context t w.signals
  aside : ∀ d ∈ others, d.context ≠ context → Sound L ⟨w.signals, d⟩

variable {context : Nat} {t : Signals} {others : List Draft}

theorem stable_shared : Stable (Shared context t others) where
  step L made w w' hstep h := by
    have hreg := h.sound.lawful.registered
    have hlater := h.context_eq ▸ step_later hstep hreg.used
    exact
      { context_eq := (step_context hstep).trans h.context_eq
        sound := step_sound hstep h.sound
        later := h.later.trans hlater
        aside := fun d hd hne =>
          (h.aside d hd hne).aside hne hlater (step_registered hstep hreg) (step_made hstep) }
  forget L L' w hL h :=
    ⟨h.context_eq, h.sound.forget hL, h.later, fun d hd hne => (h.aside d hd hne).forget hL⟩

theorem mark_shared {w' : Session} (hmark : Mark L w w') (h : w.Shared context t others L) :
    w'.Shared context t others L := by
  have hsound := mark_sound hmark h.sound
  obtain ⟨cmd, -, rfl⟩ := hmark.commands
  exact ⟨h.context_eq, hsound, h.later, h.aside⟩

end Draft.Session

end Circuitry
