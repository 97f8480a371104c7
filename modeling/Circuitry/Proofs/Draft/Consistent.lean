/-
  Every step lets the circuit grow.

  A session is lawful if three things hold.  The signals that are around are registered: their serial
  numbers have been given out, each to one signal only.  The draft has grown as `Grown` allows.  And a
  signal that is around and bound in this draft is bound to a node of its own type, in the role of the
  binding.  Each `Step` and each `Mark` keeps this; the last two only as long as the ids of nodes fit
  32 bits.

  Signals may also be bound in other drafts; these are told apart by the number of the draft, so a
  draft starts lawful if no signal is bound under its number yet.  `Numbered` says that all bindings
  so far are under numbers up to the present one.
-/
import Circuitry.Draft.Finish
import Circuitry.Proofs.Draft.Bundle
import Circuitry.Proofs.Draft.Growth

namespace Circuitry.Draft.Session

/-! ## Registered signals -/

/-- The signals have serial numbers that have been given out, no two of them the same, and no number is
    bound before it has been given out. -/
structure Registered (L : List Signal) (t : Signals) : Prop where
  given : ∀ s ∈ L, s.serial < t.next
  unique : ∀ s ∈ L, ∀ r ∈ L, s.serial = r.serial → s = r
  used : ∀ e ∈ t.bindings, e.1 < t.next

namespace Registered

variable {L L' : List Signal} {t : Signals}

theorem forget (h : Registered L t) (hL : L' ⊆ L) : Registered L' t where
  given s hs := h.given s (hL hs)
  unique s hs r hr := h.unique s (hL hs) r (hL hr)
  used := h.used

/-- A new signal gets a serial number of its own. -/
theorem create (h : Registered L t) {s : Signal} (hs : s.serial = t.next) :
    Registered (s :: L) { t with next := t.next + 1 } where
  given r hr := by
    rcases List.mem_cons.1 hr with rfl | hr
    · exact Nat.lt_succ_of_le (Nat.le_of_eq hs)
    · exact Nat.lt_succ_of_lt (h.given r hr)
  unique r hr r' hr' heq := by
    have hnot : ∀ q ∈ L, q.serial ≠ s.serial :=
      fun q hq => Nat.ne_of_lt (hs ▸ h.given q hq)
    rcases List.mem_cons.1 hr with rfl | hold
    · rcases List.mem_cons.1 hr' with rfl | hold'
      · rfl
      · exact absurd heq.symm (hnot r' hold')
    · rcases List.mem_cons.1 hr' with rfl | hold'
      · exact absurd heq (hnot r hold)
      · exact h.unique r hold r' hold' heq
  used e he := Nat.lt_succ_of_lt (h.used e he)

theorem createMany (types : List (Kind × Width)) : ∀ {L : List Signal} {t : Signals},
    Registered L t →
      Registered (freshSignals t.next types ++ L) { t with next := t.next + types.length } := by
  induction types with
  | nil => exact fun h => h
  | cons u rest ih =>
    intro L t h
    have hrest := ih (h.create (s := ⟨t.next, u.1, Signals.groundWidth u.1 u.2, none⟩) rfl)
    have hnext : t.next + 1 + rest.length = t.next + (u :: rest).length := by
      simp [Nat.add_assoc, Nat.add_comm 1]
    rw [← hnext]
    refine hrest.forget fun s hs => ?_
    simp only [freshSignals, List.cons_append, List.mem_cons, List.mem_append] at hs ⊢
    tauto

theorem bind (h : Registered L t) {s : Signal} (hs : s ∈ L) (b : Binding) :
    Registered L (t.bind s b) where
  given := h.given
  unique := h.unique
  used e he := by
    rcases List.mem_cons.1 he with rfl | he
    · exact h.given s hs
    · exact h.used e he

end Registered

/-- A bound signal is among the bindings. -/
theorem mem_bindings {t : Signals} {s : Signal} {b : Binding} (h : t.standing s = .bound b) :
    (s.serial, b) ∈ t.bindings := by
  unfold Signals.standing at h
  split at h
  · cases h
  · split at h
    · next c hc =>
      injection h with hb
      rw [← hb]
      exact mem_of_lookup hc
    · cases h

theorem registered_fielded {L : List Signal} (parent : NodeId) (ss : List Signal) :
    ∀ (index : Nat) (w : Session), ss ⊆ L → Registered L w.signals →
      Registered L (fielded parent index ss w).signals := by
  induction ss with
  | nil => exact fun _ _ _ h => h
  | cons s rest ih =>
    intro index w hss h
    obtain ⟨hs, hrest⟩ := List.cons_subset.1 hss
    exact ih (index + 1) _ hrest (h.bind hs _)

theorem step_registered {L made : List Signal} {w w' : Session} (hstep : Step L w made w')
    (h : Registered L w.signals) : Registered (made ++ L) w'.signals := by
  cases hstep with
  | create kind width literal _ => exact h.create rfl
  | declare r name s _ known => exact h.bind known _
  | define op signals args kind width _ _ _ =>
    have hcreated : Registered (w.resultSignal kind width :: L) w.created.signals := h.create rfl
    exact hcreated.bind (List.mem_cons_self ..) _
  | select cond ts fs c t f types _ _ _ _ _ _ _ =>
    exact registered_fielded _ _ 0 _ (List.subset_append_left _ _) (h.createMany _)
  | _ => exact h

theorem stable_registered : Stable fun L w => Registered L w.signals where
  step _ _ _ _ := step_registered
  forget _ _ _ hL h := h.forget hL

theorem mark_signals {L : List Signal} {w w' : Session} (hmark : Mark L w w') :
    w'.signals = w.signals := by
  obtain ⟨cmd, -, rfl⟩ := hmark.commands
  rfl

/-! ## Bound signals -/

/-- Signals are bound to nodes of their own type. -/
def Bound (L : List Signal) (w : Session) : Prop :=
  ∀ s ∈ L, ∀ b, w.signals.standing s = .bound b → b.context = w.draft.context →
    ∃ n, w.draft.nodes[b.id.index.toNat]? = some n ∧ n.role = b.role ∧ n.ty = s.ty

section Bound

variable {L : List Signal} {w : Session}

/-- Signals that have just been made are not bound yet. -/
theorem bound_made (hreg : Registered L w.signals) (h : Bound L w) {made : List Signal}
    (hmade : ∀ s ∈ made, w.signals.next ≤ s.serial) : Bound (made ++ L) w := by
  intro s hs b hb hc
  rcases List.mem_append.1 hs with hs | hs
  · have hused := hreg.used _ (mem_bindings hb)
    exact absurd hused (Nat.not_lt.2 (hmade s hs))
  · exact h s hs b hb hc

/-- After a signal has got a node, it is bound to that node, and others are bound as before. -/
theorem placed_cases (hreg : Registered L w.signals) {s r : Signal} (hs : s ∈ L) (hr : r ∈ L)
    {n : Node} {b : Binding} (h : (w.placed s n).signals.standing r = .bound b) :
    (r = s ∧ b = ⟨n.role, w.draft.context, w.draft.nextId⟩) ∨ w.signals.standing r = .bound b := by
  by_cases hserial : r.serial = s.serial
  · obtain rfl := hreg.unique r hr s hs hserial
    -- a literal has no binding, so this is the new one
    cases hliteral : r.literal with
    | some v => simp [Signals.standing, hliteral] at h
    | none => exact .inl ⟨rfl, (Standing.bound.inj
        ((Signals.standing_bind _ _ _ hliteral).symm.trans h)).symm⟩
  · exact .inr ((Signals.standing_bind_of_ne _ _ hserial).symm.trans h)

/-- A signal that gets a node of its type is bound to that node. -/
theorem bound_placed (hreg : Registered L w.signals) (h : Bound L w) {s : Signal} (hs : s ∈ L)
    {n : Node} (hn : n.ty = s.ty) (hlen : w.draft.nodes.length < 2 ^ 32) :
    Bound L (w.placed s n) := by
  intro r hr b hb hc
  rw [nodes_placed]
  obtain ⟨rfl, rfl⟩ | hb := placed_cases hreg hs hr hb
  · refine ⟨n, ?_, rfl, hn⟩
    show (w.draft.nodes ++ [n])[(idAt w.draft.nodes.length).index.toNat]? = _
    rw [toNat_idAt hlen]
    simp
  · obtain ⟨m, hm, hrole⟩ := h r hr b hb hc
    exact ⟨m, getElem?_append_of_eq_some [n] hm, hrole⟩

/-- Fields are bound to their entries. -/
theorem bound_fielded (parent : NodeId) (ss : List Signal) : ∀ (index : Nat) (w : Session),
    ss ⊆ L → w.draft.nodes.length + ss.length ≤ 2 ^ 32 → Registered L w.signals → Bound L w →
      Bound L (fielded parent index ss w) := by
  induction ss with
  | nil => exact fun _ _ _ _ _ h => h
  | cons s rest ih =>
    intro index w hss hlen hreg h
    obtain ⟨hs, hrest⟩ := List.cons_subset.1 hss
    rw [List.length_cons] at hlen
    refine ih (index + 1) _ hrest ?_ (hreg.bind hs _) (bound_placed hreg h hs rfl (by omega))
    rw [nodes_placed, List.length_append, List.length_singleton]
    omega

end Bound

@[simp] theorem length_fieldNodes (parent : NodeId) (ss : List Signal) :
    ∀ index, (fieldNodes parent index ss).length = ss.length := by
  induction ss with
  | nil => intro; rfl
  | cons s rest ih => intro index; simp [fieldNodes, ih]

theorem ports_fielded (parent : NodeId) (ss : List Signal) : ∀ (index : Nat) (w : Session),
    (fielded parent index ss w).draft.ports = w.draft.ports := by
  induction ss with
  | nil => intros; rfl
  | cons s rest ih => intro index w; rw [fielded, ih]; rfl

theorem ports_selected (w : Session) (c : Operand) (t f : List Operand)
    (types : Shape.Fields (Kind × Width)) :
    (w.selected c t f types).draft.ports = w.draft.ports := by
  rw [selected, ports_fielded]
  rfl

/-! ## Consistent sessions -/

/-- The draft has grown, and what is bound in it is there. -/
structure Consistent (L : List Signal) (w : Session) : Prop where
  grown : Grown w.draft.nodes w.draft.ports w.draft.commands
  bound : Bound L w

namespace Consistent

variable {L : List Signal} {w : Session}

/-- What is read is a ground value of the signal's kind. -/
theorem ofKind (h : w.Consistent L) {s : Signal} (hs : s ∈ L) {a : Operand} (hread : w.Reads s a) :
    OfKind w.draft.nodes s.kind a := by
  cases hread with
  | literal hv => rfl
  | node hb hc =>
    obtain ⟨n, hn, -, hty⟩ := h.bound s hs _ hb hc
    exact ⟨n, s.width, hn, hty⟩

theorem ground_all (h : w.Consistent L) {ss : List Signal} (hss : ss ⊆ L) {as : List Operand}
    (hread : List.Forall₂ w.Reads ss as) : ∀ a ∈ as, Ground w.draft.nodes a := by
  induction hread with
  | nil => exact nofun
  | cons ha _ ih =>
    obtain ⟨hs, hrest⟩ := List.cons_subset.1 hss
    intro a hmem
    rcases List.mem_cons.1 hmem with rfl | hmem
    · exact ⟨_, h.ofKind hs ha⟩
    · exact ih hrest a hmem

/-- What is driven can be driven, and has the signal's kind. -/
theorem driven (h : w.Consistent L) {s : Signal} (hs : s ∈ L) {b : Binding} (hb : w.Drives s b) :
    ∃ n width, w.draft.nodes[b.id.index.toNat]? = some n ∧ n.role.isAssignable = true ∧
      n.ty = .element s.kind width := by
  obtain ⟨n, hn, hrole, hty⟩ := h.bound s hs b hb.bound hb.context
  exact ⟨n, s.width, hn, hrole ▸ hb.assignable, hty⟩

end Consistent

/-! ## Steps keep sessions lawful -/

/-- The signals around are registered, and as long as ids fit, the session is consistent. -/
structure Lawful (L : List Signal) (w : Session) : Prop where
  registered : Registered L w.signals
  consistent : w.draft.nodes.length ≤ 2 ^ 32 → w.Consistent L

theorem types_freshSignals {types : List (Kind × Width)}
    (h : ∀ u ∈ types, Signals.groundWidth u.1 u.2 = u.2) : ∀ next,
      (freshSignals next types).map Signal.ty = types.map fun u => .element u.1 u.2 := by
  induction types with
  | nil => intro; rfl
  | cons u rest ih =>
    intro next
    rw [List.forall_mem_cons] at h
    simp only [freshSignals, List.map_cons, ih h.2, Signal.ty, h.1]

theorem step_consistent {L made : List Signal} {w w' : Session} (hstep : Step L w made w')
    (hreg : Registered L w.signals) (hlen : w'.draft.nodes.length ≤ 2 ^ 32)
    (h : w.draft.nodes.length ≤ 2 ^ 32 → w.Consistent L) : w'.Consistent (made ++ L) := by
  cases hstep with
  | create kind width literal _ =>
    have hw := h hlen
    exact ⟨hw.grown, bound_made hreg hw.bound (by simp)⟩
  | report f _ => exact ⟨(h hlen).grown, (h hlen).bound⟩
  | drain => exact ⟨(h hlen).grown, (h hlen).bound⟩
  | declare r name s _ known =>
    change (w.draft.nodes ++ [_]).length ≤ _ at hlen
    rw [List.length_append, List.length_singleton] at hlen
    have hw := h (by omega)
    exact ⟨hw.grown.more (.declare r name s),
      bound_placed (n := declaredNode r name s) hreg hw.bound known rfl (by omega)⟩
  | define op signals args kind width reads arity known =>
    change (w.draft.nodes ++ [_]).length ≤ _ at hlen
    rw [List.length_append, List.length_singleton] at hlen
    have hw := h (by omega)
    have hargs : args.length = op.arity := by rw [← reads.length_eq, arity]
    have hgrown := hw.grown.more
      (.define op args hargs (hw.ground_all known reads) (w.resultSignal kind width))
    rw [List.append_nil] at hgrown
    refine ⟨hgrown, ?_⟩
    -- the result is made as a template, and bound when its node is there
    have hcreated : Bound ([w.resultSignal kind width] ++ L) w.created :=
      bound_made hreg hw.bound (by simp [resultSignal])
    exact bound_placed (n := resultNode (w.resultSignal kind width) .defined) (hreg.create rfl)
      hcreated (List.mem_cons_self ..) rfl (by exact hlen)
  | connect target source b a kinds drives reads known =>
    have hw := h hlen
    obtain ⟨htarget, hsource⟩ : target ∈ L ∧ source ∈ L := by simpa using known
    have hgrown := hw.grown.more
      (.connect b.id a target.kind (hw.driven htarget drives) (kinds ▸ hw.ofKind hsource reads))
    rw [List.append_nil, List.append_nil] at hgrown
    exact ⟨hgrown, hw.bound⟩
  | select cond ts fs c t f types readsCond readsTrue readsFalse lengths shape grounded known =>
    rw [nodes_selected, List.length_append, List.length_cons, length_fieldNodes,
      length_freshSignals] at hlen
    have hw := h (by omega)
    have htrue := readsTrue.length_eq
    have hfalse := readsFalse.length_eq
    obtain ⟨hcond, hbranches⟩ := List.cons_subset.1 known
    obtain ⟨hts, hfs⟩ := List.append_subset.1 hbranches
    constructor
    · rw [nodes_selected, commands_selected, ports_selected, ← List.append_nil w.draft.ports]
      refine hw.grown.more
        (.select c t f ?_ types _ (types_freshSignals grounded w.signals.next) ?_ ?_)
      · intro a ha
        rcases List.mem_cons.1 ha with rfl | ha
        · exact ⟨_, hw.ofKind hcond readsCond⟩
        rcases List.mem_append.1 ha with ha | ha
        · exact hw.ground_all hts readsTrue a ha
        · exact hw.ground_all hfs readsFalse a ha
      · rw [length_freshSignals]
        omega
      · rw [length_freshSignals]
        omega
    · -- the aggregate has its entry already, and its fields are bound behind it one by one
      refine bound_fielded _ _ 0 _ (List.subset_append_left _ _) ?_ (hreg.createMany _) ?_
      · rw [length_freshSignals]
        simp only [withNode, withCommand, List.length_append, List.length_singleton]
        omega
      · intro s hs b hb hc
        have hmade := bound_made hreg hw.bound (le_serial_freshSignals (Shape.fieldLeaves types) _)
        obtain ⟨m, hm, hrole⟩ := hmade s hs b hb hc
        exact ⟨m, getElem?_append_of_eq_some _ hm, hrole⟩

theorem mark_consistent {L : List Signal} {w w' : Session} (hmark : Mark L w w')
    (h : w.Consistent L) : w'.Consistent L := by
  have hemitted : ∀ {cmd : Command}, cmd.isControl = true →
      (∀ pred depth, cmd = .whenBegin pred depth → OfKind w.draft.nodes .bool pred) →
      (w.emitted cmd).Consistent L := by
    intro cmd hcontrol hboolean
    have hgrown := h.grown.more (.mark cmd hcontrol hboolean)
    rw [List.append_nil, List.append_nil] at hgrown
    exact ⟨hgrown, h.bound⟩
  cases hmark with
  | whenBegin s a reads boolean known depth =>
    refine hemitted rfl fun pred depth heq => ?_
    obtain ⟨rfl, -⟩ := Command.whenBegin.inj heq
    exact boolean ▸ h.ofKind known reads
  | whenEnd depth | altBegin depth | otherwiseEnd depth => exact hemitted rfl nofun

theorem stable_lawful : Stable Lawful where
  step _ _ _ _ hstep h :=
    ⟨step_registered hstep h.registered,
      fun hlen => step_consistent hstep h.registered hlen h.consistent⟩
  forget _ _ _ hL h :=
    ⟨h.registered.forget hL,
      fun hlen => ⟨(h.consistent hlen).grown, fun s hs => (h.consistent hlen).bound s (hL hs)⟩⟩

theorem mark_lawful {L : List Signal} {w w' : Session} (hmark : Mark L w w') (h : w.Lawful L) :
    w'.Lawful L := by
  refine ⟨mark_signals hmark ▸ h.registered, fun hlen => mark_consistent hmark (h.consistent ?_)⟩
  obtain ⟨cmd, -, rfl⟩ := hmark.commands
  exact hlen

/-! ## Numbers of drafts -/

/-- The draft has the number `context`, and no signal is bound under a higher one. -/
structure NumberedUpTo (context : Nat) (w : Session) : Prop where
  context_eq : w.draft.context = context
  bindings : ∀ e ∈ w.signals.bindings, e.2.context ≤ context

variable {context : Nat}

theorem numbered_placed {w : Session} (h : w.NumberedUpTo context) (s : Signal) (n : Node) :
    (w.placed s n).NumberedUpTo context := by
  refine ⟨h.context_eq, fun e he => ?_⟩
  rcases List.mem_cons.1 he with rfl | he
  · exact Nat.le_of_eq h.context_eq
  · exact h.bindings e he

theorem numbered_fielded (parent : NodeId) (ss : List Signal) : ∀ (index : Nat) {w : Session},
    w.NumberedUpTo context → (fielded parent index ss w).NumberedUpTo context := by
  induction ss with
  | nil => exact fun _ _ h => h
  | cons s rest ih => exact fun index w h => ih (index + 1) (numbered_placed h s _)

theorem closed_numbered : Closed (NumberedUpTo context) := by
  intro L made w w' hstep h
  cases hstep with
  | declare r name s _ _ =>
    have hplaced := numbered_placed h s (declaredNode r name s)
    exact ⟨hplaced.context_eq, hplaced.bindings⟩
  | define op signals args kind width _ _ _ =>
    have hcreated : w.created.NumberedUpTo context := ⟨h.context_eq, h.bindings⟩
    have hplaced := numbered_placed hcreated (w.resultSignal kind width)
      (resultNode (w.resultSignal kind width) .defined)
    exact ⟨hplaced.context_eq, hplaced.bindings⟩
  | select cond ts fs c t f types _ _ _ _ _ _ _ =>
    exact numbered_fielded _ _ 0 ⟨h.context_eq, h.bindings⟩
  | _ => exact ⟨h.context_eq, h.bindings⟩

theorem mark_numbered {L : List Signal} {w w' : Session} (hmark : Mark L w w') (h : w.NumberedUpTo context) :
    w'.NumberedUpTo context := by
  obtain ⟨cmd, -, rfl⟩ := hmark.commands
  exact ⟨h.context_eq, h.bindings⟩

/-- A draft in which nothing is bound yet is lawful. -/
theorem lawful_empty {L : List Signal} {signals : Signals} {name : String}
    {settings : Settings.Elaboration} (hreg : Registered L signals)
    (h : ∀ e ∈ signals.bindings, e.2.context < context) :
    Lawful L ⟨signals, .empty context name settings⟩ where
  registered := hreg
  consistent _ :=
    ⟨.nothing, fun _ _ _ hb hc => absurd hc (Nat.ne_of_lt (h _ (mem_bindings hb)))⟩

end Circuitry.Draft.Session
