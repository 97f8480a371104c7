/-
  Sessions that are twins.

  `Tied l w w'` is what the sessions of two runs have in common under a ledger: serial numbers, settings
  other than folding, reports, and for every signal the same binding, in the second run to what stands
  in the place of the node; or a result in the first run with its literal in the second.  `Twin l w w'`
  says in addition that the circuits have grown side by side.

  Ids of nodes are 32 bits wide, so what is said about nodes is said for up to `2 ^ 32` of them.  Which
  calls fail and what is reported does not depend on it.

  There is one lemma for each step that both runs take together, and one, `twin_folded`, for the step
  that only the first run takes.
-/
import Circuitry.Proofs.Draft.Bundle
import Circuitry.Proofs.Draft.Consistent
import Circuitry.Proofs.Folding.Folds
import Circuitry.Proofs.Folding.Ledger

namespace Circuitry.Draft

namespace Session

/-- No binding in either run, or the same one in both. -/
inductive Paired (context : Nat) (stands : NodeId → NodeId → Prop) :
    Option Binding → Option Binding → Prop
  | neither : Paired context stands none none
  | both {b b' : Binding} (role : b'.role = b.role) (of : b'.context = b.context)
      (place : b.context = context → stands b.id b'.id) : Paired context stands (some b) (some b')

theorem Paired.mono {context : Nat} {stands stands' : NodeId → NodeId → Prop}
    {b b' : Option Binding} (h : Paired context stands b b')
    (hs : ∀ id id', stands id id' → stands' id id') : Paired context stands' b b' := by
  cases h with
  | neither => exact .neither
  | both role of place => exact .both role of fun hc => hs _ _ (place hc)

/-- What two sessions have in common, apart from their circuits. -/
structure Tied (l : Ledger) (w w' : Session) : Prop where
  next : w.signals.next = l.next
  next' : w'.signals.next = l.next
  fresh : ∀ n, l.next ≤ n → l.folded n = none
  context : w'.draft.context = w.draft.context
  name : w'.draft.name = w.draft.name
  sink : w'.draft.sink = w.draft.sink
  errorLimit : w'.draft.settings.errorLimit = w.draft.settings.errorLimit
  shiftLimit : w'.draft.settings.dynamicShiftLimit = w.draft.settings.dynamicShiftLimit
  off : w.draft.settings.foldLiterals = false
  on : w'.draft.settings.foldLiterals = true
  length : l.images.length = w.draft.nodes.length
  bound : ∀ n, l.folded n = none →
    Paired w.draft.context
      (fun id id' => l.Fits → l.images[id.index.toNat]? = some (.node id'))
      (w.signals.bindings.lookup n) (w'.signals.bindings.lookup n)
  gone : ∀ n k, l.folded n = some k →
    ∃ id, w.signals.bindings.lookup n = some ⟨.result, w.draft.context, id⟩ ∧
      (l.Fits → l.images[id.index.toNat]? = some (.constant k))

/-- Two sessions whose circuits have grown side by side. -/
structure Twin (l : Ledger) (w w' : Session) : Prop where
  tied : Tied l w w'
  folds : l.Fits → Folds w.draft.circuit w'.draft.circuit l.images

variable {l : Ledger} {w w' : Session}

/-! ## What a signal is in both runs -/

/-- The standings that a signal can have in the two runs. -/
inductive Standings (l : Ledger) (w : Session) (s : Signal) : Standing → Standing → Prop
  | template (entry : l.folded s.serial = none) : Standings l w s .template .template
  | literal (v : Bits) : Standings l w s (.literal v) (.literal v)
  | bound {b b' : Binding} (role : b'.role = b.role) (of : b'.context = b.context)
      (place : b.context = w.draft.context → l.Fits →
        l.images[b.id.index.toNat]? = some (.node b'.id)) : Standings l w s (.bound b) (.bound b')
  | gone {id : NodeId} {v : Bits}
      (place : l.Fits → l.images[id.index.toNat]? = some (.constant ⟨s.kind, s.width, v⟩)) :
      Standings l w s (.bound ⟨.result, w.draft.context, id⟩) (.literal v)

theorem Tied.standings (h : Tied l w w') {s s' : Signal} (hs : l.Same s s') :
    Standings l w s (w.signals.standing s) (w'.signals.standing s') := by
  obtain ⟨hknown, rfl⟩ := hs
  cases hliteral : s.literal with
  | some v =>
    have hleft : w.signals.standing s = .literal v := by simp [Signals.standing, hliteral]
    have hright : w'.signals.standing (l.twin s) = .literal v := by
      simp [Signals.standing, Ledger.twin, hliteral]
    rw [hleft, hright]
    exact .literal v
  | none =>
    -- without an entry in the ledger both runs bind it, or none does
    cases hentry : l.folded s.serial with
    | none =>
      rw [Ledger.twin_of_folded hentry]
      have hpaired := h.bound s.serial hentry
      unfold Signals.standing
      rw [hliteral]
      generalize w.signals.bindings.lookup s.serial = b at hpaired ⊢
      generalize w'.signals.bindings.lookup s.serial = b' at hpaired ⊢
      cases hpaired with
      | neither => exact .template hentry
      | both role of place => exact .bound role of place
    | some k =>
      obtain ⟨-, hkind, hwidth⟩ := hknown.entry k hentry
      obtain ⟨id, hlookup, hplace⟩ := h.gone s.serial k hentry
      have hleft : w.signals.standing s = .bound ⟨.result, w.draft.context, id⟩ := by
        simp [Signals.standing, hliteral, hlookup]
      have hright : w'.signals.standing (l.twin s) = .literal k.value := by
        simp [Signals.standing, Ledger.twin, hliteral, hentry]
      rw [hleft, hright]
      refine .gone fun hfits => ?_
      rw [hplace hfits, ← hkind, ← hwidth]

/-! ## Steps of both runs -/

theorem Tied.createdMany (h : Tied l w w') (n : Nat) :
    Tied { l with next := l.next + n } (w.createdMany n) (w'.createdMany n) where
  next := congrArg (· + n) h.next
  next' := congrArg (· + n) h.next'
  fresh m hm := h.fresh m (Nat.le_trans (Nat.le_add_right _ _) hm)
  context := h.context
  name := h.name
  sink := h.sink
  errorLimit := h.errorLimit
  shiftLimit := h.shiftLimit
  off := h.off
  on := h.on
  length := h.length
  bound := h.bound
  gone := h.gone

theorem le_createdMany (l : Ledger) (n : Nat) : l.Le { l with next := l.next + n } :=
  ⟨Nat.le_add_right _ _, fun _ _ => rfl, List.prefix_rfl⟩

theorem Twin.createdMany (h : Twin l w w') (n : Nat) :
    Twin { l with next := l.next + n } (w.createdMany n) (w'.createdMany n) :=
  ⟨h.tied.createdMany n, h.folds⟩

/-- The ledger after so many new nodes in both runs. -/
def placing (l : Ledger) (w' : Session) (count : Nat) : Ledger :=
  { l with images := l.images ++ freshImages w'.draft.nodes.length count }

theorem le_placing (l : Ledger) (w' : Session) (count : Nat) : l.Le (placing l w' count) :=
  ⟨Nat.le_refl _, fun _ _ => rfl, List.prefix_append _ _⟩

/-- A signal that has no entry gets a node in both runs. -/
theorem Tied.placed (h : Tied l w w') {s s' : Signal} (hserial : s'.serial = s.serial)
    (hentry : l.folded s.serial = none) {n n' : Node} (hrole : n'.role = n.role) :
    Tied (placing l w' 1) (w.placed s n) (w'.placed s' n') where
  next := h.next
  next' := h.next'
  fresh := h.fresh
  context := h.context
  name := h.name
  sink := h.sink
  errorLimit := h.errorLimit
  shiftLimit := h.shiftLimit
  off := h.off
  on := h.on
  length := by simp [placing, h.length]
  bound m hm := by
    have hle := le_placing l w' 1
    show Paired _ _ (List.lookup m ((s.serial, _) :: _)) (List.lookup m ((s'.serial, _) :: _))
    rw [hserial, List.lookup_cons, List.lookup_cons]
    -- only the signal itself gets a new binding
    by_cases he : m = s.serial
    · rw [beq_iff_eq.2 he]
      refine .both hrole h.context fun _ hfits => ?_
      have hlt : w.draft.nodes.length < 2 ^ 32 := by
        have hlen := hfits
        simp only [Ledger.Fits, placing, List.length_append, length_freshImages, h.length] at hlen
        omega
      have hat : w.draft.nextId.index.toNat = l.images.length := by
        rw [h.length]
        exact toNat_idAt hlt
      show (l.images ++ freshImages _ 1)[w.draft.nextId.index.toNat]? = _
      rw [hat, List.getElem?_append_right (Nat.le_refl _)]
      simp [freshImages, nextId]
    · rw [beq_false_of_ne he]
      refine (h.bound m hm).mono fun id id' hid hfits => ?_
      exact getElem?_append_of_eq_some _ (hid (hfits.of_le hle))
  gone m k hm := by
    have hle := le_placing l w' 1
    -- it has no entry, and `m` has one
    have hne : m ≠ s.serial := by
      rintro rfl
      cases hentry.symm.trans hm
    obtain ⟨id, hlookup, hplace⟩ := h.gone m k hm
    refine ⟨id, ?_, fun hfits => getElem?_append_of_eq_some _ (hplace (hfits.of_le hle))⟩
    show List.lookup m ((s.serial, _) :: _) = _
    rw [List.lookup_cons, beq_false_of_ne hne]
    exact hlookup

/-- What is tied stays so when the circuits change but for their number of nodes. -/
theorem Tied.emitted (h : Tied l w w') (cmd cmd' : Command) :
    Tied l (w.emitted cmd) (w'.emitted cmd') :=
  { h with }

/-- A command without nodes of its own. -/
theorem Twin.emitted (h : Twin l w w') {cmd cmd' : Command}
    (hcmd : l.Fits → (∀ id ∈ cmd.ids, id.index.toNat < l.images.length) ∧
      cmd.image l.images = some cmd') : Twin l (w.emitted cmd) (w'.emitted cmd') := by
  refine ⟨h.tied.emitted cmd cmd', fun hfits => ?_⟩
  obtain ⟨hids, himage⟩ := hcmd hfits
  rw [h.tied.length] at hids
  have hfolds := (h.folds hfits).grow cmd [] [] (List.append_nil _).symm hids nofun nofun himage rfl rfl
  simp only [Circuit.grow, List.append_nil, List.map_nil] at hfolds
  exact hfolds

/-! ## The next node -/

section Next

variable {count : Nat}

theorem toNat_nextId (h : Tied l w w') (hfits : (placing l w' (count + 1)).Fits) :
    w.draft.nextId.index.toNat = w.draft.nodes.length := by
  simp only [Ledger.Fits, placing, List.length_append, length_freshImages, h.length] at hfits
  exact toNat_idAt (by omega)

/-- In the place of the next node stands the next node. -/
theorem image_nextId (h : Tied l w w') (hfits : (placing l w' (count + 1)).Fits) :
    (Operand.node w.draft.nextId).image (placing l w' (count + 1)).images =
      .node w'.draft.nextId := by
  simp only [Ledger.Fits, placing, List.length_append, length_freshImages, h.length] at hfits
  have himage := Folds.image_freshImages (c := w.draft.circuit) w'.draft.nodes.length h.length
    hfits (Nat.succ_pos count)
  rw [Nat.add_zero, Nat.add_zero] at himage
  exact himage

theorem idImage_nextId (h : Tied l w w') (hfits : (placing l w' (count + 1)).Fits) :
    w.draft.nextId.image (placing l w' (count + 1)).images = w'.draft.nextId := by
  rw [NodeId.image, image_nextId h hfits]

/-- What is left of an operator with the next node as its result. -/
theorem image_operator (h : Tied l w w') (hfits : (placing l w' (count + 1)).Fits) (op : Operator)
    {args args' : List Operand} (hargs : l.SameOperands args args') :
    (∀ id ∈ (Command.defPrim w.draft.nextId op args).ids,
      id.index.toNat < w.draft.nodes.length + (count + 1)) ∧
    (Command.defPrim w.draft.nextId op args).image (placing l w' (count + 1)).images =
      some (.defPrim w'.draft.nextId op args') := by
  obtain ⟨hthere, himage⟩ := hargs.stands (hfits.of_le (le_placing l w' _))
  constructor
  · intro id hmem
    rcases List.mem_cons.1 hmem with rfl | hmem
    · rw [toNat_nextId h hfits]
      omega
    · have hlt := hthere id hmem
      rw [h.length] at hlt
      omega
  · rw [Command.image, image_nextId h hfits, ← himage, placing, operandsImage_append _ hthere]

end Next

/-! ## Steps with nodes -/

/-- A template is declared in both runs. -/
theorem Twin.declared (h : Twin l w w') {s : Signal} (hentry : l.folded s.serial = none)
    (r : Declared) (name : String) :
    Twin (placing l w' 1) (w.declared r name s) (w'.declared r name s) := by
  refine ⟨{ h.tied.placed rfl hentry rfl with }, fun hfits => ?_⟩
  have hid := idImage_nextId h.tied hfits
  have hthere : w.draft.nextId.index.toNat < w.draft.circuit.nodes.length + 1 := by
    rw [toNat_nextId h.tied hfits]
    exact Nat.lt_succ_self _
  refine (h.folds (hfits.of_le (le_placing l w' 1))).grow (r.command w.draft.nextId name)
    [declaredNode r name s] (r.ports w.draft.nextId name) rfl ?_ ?_ ?_ ?_ rfl ?_
  · intro id hmem
    have heq : id = w.draft.nextId := by
      cases r <;> simpa [Declared.command, Command.ids] using hmem
    rw [heq]
    exact hthere
  · intro n hn id hmem
    obtain rfl := List.mem_singleton.1 hn
    cases hmem
  · intro p hp
    cases r with
    | port d =>
      obtain rfl := List.mem_singleton.1 hp
      exact hthere
    | wire => cases hp
    | register => cases hp
  · cases r <;> simp only [Declared.command, Command.image, hid]
  · cases r with
    | port d => simp only [Declared.ports, List.map_cons, List.map_nil, Port.image, hid]
    | wire => rfl
    | register => rfl

/-- The ledger after a new signal and its node in both runs. -/
def defining (l : Ledger) (w' : Session) : Ledger := placing { l with next := l.next + 1 } w' 1

theorem le_defining (l : Ledger) (w' : Session) : l.Le (defining l w') :=
  (le_createdMany l 1).trans (le_placing _ w' 1)

/-- The next signal is the same in both runs. -/
theorem Tied.resultSignal_eq (h : Tied l w w') (kind : Kind) (width : Width) :
    w'.resultSignal kind width = w.resultSignal kind width := by
  rw [resultSignal, resultSignal, h.next, h.next']

/-- An operator is applied in both runs. -/
theorem Twin.defined (h : Twin l w w') (op : Operator) {args args' : List Operand}
    (hargs : l.SameOperands args args') (kind : Kind) (width : Width) :
    Twin (defining l w') (w.defined op args kind width) (w'.defined op args' kind width) := by
  have hcreated := h.createdMany 1
  have hargs' := hargs.mono (le_createdMany l 1)
  have hentry : l.folded w.signals.next = none := h.tied.fresh _ (Nat.le_of_eq h.tied.next.symm)
  have hplaced : Tied (defining l w')
      (w.created.placed (w.resultSignal kind width) (resultNode (w.resultSignal kind width) .defined))
      (w'.created.placed (w.resultSignal kind width)
        (resultNode (w.resultSignal kind width) .defined)) :=
    hcreated.tied.placed rfl hentry rfl
  rw [Session.defined, Session.defined, h.tied.resultSignal_eq]
  refine ⟨{ hplaced with }, fun hfits => ?_⟩
  obtain ⟨hids, himage⟩ := image_operator hcreated.tied hfits op hargs'
  have hparents : ∀ n ∈ [resultNode (w.resultSignal kind width) .defined], ∀ id ∈ n.parents,
      id.index.toNat < w.draft.circuit.nodes.length + 1 := by
    intro n hn id hmem
    obtain rfl := List.mem_singleton.1 hn
    cases hmem
  have hfolds := (h.folds (hfits.of_le (le_defining l w'))).grow _
    [resultNode (w.resultSignal kind width) .defined] [] rfl hids hparents nofun himage rfl rfl
  simp only [Circuit.grow, List.append_nil, List.map_nil] at hfolds
  exact hfolds

/-! ## Selections between aggregates -/

theorem freshImages_succ (start count : Nat) : freshImages start (count + 1) =
    freshImages start 1 ++ freshImages (start + 1) count := by
  simp [freshImages, List.range_succ_eq_map, Nat.add_assoc, Nat.add_comm 1]

/-- So many nodes, and one before them. -/
theorem placing_succ (l : Ledger) {w' w₁ : Session} (count : Nat)
    (hlength : w₁.draft.nodes.length = w'.draft.nodes.length + 1) :
    placing (placing l w' 1) w₁ count = placing l w' (count + 1) := by
  rw [placing, placing, placing, hlength, freshImages_succ _ count, ← List.append_assoc]

/-- A node that no signal is bound to. -/
theorem Tied.allocated (h : Tied l w w') (n n' : Node) :
    Tied (placing l w' 1) { w with draft := w.draft.withNode n }
      { w' with draft := w'.draft.withNode n' } :=
  { h with
    length := by simp [placing, withNode, h.length]
    bound := fun m hm => (h.bound m hm).mono fun id id' hid hfits =>
      getElem?_append_of_eq_some _ (hid (hfits.of_le (le_placing l w' 1)))
    gone := fun m k hm => by
      obtain ⟨id, hlookup, hplace⟩ := h.gone m k hm
      exact ⟨id, hlookup, fun hfits =>
        getElem?_append_of_eq_some _ (hplace (hfits.of_le (le_placing l w' 1)))⟩ }

/-- Signals without entries become fields in both runs. -/
theorem Tied.fielded (parent parent' : NodeId) : ∀ {ss : List Signal} {l : Ledger}
    {w w' : Session} (index : Nat), Tied l w w' → (∀ s ∈ ss, l.folded s.serial = none) →
      Tied (placing l w' ss.length) (fielded parent index ss w) (fielded parent' index ss w')
  | [], l, w, w', index, h, _ => by
    have hsame : placing l w' ([] : List Signal).length = l := by simp [placing, freshImages]
    rw [hsame]
    exact h
  | s :: rest, l, w, w', index, h, hss => by
    have hplaced : Tied (placing l w' 1)
        (w.placed s (resultNode s (.field parent (UInt32.ofNat index))))
        (w'.placed s (resultNode s (.field parent' (UInt32.ofNat index)))) :=
      h.placed rfl (hss s (List.mem_cons_self ..)) rfl
    have hrest := Tied.fielded parent parent' (index + 1) hplaced
      fun r hr => hss r (List.mem_cons_of_mem s hr)
    rw [placing_succ l _ (by rw [nodes_placed]; exact List.length_append)] at hrest
    exact hrest

theorem map_fieldNodes (im : List Operand) (parent : NodeId) : ∀ (ss : List Signal) (index : Nat),
    (fieldNodes parent index ss).map (Node.image im) = fieldNodes (parent.image im) index ss
  | [], _ => rfl
  | s :: rest, index => by
    rw [fieldNodes, List.map_cons, map_fieldNodes im parent rest]
    rfl

theorem parents_fieldNodes {parent : NodeId} {n : Node} : ∀ {ss : List Signal} {index : Nat},
    n ∈ fieldNodes parent index ss → n.parents = [parent]
  | s :: rest, index, h => by
    rcases List.mem_cons.1 h with rfl | h
    · rfl
    · exact parents_fieldNodes h

theorem name_fielded (parent : NodeId) (ss : List Signal) : ∀ (index : Nat) (w : Session),
    (fielded parent index ss w).draft.name = w.draft.name := by
  induction ss with
  | nil => intros; rfl
  | cons s rest ih => intro index w; rw [fielded, ih]; rfl

/-- The circuit after a selection between aggregates. -/
theorem circuit_selected (w : Session) (c : Operand) (t f : List Operand)
    (types : Shape.Fields (Kind × Width)) :
    (w.selected c t f types).draft.circuit =
      w.draft.circuit.grow (.defPrim w.draft.nextId .mux (selectionArgs c t f))
        (selectionNode types ::
          fieldNodes w.draft.nextId 0 (freshSignals w.signals.next (Shape.fieldLeaves types))) [] := by
  rw [circuit, nodes_selected, commands_selected, ports_selected, selected, name_fielded]
  simp [Circuit.grow, circuit, withNode, withCommand]

theorem serial_freshSignals {s : Signal} : ∀ {types : List (Kind × Width)} {next : Nat},
    s ∈ freshSignals next types → next ≤ s.serial ∧ s.serial < next + types.length
  | t :: rest, next, h => by
    rcases List.mem_cons.1 h with rfl | h
    · simp
    · have := serial_freshSignals h
      simp only [List.length_cons]
      omega

theorem sameOperand_aggregate {as as' : List Operand} (h : l.SameOperands as as') :
    l.SameOperand (.aggregate as) (.aggregate as') := by
  intro hfits
  obtain ⟨hthere, himage⟩ := h.stands hfits
  exact ⟨hthere, congrArg Operand.aggregate himage⟩

/-- The ledger after a selection between aggregates of so many leaves. -/
def selecting (l : Ledger) (w' : Session) (count : Nat) : Ledger :=
  placing { l with next := l.next + count } w' (count + 1)

theorem le_selecting (l : Ledger) (w' : Session) (count : Nat) : l.Le (selecting l w' count) :=
  (le_createdMany l count).trans (le_placing _ w' _)

/-- A selection between aggregates is made in both runs. -/
theorem Twin.selected (h : Twin l w w') {c c' : Operand} {t t' f f' : List Operand}
    (hc : l.SameOperand c c') (ht : l.SameOperands t t') (hf : l.SameOperands f f')
    (types : Shape.Fields (Kind × Width)) :
    Twin (selecting l w' (Shape.fieldLeaves types).length) (w.selected c t f types)
      (w'.selected c' t' f' types) := by
  have hcreated := h.createdMany (Shape.fieldLeaves types).length
  have hargs : l.SameOperands (selectionArgs c t f) (selectionArgs c' t' f') :=
    .cons hc (.cons (sameOperand_aggregate ht) (.cons (sameOperand_aggregate hf) .nil))
  constructor
  · -- the aggregate gets a node that no signal is bound to, and its leaves are bound to fields
    have hallocated := hcreated.tied.allocated (selectionNode types) (selectionNode types)
    have hemitted := hallocated.emitted (.defPrim w.draft.nextId .mux (selectionArgs c t f))
      (.defPrim w'.draft.nextId .mux (selectionArgs c' t' f'))
    have hentries : ∀ s ∈ freshSignals w.signals.next (Shape.fieldLeaves types),
        l.folded s.serial = none := by
      intro s hs
      refine h.tied.fresh _ ?_
      rw [← h.tied.next]
      exact (serial_freshSignals hs).1
    have hfielded := Tied.fielded w.draft.nextId w'.draft.nextId 0 hemitted hentries
    have hleaves : freshSignals w'.signals.next (Shape.fieldLeaves types) =
        freshSignals w.signals.next (Shape.fieldLeaves types) := by
      rw [h.tied.next, h.tied.next']
    rw [placing_succ _ _ (by exact List.length_append), length_freshSignals] at hfielded
    show Tied _ (fielded _ 0 _ _) (fielded _ 0 (freshSignals w'.signals.next _) _)
    rw [hleaves]
    exact hfielded
  · intro hfits
    obtain ⟨hids, himage⟩ := image_operator hcreated.tied hfits .mux
      (hargs.mono (le_createdMany l _))
    have hid := idImage_nextId hcreated.tied hfits
    have hnat := toNat_nextId hcreated.tied hfits
    rw [circuit_selected, circuit_selected, h.tied.next, h.tied.next']
    refine (h.folds (hfits.of_le (le_selecting l w' _))).grow _ _ [] ?_ ?_ ?_ nofun himage ?_ rfl
    · simp [selecting, placing, circuit]
    · intro id hmem
      rw [List.length_cons, length_fieldNodes, length_freshSignals]
      exact hids id hmem
    · intro n hn id hmem
      rw [List.length_cons, length_fieldNodes, length_freshSignals]
      rcases List.mem_cons.1 hn with rfl | hn
      · cases hmem
      · rw [parents_fieldNodes hn] at hmem
        obtain rfl := List.mem_singleton.1 hmem
        exact Nat.lt_of_le_of_lt (Nat.le_of_eq hnat) (Nat.lt_add_of_pos_right (Nat.succ_pos _))
    · rw [List.map_cons, map_fieldNodes]
      exact congrArg₂ List.cons rfl (congrArg (fieldNodes · 0 _) hid)

/-! ## Bits of a literal -/

/-- The ledger after the literal `k` has come to stand for a result. -/
def folding (l : Ledger) (k : Constant) : Ledger :=
  ⟨l.next + 1, fun n => if n = l.next then some k else l.folded n, l.images ++ [.constant k]⟩

theorem le_folding (l : Ledger) (k : Constant) : l.Le (folding l k) :=
  ⟨Nat.le_succ _, fun _ hn => if_neg (Nat.ne_of_lt hn), List.prefix_append _ _⟩

/-- Bits are taken by an operator in the first run, and at once in the second. -/
theorem Tied.folded (h : Tied l w w') {n : Node} {s : Signal} (hserial : s.serial = l.next)
    (hrole : n.role = .result) (k : Constant) :
    Tied (folding l k) (w.created.placed s n) w'.created where
  next := congrArg (· + 1) h.next
  next' := congrArg (· + 1) h.next'
  fresh m hm := by
    have hlt : l.next < m := hm
    show (if m = l.next then some k else l.folded m) = none
    rw [if_neg (Nat.ne_of_gt hlt)]
    exact h.fresh m (Nat.le_of_lt hlt)
  context := h.context
  name := h.name
  sink := h.sink
  errorLimit := h.errorLimit
  shiftLimit := h.shiftLimit
  off := h.off
  on := h.on
  length := by simp [folding, h.length, created]
  bound m hm := by
    -- the new result has an entry now, so this is about older signals
    have hne : m ≠ l.next := by
      rintro rfl
      simp [folding] at hm
    have hold : l.folded m = none := by simpa [folding, hne] using hm
    show Paired _ _ (List.lookup m ((s.serial, _) :: _)) _
    rw [hserial, List.lookup_cons, beq_false_of_ne hne]
    refine (h.bound m hold).mono fun id id' hid hfits => ?_
    exact getElem?_append_of_eq_some _ (hid (hfits.of_le (le_folding l k)))
  gone m k' hm := by
    show ∃ id, List.lookup m ((s.serial, _) :: _) = _ ∧ _
    rw [hserial, List.lookup_cons]
    by_cases hne : m = l.next
    · obtain rfl : k = k' := by simpa [folding, hne] using hm
      rw [beq_iff_eq.2 hne]
      -- the new result: bound in the first run, and the literal `k` in the second
      refine ⟨w.draft.nextId, ?_, fun hfits => ?_⟩
      · rw [hrole]
        rfl
      · have hlt : w.draft.nodes.length < 2 ^ 32 := by
          simp only [Ledger.Fits, folding, List.length_append, List.length_singleton, h.length]
            at hfits
          omega
        have hat : w.draft.nextId.index.toNat = l.images.length := by
          rw [h.length]
          exact toNat_idAt hlt
        rw [hat]
        exact List.getElem?_concat_length
    · have hold : l.folded m = some k' := by simpa [folding, hne] using hm
      rw [beq_false_of_ne hne]
      obtain ⟨id, hlookup, hplace⟩ := h.gone m k' hold
      exact ⟨id, hlookup, fun hfits =>
        getElem?_append_of_eq_some _ (hplace (hfits.of_le (le_folding l k)))⟩

/-- An operator that takes bits of what is the literal `k₀` in the second run, and the literal that
    stands for its result. -/
theorem Twin.folded (h : Twin l w w') {a : Operand} {k₀ k : Constant} {hi lo : UInt32}
    {width : Width} (ha : l.SameOperand a (.constant k₀)) (hrange : lo ≤ hi)
    (hreach : hi.toNat + 1 < 2 ^ 32) (hindex : indexFits k₀.width hi.toNat = true)
    (hunsigned : k.kind.isSigned = false)
    (hground : Signals.groundWidth k.kind width = k.width) (hwidth : k.width = .known (hi - lo + 1))
    (hvalue : k.value = k₀.folded hi lo) :
    Twin (folding l k) (w.defined (.bits hi lo) [a] k.kind width) w'.created := by
  have htied : Tied (folding l k) (w.created.placed (w.resultSignal k.kind width)
      (resultNode (w.resultSignal k.kind width) .defined)) w'.created :=
    h.tied.folded h.tied.next rfl k
  refine ⟨{ htied with }, fun hfits => ?_⟩
  obtain ⟨hthere, himage⟩ := ha (hfits.of_le (le_folding l k))
  rw [h.tied.length] at hthere
  have hty : (w.resultSignal k.kind width).ty = .element k.kind k.width := by
    rw [Signal.ty, ← hground]
    rfl
  have hfolds := Folds.gone (h.folds (hfits.of_le (le_folding l k)))
    (n := resultNode (w.resultSignal k.kind width) .defined) hthere
    ⟨rfl, rfl, hty, hunsigned, hwidth, hrange, hreach, k₀, himage, hindex, hvalue⟩
  simp only [Circuit.grow, List.append_nil] at hfolds
  exact hfolds

/-! ## Reports -/

theorem Twin.reported (h : Twin l w w') (f : Fault) : Twin l (w.reported f) (w'.reported f) :=
  ⟨{ h.tied with sink := congrArg (·.emit f.toDiagnostic) h.tied.sink }, h.folds⟩

theorem Twin.drained (h : Twin l w w') : Twin l w.drained w'.drained :=
  ⟨{ h.tied with sink := congrArg (·.drain.2) h.tied.sink }, h.folds⟩

end Session

end Circuitry.Draft
