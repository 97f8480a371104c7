/-
  Two circuits of one description side by side.

  `Folds` says how the circuit without folding and the circuit with folding grow: both by the same
  command, or only the first one, by an operator on what is a literal in the second.

  The second circuit is then what is left of the first: of its commands, its ports and its node table
  (`Folds.commands`, `Folds.ports`, `Folds.numbered`).  What is gone are operators that take bits of
  literals, and the literals that stand in their places have been computed (`Folds.gone`).
-/
import Circuitry.Proofs.Folding.Image
import Circuitry.Proofs.Folding.Literal

namespace Circuitry

open Draft (idAt toNat_idAt idAt_toNat getElem?_append_of_eq_some getElem?_append_cases
  getElem?_concat_cases)

/-! ## Side by side -/

/-- A circuit with one more command and what the command brings into being. -/
def Circuit.grow (c : Circuit) (cmd : Command) (nodes : List Node) (ports : List Port) : Circuit :=
  { c with
    nodes := c.nodes ++ nodes
    ports := c.ports ++ ports
    commands := c.commands ++ [cmd] }

/-- So many nodes with consecutive ids. -/
def freshImages (start count : Nat) : List Operand :=
  (List.range count).map fun k => .node (idAt (start + k))

@[simp] theorem length_freshImages (start count : Nat) :
    (freshImages start count).length = count := by
  simp [freshImages]

/-- The literal `k` stands for bits `lo` up to `hi` of the literal that stands for `a`, and the node `n`
    for the result of the operator. -/
structure Taken (im : List Operand) (n : Node) (hi lo : UInt32) (a : Operand) (k : Constant) :
    Prop where
  role : n.role = .result
  origin : n.origin = .defined
  ty : n.ty = .element k.kind k.width
  unsigned : k.kind.isSigned = false
  width : k.width = .known (hi - lo + 1)
  range : lo ≤ hi
  reach : hi.toNat + 1 < 2 ^ 32
  source : ∃ k₀, a.image im = .constant k₀ ∧ Draft.indexFits k₀.width hi.toNat = true ∧
    k.value = k₀.folded hi lo

/-- The two circuits have grown side by side. -/
inductive Folds : Circuit → Circuit → List Operand → Prop
  | nothing (name : String) : Folds ⟨name, [], [], []⟩ ⟨name, [], [], []⟩ []
  /-- Both grow by the same command. -/
  | together {c c' : Circuit} {im : List Operand} (before : Folds c c' im) {cmd cmd' : Command}
      {nodes : List Node} {ports : List Port}
      (ids : ∀ id ∈ cmd.ids, id.index.toNat < c.nodes.length + nodes.length)
      (parents : ∀ n ∈ nodes, ∀ id ∈ n.parents, id.index.toNat < c.nodes.length + nodes.length)
      (places : ∀ p ∈ ports, p.node.index.toNat < c.nodes.length + nodes.length)
      (image : cmd.image (im ++ freshImages c'.nodes.length nodes.length) = some cmd') :
      Folds (c.grow cmd nodes ports)
        (c'.grow cmd' (nodes.map (Node.image (im ++ freshImages c'.nodes.length nodes.length)))
          (ports.map (Port.image (im ++ freshImages c'.nodes.length nodes.length))))
        (im ++ freshImages c'.nodes.length nodes.length)
  /-- The first takes bits of what is a literal in the second. -/
  | gone {c c' : Circuit} {im : List Operand} (before : Folds c c' im) {n : Node} {hi lo : UInt32}
      {a : Operand} {k : Constant} (ids : ∀ id ∈ a.nodes, id.index.toNat < c.nodes.length)
      (taken : Taken im n hi lo a k) :
      Folds (c.grow (.defPrim (idAt c.nodes.length) (.bits hi lo) [a]) [n] []) c'
        (im ++ [.constant k])

namespace Folds

variable {c c' : Circuit} {im : List Operand}

/-- Both grow by the same command, with what it looks like in each of them. -/
theorem grow (before : Folds c c' im) {im' : List Operand} (cmd : Command) {cmd' : Command}
    (nodes : List Node) {nodes' : List Node} (ports : List Port) {ports' : List Port}
    (him : im' = im ++ freshImages c'.nodes.length nodes.length)
    (ids : ∀ id ∈ cmd.ids, id.index.toNat < c.nodes.length + nodes.length)
    (parents : ∀ n ∈ nodes, ∀ id ∈ n.parents, id.index.toNat < c.nodes.length + nodes.length)
    (places : ∀ p ∈ ports, p.node.index.toNat < c.nodes.length + nodes.length)
    (image : cmd.image im' = some cmd') (hnodes : nodes.map (Node.image im') = nodes')
    (hports : ports.map (Port.image im') = ports') :
    Folds (c.grow cmd nodes ports) (c'.grow cmd' nodes' ports') im' := by
  subst him hnodes hports
  exact .together before ids parents places image

theorem length (h : Folds c c' im) : im.length = c.nodes.length := by
  induction h with
  | nothing name => rfl
  | together before ids parents places image ih => simp [Circuit.grow, ih]
  | gone before ids taken ih => simp [Circuit.grow, ih]

/-- The second circuit has no more nodes than the first. -/
theorem length_le (h : Folds c c' im) : c'.nodes.length ≤ c.nodes.length := by
  induction h with
  | nothing name => exact Nat.le_refl _
  | together before ids parents places image ih => simpa [Circuit.grow] using ih
  | gone before ids taken ih =>
    simp only [Circuit.grow, List.length_append, List.length_singleton]
    omega

/-- All ids in the first circuit are there. -/
structure Bounded (c : Circuit) : Prop where
  commands : ∀ cmd ∈ c.commands, ∀ id ∈ cmd.ids, id.index.toNat < c.nodes.length
  nodes : ∀ n ∈ c.nodes, ∀ id ∈ n.parents, id.index.toNat < c.nodes.length
  ports : ∀ p ∈ c.ports, p.node.index.toNat < c.nodes.length

theorem Bounded.grow {cmd : Command} {nodes : List Node} {ports : List Port} (h : Bounded c)
    (ids : ∀ id ∈ cmd.ids, id.index.toNat < c.nodes.length + nodes.length)
    (parents : ∀ n ∈ nodes, ∀ id ∈ n.parents, id.index.toNat < c.nodes.length + nodes.length)
    (places : ∀ p ∈ ports, p.node.index.toNat < c.nodes.length + nodes.length) :
    Bounded (c.grow cmd nodes ports) := by
  have hlength : (c.grow cmd nodes ports).nodes.length = c.nodes.length + nodes.length :=
    List.length_append
  refine ⟨fun cmd' hcmd id hid => ?_, fun n hn id hid => ?_, fun p hp => ?_⟩
  · rw [hlength]
    rcases List.mem_append.1 hcmd with hcmd | hcmd
    · exact Nat.lt_add_right _ (h.commands cmd' hcmd id hid)
    · obtain rfl := List.mem_singleton.1 hcmd
      exact ids id hid
  · rw [hlength]
    rcases List.mem_append.1 hn with hn | hn
    · exact Nat.lt_add_right _ (h.nodes n hn id hid)
    · exact parents n hn id hid
  · rw [hlength]
    rcases List.mem_append.1 hp with hp | hp
    · exact Nat.lt_add_right _ (h.ports p hp)
    · exact places p hp

/-- The result of the operator that is gone. -/
theorem bounded_gone {n : Node} {op : Operator} {a : Operand}
    (hsize : c.nodes.length < 2 ^ 32) (ids : ∀ id ∈ a.nodes, id.index.toNat < c.nodes.length) :
    ∀ id ∈ (Command.defPrim (idAt c.nodes.length) op [a]).ids,
      id.index.toNat < c.nodes.length + [n].length := by
  intro id hid
  simp only [Command.ids, operandsNodes, List.append_nil, List.mem_cons] at hid
  rcases hid with rfl | hid
  · rw [toNat_idAt hsize]
    simp
  · exact Nat.lt_add_right _ (ids id hid)

theorem Taken.parents {n : Node} {hi lo : UInt32} {a : Operand} {k : Constant}
    (h : Taken im n hi lo a k) : n.parents = [] := by
  rw [Node.parents, h.origin]

theorem bounded (h : Folds c c' im) : c.nodes.length ≤ 2 ^ 32 → Bounded c := by
  induction h with
  | nothing name => exact fun _ => ⟨nofun, nofun, nofun⟩
  | @together c c' im before cmd cmd' nodes ports ids parents places image ih =>
    intro hsize
    have hlength : (c.grow cmd nodes ports).nodes.length = c.nodes.length + nodes.length :=
      List.length_append
    exact (ih (by omega)).grow ids parents places
  | @gone c c' im before n hi lo a k ids taken ih =>
    intro hsize
    have hlength : (c.grow (.defPrim (idAt c.nodes.length) (.bits hi lo) [a]) [n] []).nodes.length =
      c.nodes.length + 1 := List.length_append
    refine (ih (by omega)).grow (bounded_gone (by omega) ids) (fun m hm id hid => ?_) nofun
    obtain rfl := List.mem_singleton.1 hm
    rw [Taken.parents taken] at hid
    cases hid

/-! ## What is left -/

theorem filterMap_mapIdx {α β γ : Type} {f : Nat → α → β} {g : β → Option γ} {h : Nat → α → γ} :
    ∀ {l : List α}, (∀ i a, l[i]? = some a → g (f i a) = some (h i a)) →
      (l.mapIdx f).filterMap g = l.mapIdx h := by
  intro l
  induction l generalizing f h with
  | nil => intro; rfl
  | cons a l ih =>
    intro hall
    rw [List.mapIdx_cons, List.mapIdx_cons, List.filterMap_cons, hall 0 a rfl]
    exact congrArg _ (ih fun i b hb => hall (i + 1) b hb)

theorem mapIdx_map {α β γ : Type} (f : α → β) (g : Nat → β → γ) (l : List α) :
    (l.map f).mapIdx g = l.mapIdx fun i a => g i (f a) := by
  refine List.ext_getElem? fun i => ?_
  simp [Function.comp_def]

/-- The images of new nodes. -/
theorem image_freshImages (start : Nat) {count k : Nat} (hlength : im.length = c.nodes.length)
    (hsize : c.nodes.length + count ≤ 2 ^ 32) (hk : k < count) :
    (Operand.node (idAt (c.nodes.length + k))).image (im ++ freshImages start count) =
      .node (idAt (start + k)) := by
  have hat : (idAt (c.nodes.length + k)).index.toNat = im.length + k := by
    rw [toNat_idAt (by omega), hlength]
  rw [Operand.image, hat, List.getD_eq_getElem?_getD, List.getElem?_append_right (by omega)]
  simp [freshImages, hk]

theorem entryImage_append {more : List Operand} {id : NodeId} {n : Node}
    (hid : id.index.toNat < im.length) (hparents : ∀ p ∈ n.parents, p.index.toNat < im.length) :
    entryImage (im ++ more) (id, n) = entryImage im (id, n) := by
  rw [entryImage, entryImage, Operand.image, Operand.image, getD_append_of_lt more hid,
    nodeImage_append more hparents]

/-- The entries that are there are left as they are. -/
theorem filterMap_numbered (more : List Operand) (hbounded : Bounded c)
    (hlength : im.length = c.nodes.length) (hsize : c.nodes.length ≤ 2 ^ 32) :
    c.numbered.filterMap (entryImage (im ++ more)) = c.numbered.filterMap (entryImage im) := by
  refine List.filterMap_congr fun e he => ?_
  obtain ⟨i, n, hn, rfl⟩ := Circuit.exists_of_mem_numbered he
  have hlt := (List.getElem?_eq_some_iff.1 hn).1
  refine entryImage_append ?_ fun p hp => ?_
  · rw [toNat_idAt (by omega)]
    omega
  · rw [hlength]
    exact hbounded.nodes n (List.mem_of_getElem? hn) p hp

theorem filterMap_commands (more : List Operand) (hbounded : Bounded c)
    (hlength : im.length = c.nodes.length) :
    c.commands.filterMap (Command.image (im ++ more)) = c.commands.filterMap (Command.image im) := by
  refine List.filterMap_congr fun cmd hcmd => commandImage_append more fun id hid => ?_
  rw [hlength]
  exact hbounded.commands cmd hcmd id hid

theorem map_ports (more : List Operand) (hbounded : Bounded c)
    (hlength : im.length = c.nodes.length) :
    c.ports.map (Port.image (im ++ more)) = c.ports.map (Port.image im) := by
  refine List.map_congr_left fun p hp => ?_
  have hnode := idImage_append more (by rw [hlength]; exact hbounded.ports p hp)
  simp only [Port.image, hnode]

/-- What is put behind the images stands in the place of the next node. -/
theorem image_last (h : Folds c c' im) (hsize : c.nodes.length < 2 ^ 32) (a : Operand) :
    (Operand.node (idAt c.nodes.length)).image (im ++ [a]) = a := by
  rw [Operand.image, toNat_idAt hsize, ← h.length]
  simp

/-- **What is left of the commands.** -/
theorem commands (h : Folds c c' im) : c.nodes.length ≤ 2 ^ 32 →
    c'.commands = c.commands.filterMap (Command.image im) := by
  induction h with
  | nothing name => intro; rfl
  | @together c c' im before cmd cmd' nodes ports ids parents places image ih =>
    intro hsize
    simp only [Circuit.grow, List.length_append] at hsize
    have hbounded := before.bounded (by omega)
    show c'.commands ++ [cmd'] = (c.commands ++ [cmd]).filterMap _
    rw [List.filterMap_append, filterMap_commands _ hbounded before.length, ← ih (by omega),
      List.filterMap_cons, image, List.filterMap_nil]
  | @gone c c' im before n hi lo a k ids taken ih =>
    intro hsize
    simp only [Circuit.grow, List.length_append, List.length_singleton] at hsize
    have hbounded := before.bounded (by omega)
    have hresult := before.image_last (by omega) (.constant k)
    show c'.commands = (c.commands ++ [_]).filterMap _
    rw [List.filterMap_append, filterMap_commands _ hbounded before.length, ← ih (by omega),
      List.filterMap_cons, Command.image, hresult]
    simp

/-- **What is left of the ports.** -/
theorem ports (h : Folds c c' im) : c.nodes.length ≤ 2 ^ 32 →
    c'.ports = c.ports.map (Port.image im) := by
  induction h with
  | nothing name => intro; rfl
  | @together c c' im before cmd cmd' nodes ports ids parents places image ih =>
    intro hsize
    simp only [Circuit.grow, List.length_append] at hsize
    show c'.ports ++ _ = (c.ports ++ ports).map _
    rw [List.map_append, map_ports _ (before.bounded (by omega)) before.length, ← ih (by omega)]
  | @gone c c' im before n hi lo a k ids taken ih =>
    intro hsize
    simp only [Circuit.grow, List.length_append, List.length_singleton] at hsize
    show c'.ports = (c.ports ++ []).map _
    rw [List.append_nil, map_ports _ (before.bounded (by omega)) before.length, ← ih (by omega)]

/-- **What is left of the node table.** -/
theorem numbered (h : Folds c c' im) : c.nodes.length ≤ 2 ^ 32 →
    c'.numbered = c.numbered.filterMap (entryImage im) := by
  induction h with
  | nothing name => intro; rfl
  | @together c c' im before cmd cmd' nodes ports ids parents places image ih =>
    intro hsize
    simp only [Circuit.grow, List.length_append] at hsize
    show (c'.nodes ++ nodes.map _).mapIdx _ = ((c.nodes ++ nodes).mapIdx _).filterMap _
    rw [List.mapIdx_append, List.mapIdx_append, List.filterMap_append]
    have hold := filterMap_numbered (freshImages c'.nodes.length nodes.length)
      (before.bounded (by omega)) before.length (by omega)
    rw [← ih (by omega)] at hold
    refine congr (congrArg _ hold.symm) ?_
    rw [mapIdx_map]
    refine (filterMap_mapIdx fun i n hi => ?_).symm
    have hlt := (List.getElem?_eq_some_iff.1 hi).1
    have himage := image_freshImages c'.nodes.length before.length hsize hlt
    rw [entryImage, show i + c.nodes.length = c.nodes.length + i by omega, himage,
      show i + c'.nodes.length = c'.nodes.length + i by omega]
  | @gone c c' im before n hi lo a k ids taken ih =>
    intro hsize
    simp only [Circuit.grow, List.length_append, List.length_singleton] at hsize
    have hresult := before.image_last (by omega) (.constant k)
    show c'.numbered = ((c.nodes ++ [n]).mapIdx _).filterMap _
    have hold := filterMap_numbered [.constant k] (before.bounded (by omega))
      before.length (by omega)
    rw [← ih (by omega)] at hold
    rw [List.mapIdx_append, List.filterMap_append]
    refine hold.symm.trans ?_
    simp only [List.mapIdx_cons, List.mapIdx_nil, Nat.zero_add, List.filterMap_cons, entryImage]
    rw [hresult]
    simp [Circuit.numbered]

/-! ## What stands in a place -/

theorem mem_freshImages {start count : Nat} {a : Operand} (h : a ∈ freshImages start count) :
    ∃ id, a = .node id := by
  obtain ⟨k, -, rfl⟩ := List.mem_map.1 h
  exact ⟨_, rfl⟩

/-- In every place stands a node or a literal. -/
theorem place_cases (h : Folds c c' im) : ∀ a ∈ im, (∃ id, a = .node id) ∨ ∃ k, a = .constant k := by
  induction h with
  | nothing name => exact nofun
  | together before ids parents places image ih =>
    intro a ha
    rcases List.mem_append.1 ha with ha | ha
    · exact ih a ha
    · exact .inl (mem_freshImages ha)
  | gone before ids taken ih =>
    intro a ha
    rcases List.mem_append.1 ha with ha | ha
    · exact ih a ha
    · exact .inr ⟨_, List.mem_singleton.1 ha⟩

theorem Taken.append {n : Node} {hi lo : UInt32} {a : Operand} {k : Constant}
    (h : Taken im n hi lo a k) (more : List Operand)
    (ids : ∀ id ∈ a.nodes, id.index.toNat < im.length) : Taken (im ++ more) n hi lo a k := by
  refine ⟨h.role, h.origin, h.ty, h.unsigned, h.width, h.range, h.reach, ?_⟩
  rw [image_append more ids]
  exact h.source

/-- The operator whose result is gone, with the literal that stands in the place of the result. -/
structure Gone (c : Circuit) (im : List Operand) (i : Nat) (k : Constant) : Prop where
  operator : ∃ (n : Node) (hi lo : UInt32) (a : Operand) (j : Nat), c.nodes[i]? = some n ∧
    c.commands[j]? = some (.defPrim (idAt i) (.bits hi lo) [a]) ∧ Taken im n hi lo a k

theorem Gone.grow {i : Nat} {k : Constant} (h : Gone c im i k) (hbounded : Bounded c)
    (hlength : im.length = c.nodes.length) (cmd : Command) (nodes : List Node) (ports : List Port)
    (more : List Operand) : Gone (c.grow cmd nodes ports) (im ++ more) i k := by
  obtain ⟨n, hi, lo, a, j, hn, hcmd, htaken⟩ := h.operator
  refine ⟨n, hi, lo, a, j, getElem?_append_of_eq_some nodes hn,
    getElem?_append_of_eq_some [cmd] hcmd, Taken.append htaken more fun id hid => ?_⟩
  rw [hlength]
  refine hbounded.commands _ (List.mem_of_getElem? hcmd) id (List.mem_cons_of_mem _ ?_)
  rw [operandsNodes, operandsNodes, List.append_nil]
  exact hid

/-- **What is gone.**  A literal stands in the place of a result only if that takes bits of what is a
    literal as well. -/
theorem gone_of_constant (h : Folds c c' im) : c.nodes.length ≤ 2 ^ 32 → ∀ {i : Nat} {k : Constant},
    im[i]? = some (.constant k) → Gone c im i k := by
  induction h with
  | nothing name => simp
  | @together c c' im before cmd cmd' nodes ports ids parents places image ih =>
    intro hsize i k hk
    simp only [Circuit.grow, List.length_append] at hsize
    have hbounded := before.bounded (by omega)
    obtain hold | ⟨j, -, hnew⟩ := getElem?_append_cases hk
    · exact (ih (by omega) hold).grow hbounded before.length cmd nodes ports _
    · obtain ⟨id, hid⟩ := mem_freshImages (List.mem_of_getElem? hnew)
      cases hid
  | @gone c c' im before n hi lo a k ids taken ih =>
    intro hsize i k' hk
    simp only [Circuit.grow, List.length_append, List.length_singleton] at hsize
    have hbounded := before.bounded (by omega)
    obtain hold | ⟨rfl, hlast⟩ := getElem?_concat_cases hk
    · exact (ih (by omega) hold).grow hbounded before.length _ [n] [] _
    · obtain rfl := Operand.constant.inj hlast
      refine ⟨n, hi, lo, a, c.commands.length, ?_, ?_, Taken.append taken _ fun id hid => ?_⟩
      · rw [before.length]
        simp [Circuit.grow]
      · rw [before.length]
        simp [Circuit.grow]
      · rw [before.length]
        exact ids id hid

/-- A node that is left keeps its entry. -/
theorem node?_image (h : Folds c c' im) (hsize : c.nodes.length ≤ 2 ^ 32) {id id' : NodeId}
    {n : Node} (hn : c.node? id = some n) (hid : im[id.index.toNat]? = some (.node id')) :
    c'.node? id' = some (n.image im) := by
  have hsize' : c'.nodes.length ≤ 2 ^ 32 := Nat.le_trans h.length_le hsize
  refine (Circuit.mem_numbered hsize').1 ?_
  rw [h.numbered hsize]
  refine List.mem_filterMap.2 ⟨(id, n), (Circuit.mem_numbered hsize).2 hn, ?_⟩
  rw [entryImage, Operand.image, List.getD_eq_getElem?_getD, hid]
  rfl

/-- A node stands in one place only. -/
theorem image_injective (h : Folds c c' im) (hsize : c.nodes.length ≤ 2 ^ 32) {id₁ id₂ id' : NodeId}
    (h₁ : im[id₁.index.toNat]? = some (.node id')) (h₂ : im[id₂.index.toNat]? = some (.node id')) :
    id₁ = id₂ := by
  have hsize' : c'.nodes.length ≤ 2 ^ 32 := Nat.le_trans h.length_le hsize
  have hnodup := Circuit.nodup_numbered hsize'
  rw [h.numbered hsize, List.map_filterMap, List.nodup_iff_pairwise_ne, List.pairwise_filterMap]
    at hnodup
  -- the place and its node are in the numbered tables, which list each id once
  have hentry : ∀ {id : NodeId}, im[id.index.toNat]? = some (.node id') →
      ∃ n, c.numbered[id.index.toNat]? = some (id, n) ∧
        (entryImage im (id, n)).map (·.1) = some id' := by
    intro id hid
    have hlt := (List.getElem?_eq_some_iff.1 hid).1
    rw [h.length] at hlt
    refine ⟨c.nodes[id.index.toNat], ?_, ?_⟩
    · rw [Circuit.getElem?_numbered, List.getElem?_eq_getElem hlt, idAt_toNat]
      rfl
    · rw [entryImage, Operand.image, List.getD_eq_getElem?_getD, hid]
      rfl
  obtain ⟨n₁, hn₁, himage₁⟩ := hentry h₁
  obtain ⟨n₂, hn₂, himage₂⟩ := hentry h₂
  rw [List.pairwise_iff_getElem] at hnodup
  obtain ⟨hlt₁, hget₁⟩ := List.getElem?_eq_some_iff.1 hn₁
  obtain ⟨hlt₂, hget₂⟩ := List.getElem?_eq_some_iff.1 hn₂
  refine NodeId.ext_toNat ?_
  rcases Nat.lt_trichotomy id₁.index.toNat id₂.index.toNat with hlt | heq | hlt
  · have hne := hnodup _ _ hlt₁ hlt₂ hlt
    rw [hget₁, hget₂] at hne
    exact absurd rfl (hne _ himage₁ _ himage₂)
  · exact heq
  · have hne := hnodup _ _ hlt₂ hlt₁ hlt
    rw [hget₁, hget₂] at hne
    exact absurd rfl (hne _ himage₂ _ himage₁)

/-- Only results are gone. -/
theorem exists_image (h : Folds c c' im) (hsize : c.nodes.length ≤ 2 ^ 32) {id : NodeId} {n : Node}
    (hn : c.node? id = some n) (hrole : n.role ≠ .result ∨ n.origin ≠ .defined ∨ ¬ n.IsGround) :
    ∃ id', im[id.index.toNat]? = some (.node id') := by
  have hlt := (List.getElem?_eq_some_iff.1 hn).1
  rw [← h.length] at hlt
  have hget := List.getElem?_eq_getElem hlt
  rcases h.place_cases _ (List.getElem_mem hlt) with ⟨id', hid⟩ | ⟨k, hk⟩
  · exact ⟨id', by rw [hget, hid]⟩
  · obtain ⟨m, hi, lo, a, j, hm, -, htaken⟩ := (h.gone_of_constant hsize (hget.trans (by rw [hk]))).operator
    obtain rfl := Option.some.inj (hn.symm.trans hm)
    rcases hrole with hrole | horigin | hground
    · exact absurd htaken.role hrole
    · exact absurd htaken.origin horigin
    · exact absurd ⟨_, _, htaken.ty⟩ hground

end Folds

end Circuitry
