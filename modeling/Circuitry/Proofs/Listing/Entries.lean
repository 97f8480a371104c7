/-
  What a listing shows behind the commands of ports.

  Behind a command that defines a node, a listing shows the entry that the id of the command leads to:
  its type, and its name unless it is a port.  Ids have 32 bits and are not checked when they are handed
  out, so in a table with more entries than there are ids the entry may be an earlier one.  No size of
  the table is asked for here.

  An entry is `Plain` if a listing shows a ground type for it and nothing else.  Entries of ports are
  plain, and so are fields; whatever is not has been defined by a command that is no port.  So the entry
  behind a port is plain, or some line above shows it already (`Tabled.declared`).  A step adds a port
  with its entry, or one entry with plain ones behind it, or none (`Adds`), which keeps this.
-/
import Circuitry.Proofs.Draft.WellFormed
import Circuitry.Proofs.Script.Described

namespace Circuitry

/-- A listing shows a ground type for the entry, and no name. -/
structure Node.Plain (n : Node) : Prop where
  ground : n.IsGround
  unnamed : n.name = none ∨ ∃ direction, n.role = .port direction

namespace Draft

/-- Some command that is no port defines the node. -/
def DefinedBeside (cs : List Command) (id : NodeId) : Prop :=
  ∃ cmd ∈ cs, cmd.port? = none ∧ cmd.defines? = some id

theorem DefinedBeside.append {cs : List Command} {id : NodeId} (h : DefinedBeside cs id)
    (more : List Command) : DefinedBeside (cs ++ more) id := by
  obtain ⟨cmd, hcmd, hrest⟩ := h
  exact ⟨cmd, List.mem_append_left _ hcmd, hrest⟩

/-- Entries are plain unless a command that is no port defines them, and the entry behind a port is
    plain unless that command stands above. -/
structure Tabled (ns : List Node) (ps : List Port) (cs : List Command) : Prop where
  entries : ∀ i n, ns[i]? = some n → n.Plain ∨ DefinedBeside cs (idAt i)
  declared : ∀ past id direction name rest, cs = past ++ .defPort id direction name :: rest →
    ∃ n, ns[id.index.toNat]? = some n ∧ (n.Plain ∨ DefinedBeside past id)
  ports : ps = cs.filterMap Command.port?

/-- What a command adds to a table of so many entries. -/
inductive AddsPlain (length : Nat) : Command → List Node → Prop
  | port (direction : Direction) (name : String) (n : Node) (plain : n.Plain) :
      AddsPlain length (.defPort (idAt length) direction name) [n]
  | other (cmd : Command) (n : Node) (rest : List Node) (port : cmd.port? = none)
      (defines : cmd.defines? = some (idAt length)) (plain : ∀ m ∈ rest, m.Plain) :
      AddsPlain length cmd (n :: rest)
  | nothing (cmd : Command) (port : cmd.port? = none) : AddsPlain length cmd []

namespace Tabled

variable {ns nodes : List Node} {ps : List Port} {cs : List Command} {cmd : Command}

theorem nothing : Tabled [] [] [] where
  entries := by simp
  declared := by simp
  ports := rfl

theorem entries_grow (h : Tabled ns ps cs) (hadds : AddsPlain ns.length cmd nodes) (i : Nat)
    (n : Node) (hn : (ns ++ nodes)[i]? = some n) : n.Plain ∨ DefinedBeside (cs ++ [cmd]) (idAt i) := by
  obtain hold | ⟨k, rfl, hnew⟩ := getElem?_append_cases hn
  · exact (h.entries i n hold).imp_right fun hdefined => hdefined.append _
  cases hadds with
  | port direction name m plain =>
    obtain rfl := List.mem_singleton.1 (List.mem_of_getElem? hnew)
    exact .inl plain
  | other cmd m rest port defines plain =>
    rcases k with _ | k
    · exact .inr ⟨cmd, List.mem_append_right _ (List.mem_singleton_self cmd), port, defines⟩
    · exact .inl (plain n (List.mem_of_getElem? hnew))
  | nothing cmd port => simp at hnew

/-- The id of a new port leads to its own entry, or to an earlier one. -/
theorem declared_last (h : Tabled ns ps cs) {n : Node} (hplain : n.Plain) :
    ∃ m, (ns ++ [n])[(idAt ns.length).index.toNat]? = some m ∧
      (m.Plain ∨ DefinedBeside cs (idAt ns.length)) := by
  have hle : (idAt ns.length).index.toNat ≤ ns.length := by
    rw [UInt32.toNat_ofNat']
    exact Nat.mod_le _ _
  rcases Nat.lt_or_eq_of_le hle with hlt | heq
  · have hold := List.getElem?_eq_getElem hlt
    refine ⟨_, getElem?_append_of_eq_some [n] hold, ?_⟩
    have hentry := h.entries _ _ hold
    rwa [idAt_toNat] at hentry
  · refine ⟨n, ?_, .inl hplain⟩
    rw [heq]
    simp

theorem declared_grow (h : Tabled ns ps cs) (hadds : AddsPlain ns.length cmd nodes)
    (past : List Command) (id : NodeId) (direction : Direction) (name : String) (rest : List Command)
    (hcs : cs ++ [cmd] = past ++ .defPort id direction name :: rest) :
    ∃ n, (ns ++ nodes)[id.index.toNat]? = some n ∧ (n.Plain ∨ DefinedBeside past id) := by
  rcases rest.eq_nil_or_concat with rfl | ⟨rest, last, rfl⟩
  · obtain ⟨rfl, hcmd⟩ := List.append_inj' hcs rfl
    obtain rfl := List.head_eq_of_cons_eq hcmd
    cases hadds with
    | port _ _ n plain => exact h.declared_last plain
    | other _ _ _ port _ _ => cases port
    | nothing _ port => cases port
  · rw [List.concat_eq_append, ← List.cons_append, ← List.append_assoc] at hcs
    obtain ⟨n, hn, hentry⟩ := h.declared past id direction name rest (List.append_inj' hcs rfl).1
    exact ⟨n, getElem?_append_of_eq_some nodes hn, hentry⟩

theorem grow (h : Tabled ns ps cs) (hadds : AddsPlain ns.length cmd nodes) :
    Tabled (ns ++ nodes) (ps ++ cmd.port?.toList) (cs ++ [cmd]) where
  entries := h.entries_grow hadds
  declared := h.declared_grow hadds
  ports := by
    rw [List.filterMap_append, ← h.ports]
    cases hport : cmd.port? <;> simp [hport]

end Tabled

namespace Session

/-- The table of the draft is as `Tabled` says. -/
def Tabled (w : Session) : Prop := Draft.Tabled w.draft.nodes w.draft.ports w.draft.commands

variable {w w' : Session}

theorem Tabled.grow (h : w.Tabled) {cmd : Command} {nodes : List Node}
    (hadds : AddsPlain w.draft.nodes.length cmd nodes)
    (hnodes : w'.draft.nodes = w.draft.nodes ++ nodes)
    (hports : w'.draft.ports = w.draft.ports ++ cmd.port?.toList)
    (hcommands : w'.draft.commands = w.draft.commands ++ [cmd]) : w'.Tabled := by
  have hgrown := Draft.Tabled.grow h hadds
  rwa [← hnodes, ← hports, ← hcommands] at hgrown

theorem plain_resultNode (s : Signal) (origin : Origin) : (resultNode s origin).Plain :=
  ⟨⟨s.kind, s.width, rfl⟩, .inl rfl⟩

theorem plain_fieldNodes (parent : NodeId) (ss : List Signal) : ∀ index,
    ∀ n ∈ fieldNodes parent index ss, n.Plain := by
  induction ss with
  | nil => exact fun _ => List.forall_mem_nil _
  | cons s rest ih =>
    intro index
    exact List.forall_mem_cons.2 ⟨plain_resultNode s _, ih (index + 1)⟩

theorem closed_tabled : Closed Tabled := by
  intro L made w w' hstep h
  cases hstep with
  | create kind width literal _ => exact h
  | report f _ => exact h
  | drain => exact h
  | declare r name s _ _ =>
    cases r with
    | port d => exact h.grow (.port d name _ ⟨⟨s.kind, s.width, rfl⟩, .inr ⟨d, rfl⟩⟩) rfl rfl rfl
    | wire => exact h.grow (.other (.defWire w.draft.nextId) _ [] rfl rfl nofun) rfl rfl rfl
    | register => exact h.grow (.other (.defReg w.draft.nextId) _ [] rfl rfl nofun) rfl rfl rfl
  | define op signals args kind width _ _ _ =>
    refine h.grow (.other (.defPrim w.draft.nextId op args) _ [] rfl rfl nofun) rfl ?_ rfl
    exact (List.append_nil _).symm
  | connect target source b a _ _ _ _ =>
    exact h.grow (.nothing (.connect b.id a) rfl) (List.append_nil _).symm (List.append_nil _).symm rfl
  | select cond ts fs c t f types _ _ _ _ _ _ _ =>
    refine h.grow (.other (.defPrim w.draft.nextId .mux (selectionArgs c t f)) _ _ rfl rfl
      (plain_fieldNodes _ _ 0)) (nodes_selected w c t f types) ?_ (commands_selected w c t f types)
    rw [ports_selected]
    exact (List.append_nil _).symm

theorem mark_tabled {L : List Signal} (hmark : Mark L w w') (h : w.Tabled) : w'.Tabled := by
  obtain ⟨cmd, hcontrol, rfl⟩ := hmark.commands
  have hport : cmd.port? = none := by cases cmd <;> first | rfl | cases hcontrol
  refine h.grow (.nothing cmd hport) (List.append_nil _).symm ?_ rfl
  rw [hport]
  exact (List.append_nil _).symm

end Session

end Draft

/-- **Whatever a description returns is tabled**, however many nodes it has. -/
theorem Script.tabled_of_describe? {s : Script} {m m' : Memory} {name : String}
    {settings : Settings.Elaboration} {o : Outcome} {c : Circuit}
    (h : s.describe? m name settings = some (o, m')) (hc : o.result = .ok c) :
    Draft.Tabled c.nodes c.ports c.commands := by
  have hstart : (m.world name settings).session.Tabled := .nothing
  obtain ⟨w, hw, -, -, hfinish⟩ := describe?_keeps Draft.Session.closed_tabled.stable
    (fun _ _ _ => Draft.Session.mark_tabled) h hstart
  obtain ⟨rfl, -⟩ := finish_eq_ok (hfinish c hc)
  exact hw

end Circuitry
