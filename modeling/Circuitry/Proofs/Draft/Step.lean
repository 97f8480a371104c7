/-
  What one step of a description can do.

  Every use of the description language, whether it ends well or not, moves the session it works on
  by steps of seven kinds: a signal is made, a fault is reported, the sink is drained, a template is
  declared, an operator is applied, a connection is made, or a selection between aggregates is made
  together with all its fields.  `Step` lists them with everything they check first, so what a step
  preserves can be proved without looking at the operations again.

  A session does not know which signals there are, only which of them are bound.  So a step also says
  which signals it makes, and that the signals it takes are among those that are around.

  Commands that mark regions are not among the steps; they are `Mark`s, and only chains make them.

  1. `Reads w s a` says that the signal `s` is the operand `a`, and `Drives w s id` that it can be the
     target of a connection;
  2. `declared`, `defined`, `connected` and `selected` are the states after the larger steps;
  3. `Step` and `Mark` are the moves.
-/
import Mathlib.Data.List.Forall2
import Circuitry.Draft.Bundle

namespace Circuitry

/-- What is found is in the list. -/
theorem mem_of_lookup {α β : Type} [BEq α] [LawfulBEq α] {l : List (α × β)} {k : α} {b : β}
    (h : l.lookup k = some b) : (k, b) ∈ l := by
  obtain ⟨l₁, l₂, hl, -⟩ := List.lookup_eq_some_iff.1 h
  rw [hl]
  exact List.mem_append_right _ (List.mem_cons_self ..)

namespace Bits

/-- What the payload of a literal is like: well formed, and as wide as the literal.  One zero bit
    stands in for a value that cannot be had, and a literal of open width takes any width. -/
structure Suits (v : Bits) (width : Width) : Prop where
  wellFormed : v.WellFormed
  width_eq : ∀ w, width = .known w → v.width = w ∨ v = zero 1

theorem suits_ofNat (w : UInt32) (n : Nat) : (ofNat w n).Suits (.known w) where
  wellFormed := wellFormed_ofNat w n
  width_eq _ h := .inl (Width.known.inj h)

theorem WellFormed.suits_unknown {v : Bits} (h : v.WellFormed) : v.Suits .unknown :=
  ⟨h, nofun⟩

/-- A payload that suits a width fits into it. -/
theorem Suits.value_lt {v : Bits} {w : UInt32} (h : v.Suits (.known w)) : v.value < 2 ^ w.toNat := by
  rcases h.width_eq w rfl with heq | rfl
  · exact heq ▸ v.value_lt
  · rw [zero, value_ofNat, Nat.zero_mod]
    exact Nat.two_pow_pos _

/-- The stand-in for a value that cannot be had. -/
theorem suits_zero (width : Width) : (zero 1).Suits width where
  wellFormed := wellFormed_ofNat 1 0
  width_eq _ _ := .inr rfl

/-- One bit has a payload of one bit. -/
theorem Suits.width_eq_one {v : Bits} (h : v.Suits (.known 1)) : v.width = 1 := by
  rcases h.width_eq 1 rfl with heq | rfl
  · exact heq
  · rfl

end Bits

namespace Draft

/-- The circuit described so far. -/
def circuit (d : Draft) : Circuit := ⟨d.name, d.nodes, d.ports, d.commands⟩

/-- The id of the next entry of the node table. -/
def nextId (d : Draft) : NodeId := ⟨UInt32.ofNat d.nodes.length⟩

/-- Appends to the node table. -/
def withNode (d : Draft) (n : Node) : Draft := { d with nodes := d.nodes ++ [n] }

/-- Appends a command. -/
def withCommand (d : Draft) (cmd : Command) : Draft := { d with commands := d.commands ++ [cmd] }

/-! ## Signals made one after the other -/

/-- Templates with consecutive serial numbers. -/
def freshSignals (next : Nat) : List (Kind × Width) → List Signal
  | [] => []
  | t :: rest => ⟨next, t.1, Signals.groundWidth t.1 t.2, none⟩ :: freshSignals (next + 1) rest

@[simp] theorem length_freshSignals (types : List (Kind × Width)) :
    ∀ next, (freshSignals next types).length = types.length := by
  induction types with
  | nil => intro; rfl
  | cons t rest ih => intro next; simp [freshSignals, ih]

theorem le_serial_freshSignals (types : List (Kind × Width)) :
    ∀ next, ∀ s ∈ freshSignals next types, next ≤ s.serial := by
  induction types with
  | nil => exact fun _ _ => nofun
  | cons t rest ih =>
    intro next s hs
    rcases List.mem_cons.1 hs with rfl | hs
    · exact Nat.le_refl _
    · exact Nat.le_of_succ_le (ih (next + 1) s hs)

namespace Session

/-! ## Signals in commands -/

/-- The signal is the operand. -/
inductive Reads (w : Session) (s : Signal) : Operand → Prop
  | literal {v : Bits} (h : s.literal = some v) : Reads w s (.constant ⟨s.kind, s.width, v⟩)
  | node {b : Binding} (h : w.signals.standing s = .bound b) (hc : b.context = w.draft.context) :
    Reads w s (.node b.id)

/-- The signal is the target of a connection. -/
structure Drives (w : Session) (s : Signal) (b : Binding) : Prop where
  bound : w.signals.standing s = .bound b
  context : b.context = w.draft.context
  assignable : b.role.isAssignable = true

/-! ## The states after a step -/

/-- After a new signal. -/
def created (w : Session) : Session :=
  { w with signals := { w.signals with next := w.signals.next + 1 } }

/-- After a report. -/
def reported (w : Session) (f : Fault) : Session :=
  { w with draft := { w.draft with sink := w.draft.sink.emit f.toDiagnostic } }

/-- After the sink has been drained. -/
def drained (w : Session) : Session :=
  { w with draft := { w.draft with sink := w.draft.sink.drain.2 } }

/-- After a command. -/
def emitted (w : Session) (cmd : Command) : Session := { w with draft := w.draft.withCommand cmd }

/-- After a signal has got a new node. -/
def placed (w : Session) (s : Signal) (n : Node) : Session :=
  ⟨w.signals.bind s ⟨n.role, w.draft.context, w.draft.nextId⟩, w.draft.withNode n⟩

/-- The entry of a declared node. -/
def declaredNode (r : Declared) (name : String) (s : Signal) : Node :=
  ⟨s.ty, r.role, some name, .defined, .unknown⟩

/-- After a declaration. -/
def declared (w : Session) (r : Declared) (name : String) (s : Signal) : Session :=
  let id := w.draft.nextId
  let w' := w.placed s (declaredNode r name s)
  ({ w' with draft := { w'.draft with ports := w'.draft.ports ++ r.ports id name } }).emitted
    (r.command id name)

/-- The signal that an operator makes. -/
def resultSignal (w : Session) (kind : Kind) (width : Width) : Signal :=
  ⟨w.signals.next, kind, Signals.groundWidth kind width, none⟩

/-- The entry of a ground result. -/
def resultNode (s : Signal) (origin : Origin) : Node := ⟨s.ty, .result, none, origin, .unknown⟩

/-- After an operator. -/
def defined (w : Session) (op : Operator) (args : List Operand) (kind : Kind) (width : Width) :
    Session :=
  let s := w.resultSignal kind width
  (w.created.placed s (resultNode s .defined)).emitted (.defPrim w.draft.nextId op args)

/-- After signals have been made into the fields of a node, counting from `index`. -/
def fielded (parent : NodeId) : (index : Nat) → List Signal → Session → Session
  | _, [], w => w
  | index, s :: rest, w =>
    fielded parent (index + 1) rest
      (w.placed s (resultNode s (.field parent (UInt32.ofNat index))))

/-- The entry of a selection between aggregates. -/
def selectionNode (types : Shape.Fields (Kind × Width)) : Node :=
  ⟨.aggregate (Shape.fieldsToTy types), .result, none, .defined, .unknown⟩

/-- The operands of a selection between aggregates. -/
def selectionArgs (cond : Operand) (t f : List Operand) : List Operand :=
  [cond, .aggregate t, .aggregate f]

/-- After a selection between aggregates. -/
def selected (w : Session) (cond : Operand) (t f : List Operand)
    (types : Shape.Fields (Kind × Width)) : Session :=
  let parent := w.draft.nextId
  let leaves := Shape.fieldLeaves types
  let draft := (w.draft.withNode (selectionNode types)).withCommand
    (.defPrim parent .mux (selectionArgs cond t f))
  fielded parent 0 (freshSignals w.signals.next leaves)
    ⟨{ w.signals with next := w.signals.next + leaves.length }, draft⟩

/-! ## Moves -/

/-- One step of a description.  It takes signals from those `around`, and makes the signals `made`. -/
inductive Step (around : List Signal) (w : Session) : (made : List Signal) → Session → Prop
  | create (kind : Kind) (width : Width) (literal : Option Bits)
      (suits : ∀ v ∈ literal, v.Suits (Signals.groundWidth kind width)) :
      Step around w [⟨w.signals.next, kind, Signals.groundWidth kind width, literal⟩] w.created
  | report (f : Fault) (accumulates : f.accumulates = true) : Step around w [] (w.reported f)
  | drain : Step around w [] w.drained
  | declare (r : Declared) (name : String) (s : Signal)
      (template : w.signals.standing s = .template) (known : s ∈ around) :
      Step around w [] (w.declared r name s)
  | define (op : Operator) (signals : List Signal) (args : List Operand) (kind : Kind)
      (width : Width) (reads : List.Forall₂ w.Reads signals args)
      (arity : signals.length = op.arity) (known : signals ⊆ around) :
      Step around w [w.resultSignal kind width] (w.defined op args kind width)
  | connect (target source : Signal) (b : Binding) (a : Operand)
      (kinds : target.kind = source.kind) (drives : w.Drives target b) (reads : w.Reads source a)
      (known : [target, source] ⊆ around) : Step around w [] (w.emitted (.connect b.id a))
  | select (cond : Signal) (ts fs : List Signal) (c : Operand) (t f : List Operand)
      (types : Shape.Fields (Kind × Width)) (readsCond : w.Reads cond c)
      (readsTrue : List.Forall₂ w.Reads ts t) (readsFalse : List.Forall₂ w.Reads fs f)
      (lengths : ts.length = fs.length) (shape : (Shape.fieldLeaves types).length = ts.length)
      (grounded : ∀ u ∈ Shape.fieldLeaves types, Signals.groundWidth u.1 u.2 = u.2)
      (known : cond :: (ts ++ fs) ⊆ around) :
      Step around w (freshSignals w.signals.next (Shape.fieldLeaves types)) (w.selected c t f types)

/-- A command that marks a region. -/
inductive Mark (around : List Signal) (w : Session) : Session → Prop
  | whenBegin (s : Signal) (a : Operand) (reads : w.Reads s a) (boolean : s.kind = .bool)
      (known : s ∈ around) (depth : UInt32) : Mark around w (w.emitted (.whenBegin a depth))
  | whenEnd (depth : UInt32) : Mark around w (w.emitted (.whenEnd depth))
  | altBegin (depth : UInt32) : Mark around w (w.emitted (.altBegin depth))
  | otherwiseEnd (depth : UInt32) : Mark around w (w.emitted (.otherwiseEnd depth))

/-! ## Parts of the states -/

section Parts

variable (w : Session)

@[simp] theorem signals_emitted (cmd : Command) : (w.emitted cmd).signals = w.signals := rfl

@[simp] theorem commands_emitted (cmd : Command) :
    (w.emitted cmd).draft.commands = w.draft.commands ++ [cmd] := rfl

@[simp] theorem nodes_emitted (cmd : Command) : (w.emitted cmd).draft.nodes = w.draft.nodes := rfl

@[simp] theorem sink_emitted (cmd : Command) : (w.emitted cmd).draft.sink = w.draft.sink := rfl

@[simp] theorem context_emitted (cmd : Command) :
    (w.emitted cmd).draft.context = w.draft.context := rfl

@[simp] theorem commands_placed (s : Signal) (n : Node) :
    (w.placed s n).draft.commands = w.draft.commands := rfl

@[simp] theorem nodes_placed (s : Signal) (n : Node) :
    (w.placed s n).draft.nodes = w.draft.nodes ++ [n] := rfl

@[simp] theorem sink_placed (s : Signal) (n : Node) : (w.placed s n).draft.sink = w.draft.sink :=
  rfl

@[simp] theorem context_placed (s : Signal) (n : Node) :
    (w.placed s n).draft.context = w.draft.context := rfl

end Parts

/-- Fields change no command. -/
@[simp] theorem commands_fielded (parent : NodeId) (ss : List Signal) :
    ∀ (index : Nat) (w : Session), (fielded parent index ss w).draft.commands = w.draft.commands := by
  induction ss with
  | nil => intros; rfl
  | cons s rest ih => intro index w; rw [fielded, ih, commands_placed]

@[simp] theorem sink_fielded (parent : NodeId) (ss : List Signal) :
    ∀ (index : Nat) (w : Session), (fielded parent index ss w).draft.sink = w.draft.sink := by
  induction ss with
  | nil => intros; rfl
  | cons s rest ih => intro index w; rw [fielded, ih, sink_placed]

@[simp] theorem context_fielded (parent : NodeId) (ss : List Signal) :
    ∀ (index : Nat) (w : Session), (fielded parent index ss w).draft.context = w.draft.context := by
  induction ss with
  | nil => intros; rfl
  | cons s rest ih => intro index w; rw [fielded, ih, context_placed]

/-- The entries of fields, counting from `index`. -/
def fieldNodes (parent : NodeId) : (index : Nat) → List Signal → List Node
  | _, [] => []
  | index, s :: rest =>
    resultNode s (.field parent (UInt32.ofNat index)) :: fieldNodes parent (index + 1) rest

theorem nodes_fielded (parent : NodeId) (ss : List Signal) :
    ∀ (index : Nat) (w : Session),
      (fielded parent index ss w).draft.nodes = w.draft.nodes ++ fieldNodes parent index ss := by
  induction ss with
  | nil => intros; simp [fielded, fieldNodes]
  | cons s rest ih =>
    intro index w
    rw [fielded, ih, nodes_placed, fieldNodes, List.append_assoc, List.singleton_append]

@[simp] theorem commands_selected (w : Session) (c : Operand) (t f : List Operand)
    (types : Shape.Fields (Kind × Width)) :
    (w.selected c t f types).draft.commands =
      w.draft.commands ++ [.defPrim w.draft.nextId .mux (selectionArgs c t f)] := by
  rw [selected, commands_fielded]
  rfl

@[simp] theorem sink_selected (w : Session) (c : Operand) (t f : List Operand)
    (types : Shape.Fields (Kind × Width)) :
    (w.selected c t f types).draft.sink = w.draft.sink := by
  rw [selected, sink_fielded]
  rfl

@[simp] theorem context_selected (w : Session) (c : Operand) (t f : List Operand)
    (types : Shape.Fields (Kind × Width)) :
    (w.selected c t f types).draft.context = w.draft.context := by
  rw [selected, context_fielded]
  rfl

theorem nodes_selected (w : Session) (c : Operand) (t f : List Operand)
    (types : Shape.Fields (Kind × Width)) :
    (w.selected c t f types).draft.nodes = w.draft.nodes ++ selectionNode types ::
      fieldNodes w.draft.nextId 0
        (freshSignals w.signals.next (Shape.fieldLeaves types)) := by
  rw [selected, nodes_fielded]
  simp [withNode, withCommand]

/-- Marks leave everything but the commands as it was. -/
theorem Mark.commands {around : List Signal} {w w' : Session} (h : Mark around w w') :
    ∃ cmd, cmd.isControl = true ∧ w' = w.emitted cmd := by
  cases h with
  | whenBegin s a reads _ _ depth => exact ⟨_, rfl, rfl⟩
  | whenEnd depth => exact ⟨_, rfl, rfl⟩
  | altBegin depth => exact ⟨_, rfl, rfl⟩
  | otherwiseEnd depth => exact ⟨_, rfl, rfl⟩

/-- A step appends at most one command, and none that marks a region. -/
theorem Step.commands {around made : List Signal} {w w' : Session}
    (h : Step around w made w') :
    ∃ cmds : List Command, (∀ c ∈ cmds, c.isControl = false) ∧
      w'.draft.commands = w.draft.commands ++ cmds := by
  cases h with
  | create kind width literal _ => exact ⟨[], nofun, (List.append_nil _).symm⟩
  | report f _ => exact ⟨[], nofun, (List.append_nil _).symm⟩
  | drain => exact ⟨[], nofun, (List.append_nil _).symm⟩
  | declare r name s _ _ =>
    refine ⟨[r.command w.draft.nextId name], ?_, rfl⟩
    simp only [List.mem_singleton, forall_eq]
    cases r <;> rfl
  | define op signals args kind width _ _ _ =>
    exact ⟨[.defPrim w.draft.nextId op args], by simp [Command.isControl], rfl⟩
  | connect target source b a _ _ _ _ =>
    exact ⟨[.connect b.id a], by simp [Command.isControl], rfl⟩
  | select cond ts fs c t f types _ _ _ _ _ _ _ =>
    exact ⟨_, by simp [Command.isControl], commands_selected w c t f types⟩

end Session

end Draft

end Circuitry
