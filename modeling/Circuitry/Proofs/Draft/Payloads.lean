/-
  The constants of a circuit under construction.

  A constant gets into a command as the operand that a literal is.  Every literal that a description can
  make has a width that its kind allows and a payload that suits it (`Bits.Suits`): well formed, and as
  wide as the literal unless it stands in for a value or the width is open.  So has every constant of
  every command.

  1. `constants` lists the constants of operands, commands and circuits, at any depth;
  2. `Suited` says it of the signals that are around, which are also as wide as their kinds allow, and
     of the commands so far; every step and every mark keeps it;
  3. `Proper` puts this together with what `Lawful` says.
-/
import Circuitry.Proofs.Draft.Consistent

namespace Circuitry

/-! ## Constants -/

mutual

/-- The constants of an operand. -/
def Operand.constants : Operand → List Constant
  | .node _ => []
  | .constant k => [k]
  | .aggregate xs => operandsConstants xs

/-- The constants of operands. -/
def operandsConstants : List Operand → List Constant
  | [] => []
  | a :: as => a.constants ++ operandsConstants as

end

/-- The operands of a command. -/
def Command.operands : Command → List Operand
  | .defPrim _ _ args => args
  | .connect _ source => [source]
  | .whenBegin pred _ => [pred]
  | _ => []

/-- The constants of a command. -/
def Command.constants (cmd : Command) : List Constant := operandsConstants cmd.operands

/-- The constants of a circuit, in the order of its commands. -/
def Circuit.constants (c : Circuit) : List Constant := c.commands.flatMap Command.constants


/-- A boolean is one bit wide, whatever width is asked for. -/
theorem Signals.groundWidth_groundWidth (kind : Kind) (width : Width) :
    groundWidth kind (groundWidth kind width) = groundWidth kind width := by
  cases kind <;> rfl

/-- The constant is one that a literal can be. -/
structure Constant.Suits (k : Constant) : Prop where
  grounded : Signals.groundWidth k.kind k.width = k.width
  payload : k.value.Suits k.width

/-- The signal has a width that its kind allows, and if it is a literal, a payload that suits it. -/
structure Signal.Apt (s : Signal) : Prop where
  grounded : Signals.groundWidth s.kind s.width = s.width
  payload : ∀ v ∈ s.literal, v.Suits s.width

namespace Draft.Session

variable {L : List Signal} {w : Session}

/-- The signals that are around are apt, and the payloads of constants in commands suit them. -/
structure Suited (L : List Signal) (w : Session) : Prop where
  signals : ∀ s ∈ L, s.Apt
  constants : ∀ cmd ∈ w.draft.commands, ∀ k ∈ cmd.constants, k.Suits

namespace Suited

theorem forget {L' : List Signal} (h : w.Suited L) (hL : L' ⊆ L) : w.Suited L' :=
  ⟨fun s hs => h.signals s (hL hs), h.constants⟩

/-- What is read from a literal that is around suits. -/
theorem reads (h : w.Suited L) {s : Signal} (hs : s ∈ L) {a : Operand} (ha : w.Reads s a) :
    ∀ k ∈ a.constants, k.Suits := by
  intro k hk
  cases ha with
  | literal hv =>
    obtain rfl := List.mem_singleton.1 hk
    exact ⟨(h.signals s hs).grounded, (h.signals s hs).payload _ hv⟩
  | node _ _ => cases hk

theorem reads_all (h : w.Suited L) {ss : List Signal} (hss : ss ⊆ L) {as : List Operand}
    (hreads : List.Forall₂ w.Reads ss as) : ∀ k ∈ operandsConstants as, k.Suits := by
  induction hreads with
  | nil => exact List.forall_mem_nil _
  | cons ha _ ih =>
    obtain ⟨hs, hrest⟩ := List.cons_subset.1 hss
    intro k hk
    rcases List.mem_append.1 hk with hk | hk
    · exact h.reads hs ha k hk
    · exact ih hrest k hk

/-- A command is appended whose constants suit. -/
theorem appended {w' : Session} (h : w.Suited L) (cmd : Command)
    (hcommands : w'.draft.commands = w.draft.commands ++ [cmd])
    (hcmd : ∀ k ∈ cmd.constants, k.Suits) : w'.Suited L := by
  refine ⟨h.signals, fun c hc => ?_⟩
  rw [hcommands] at hc
  rcases List.mem_append.1 hc with hc | hc
  · exact h.constants c hc
  · exact List.mem_singleton.1 hc ▸ hcmd

theorem made {made : List Signal} (h : w.Suited L) (hmade : ∀ s ∈ made, s.Apt) :
    w.Suited (made ++ L) := by
  refine ⟨fun s hs => ?_, h.constants⟩
  rcases List.mem_append.1 hs with hs | hs
  · exact hmade s hs
  · exact h.signals s hs

end Suited

/-- New templates are apt. -/
theorem apt_freshSignals (types : List (Kind × Width)) :
    ∀ next, ∀ s ∈ freshSignals next types, s.Apt := by
  induction types with
  | nil => exact fun _ => List.forall_mem_nil _
  | cons t rest ih =>
    intro next s hs
    rcases List.mem_cons.1 hs with rfl | hs
    · exact ⟨Signals.groundWidth_groundWidth t.1 t.2, nofun⟩
    · exact ih (next + 1) s hs

theorem step_suited {made : List Signal} {w' : Session} (hstep : Step L w made w')
    (h : w.Suited L) : w'.Suited (made ++ L) := by
  cases hstep with
  | create kind width literal suits =>
    have hmade : w.Suited ([⟨w.signals.next, kind, Signals.groundWidth kind width, literal⟩] ++ L) :=
      h.made fun s hs => List.mem_singleton.1 hs ▸ ⟨Signals.groundWidth_groundWidth kind width, suits⟩
    exact ⟨hmade.signals, hmade.constants⟩
  | report f _ => exact ⟨h.signals, h.constants⟩
  | drain => exact ⟨h.signals, h.constants⟩
  | declare r name s _ _ =>
    refine h.appended (r.command w.draft.nextId name) rfl ?_
    cases r <;> exact List.forall_mem_nil _
  | define op signals args kind width reads arity known =>
    have hmade : w.Suited ([w.resultSignal kind width] ++ L) :=
      h.made fun s hs => List.mem_singleton.1 hs ▸
        ⟨Signals.groundWidth_groundWidth kind width, nofun⟩
    exact hmade.appended (.defPrim w.draft.nextId op args) rfl (h.reads_all known reads)
  | connect target source b a _ _ reads known =>
    have hsource := h.reads (known (List.mem_cons_of_mem _ (List.mem_singleton_self _))) reads
    refine h.appended (.connect b.id a) rfl fun k hk => hsource k ?_
    simpa [Command.constants, Command.operands, operandsConstants] using hk
  | select cond ts fs c t f types readsCond readsTrue readsFalse _ _ _ known =>
    obtain ⟨hcond, hbranches⟩ := List.cons_subset.1 known
    obtain ⟨hts, hfs⟩ := List.append_subset.1 hbranches
    have hmade := h.made (apt_freshSignals (Shape.fieldLeaves types) w.signals.next)
    refine hmade.appended _ (commands_selected w c t f types) fun k hk => ?_
    simp only [Command.constants, Command.operands, selectionArgs, operandsConstants,
      Operand.constants, List.append_nil, List.mem_append] at hk
    rcases hk with hk | hk | hk
    · exact h.reads hcond readsCond k hk
    · exact h.reads_all hts readsTrue k hk
    · exact h.reads_all hfs readsFalse k hk

theorem stable_suited : Stable Suited where
  step _ _ _ _ := step_suited
  forget _ _ _ hL h := h.forget hL

theorem mark_suited {w' : Session} (hmark : Mark L w w') (h : w.Suited L) : w'.Suited L := by
  cases hmark with
  | whenBegin s a reads _ known depth =>
    refine h.appended (.whenBegin a depth) rfl fun k hk => h.reads known reads k ?_
    simpa [Command.constants, Command.operands, operandsConstants] using hk
  | whenEnd depth => exact h.appended (.whenEnd depth) rfl (List.forall_mem_nil _)
  | altBegin depth => exact h.appended (.altBegin depth) rfl (List.forall_mem_nil _)
  | otherwiseEnd depth => exact h.appended (.otherwiseEnd depth) rfl (List.forall_mem_nil _)

/-! ## Proper sessions -/

/-- The session is lawful, and its literals are as they should be. -/
structure Proper (L : List Signal) (w : Session) : Prop where
  lawful : w.Lawful L
  suited : w.Suited L

theorem stable_proper : Stable Proper where
  step _ _ _ _ hstep h := ⟨stable_lawful.step hstep h.lawful, step_suited hstep h.suited⟩
  forget _ _ _ hL h := ⟨stable_lawful.forget hL h.lawful, h.suited.forget hL⟩

theorem mark_proper {w' : Session} (hmark : Mark L w w') (h : w.Proper L) : w'.Proper L :=
  ⟨mark_lawful hmark h.lawful, mark_suited hmark h.suited⟩

end Draft.Session

end Circuitry
