/-
  What calls take as operands.

  The operands of a call are the leaves of the values that it names in their places
  (`Call.operands`); a connection also has targets.  The operation of a call is a `Gate` for them
  (`Call.Operates.gate`), and with the operation of an action as a gate, the action goes through only
  with ready operands, and turns only signals away that are not ready (`Performs.ready`,
  `Performs.unready`).
-/
import Circuitry.Proofs.Draft.Gate
import Circuitry.Proofs.Script.Operations

namespace Circuitry.Script

open Draft (Build Bundle Session Gate Unfit)

variable {α : Type} {w : World}

/-- The leaves of the value of a variable. -/
def World.leavesOf (w : World) (name : String) : List Signal :=
  ((w.values.lookup name).map Shape.leaves).getD []

theorem World.leavesOf_eq {name : String} {b : Bundle} (h : w.values.lookup name = some b) :
    w.leavesOf name = b.leaves := by
  simp only [leavesOf, h, Option.map_some, Option.getD_some]

/-- What a call takes as operands. -/
def Call.operands (w : World) : Call → List Signal
  | .connect _ source => w.leavesOf source
  | .mux cond t f | .muxBundle cond t f => w.leavesOf cond ++ (w.leavesOf t ++ w.leavesOf f)
  | .binary _ a b => w.leavesOf a ++ w.leavesOf b
  | .unary _ a | .extract a _ _ | .bit a _ => w.leavesOf a
  | _ => []

/-- What a call drives. -/
def Call.targets (w : World) : Call → List Signal
  | .connect target _ => w.leavesOf target
  | _ => []

section Operations

variable {s : Session} {all : List Signal}

theorem gate_binary (op : Binary) {a b : Signal} (h : [a, b] ⊆ all) :
    Gate [a, b] all s (op.build a b) := by
  cases op with
  | add | sub => exact Draft.gate_wrapping _ h
  | lt | leq | gt | geq | eq | neq => exact Draft.gate_compare _ h
  | shiftLeftBy => exact Draft.gate_shiftLeftBy h
  | _ => exact Draft.gate_apply _ h _

theorem gate_unary (op : Unary) {a : Signal} (h : [a] ⊆ all) : Gate [a] all s (op.build a) := by
  cases op with
  | asBool => exact Draft.gate_asBool h
  | _ => exact Draft.gate_apply _ h _

/-- The operation of a call looks at the operands and targets of the call. -/
theorem Call.Operates.gate {use : Call} {op : Build α} (h : use.Operates w α op) :
    Gate (use.operands w) (use.operands w ++ use.targets w) s op := by
  cases h with
  | look h =>
    have hnone : use.operands w = [] := by cases use <;> first | rfl | cases h
    rw [hnone]
    exact .silent ⟨(), s, rfl, rfl⟩
  | template kind width => exact .silent (Draft.silent_create ..)
  | fresh a b => exact .silent (Draft.silent_fresh b)
  | declare role name shape x => exact Draft.gate_declare role name x
  | declareFields role name shape fs => exact Draft.gate_declareFields role name fs
  | literalUInt n width => exact Draft.gate_literalUInt n width
  | literalSInt i width => exact Draft.gate_literalSInt i width
  | literalBool b => exact .silent (Draft.silent_create ..)
  | literalText text => exact Draft.gate_literalText text
  | connect ht hs =>
    simp only [operands, targets, World.leavesOf_eq ht, World.leavesOf_eq hs]
    exact Draft.gate_connect (by simp [Shape.leaves])
  | connectFields ht hs =>
    simp only [operands, targets, World.leavesOf_eq ht, World.leavesOf_eq hs]
    exact Draft.gate_connectFields (List.Subset.refl _)
  | mux hc hx hy =>
    simp only [operands, World.leavesOf_eq hc, World.leavesOf_eq hx, World.leavesOf_eq hy]
    exact Draft.gate_mux (List.subset_append_left _ _)
  | muxFields hc hx hy =>
    simp only [operands, World.leavesOf_eq hc, World.leavesOf_eq hx, World.leavesOf_eq hy]
    exact Draft.gate_muxFields (List.subset_append_left _ _)
  | muxBundle hc hx hy =>
    simp only [operands, World.leavesOf_eq hc, World.leavesOf_eq hx, World.leavesOf_eq hy]
    exact Draft.gate_muxBundle (List.subset_append_left _ _)
  | binary op hx hy =>
    simp only [operands, World.leavesOf_eq hx, World.leavesOf_eq hy]
    exact gate_binary op (List.subset_append_left _ _)
  | unary op hx =>
    simp only [operands, World.leavesOf_eq hx]
    exact gate_unary op (List.subset_append_left _ _)
  | extract hx hi lo =>
    simp only [operands, World.leavesOf_eq hx]
    exact Draft.gate_extract (List.subset_append_left _ _) hi lo
  | bit hx index =>
    simp only [operands, World.leavesOf_eq hx]
    exact Draft.gate_bit (List.subset_append_left _ _) index
  | drain =>
    rintro _ rfl
    exact List.forall_mem_nil _

end Operations

/-- New signals do not change what others are ready for. -/
theorem ready_upTo {s : Session} {next : Nat} {r : Signal} (h : (s.upTo next).Ready r) :
    s.Ready r := by
  obtain ⟨a, ha⟩ := h
  cases ha with
  | literal hl => exact ⟨_, .literal hl⟩
  | node hb hc => exact ⟨_, .node hb hc⟩

theorem unready_upTo {s : Session} {next : Nat} {r : Signal} {why : Unfit}
    (h : (s.upTo next).Unready r why) : s.Unready r why := by
  cases h with
  | template h => exact .template h
  | foreign h hc => exact .foreign h hc

/-- What goes through has ready operands. -/
theorem Performs.ready {operations : (β : Type) → Build β → Prop} {act : Run α}
    {taken all : List Signal} (h : Performs w operations act)
    (hgate : ∀ {β op s}, operations β op → Gate taken all s op) {a : α} {w' : World}
    (hact : act w = .ok a w') : ∀ s ∈ taken, w.session.Ready s := by
  obtain ⟨β, op, next, b, s, hop, hrun, -⟩ := h.of_ok rfl hact
  exact fun r hr => ready_upTo (Triple.of_ok (hgate hop) rfl hrun r hr)

/-- What turns a signal away is right about it. -/
theorem Performs.unready {operations : (β : Type) → Build β → Prop} {act : Run α}
    {taken all : List Signal} (h : Performs w operations act)
    (hgate : ∀ {β op s}, operations β op → Gate taken all s op) {ty : Ty} {why : Unfit}
    {w' : World} (hact : act w = .error (.fault (.notSynthesizable ty why)) w') :
    ∃ s ∈ all, w.session.Unready s why ∧ s.ty = ty := by
  obtain ⟨β, op, next, s, hop, hrun, -⟩ := h.of_error rfl hact _ rfl
  obtain ⟨r, hr, hunready, hty⟩ := Triple.of_error (hgate hop) rfl hrun ty why rfl
  exact ⟨r, hr, unready_upTo hunready, hty⟩

end Circuitry.Script
