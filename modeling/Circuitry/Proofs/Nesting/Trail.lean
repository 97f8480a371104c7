/-
  Guards read off the command stream.

  The guards of a command are found in the nesting of the stream.  They can also be found by going
  through the stream from the front, with nothing in hand but the guards of the regions that are open
  and the predicate of the clause that was closed last.  `Scan.trail` lists the commands that mark no
  region with the guards found in this way, and `trail_ofCommands` says that they are those of the
  nesting.

  The trail does not mention positions, so it can be compared between streams of which one is a part of
  the other.
-/
import Circuitry.Proofs.Nesting.Arms
import Circuitry.Proofs.Nesting.Visits

namespace Circuitry

/-- What is known when going through a stream. -/
structure Scan where
  /-- The guards of the open regions, innermost first. -/
  opened : List Guard
  /-- The predicate of the clause that was closed last. -/
  closed : Option Operand

namespace Scan

/-- Nothing open yet. -/
def start : Scan := ⟨[], none⟩

/-- Past one more command. -/
def step (s : Scan) : Command → Scan
  | .whenBegin pred _ => { s with opened := ⟨pred, true⟩ :: s.opened }
  | .whenEnd _ => ⟨s.opened.tail, s.opened.head?.map (·.pred)⟩
  | .altBegin _ => { s with opened := (s.closed.map (⟨·, false⟩)).toList ++ s.opened }
  | .otherwiseEnd depth => { s with opened := s.opened.drop depth.toNat }
  | _ => s

/-- The commands that mark no region, with their guards. -/
def trail (s : Scan) : List Command → List (Command × List Guard)
  | [] => []
  | cmd :: rest =>
    (if cmd.isControl then [] else [(cmd, s.opened.reverse)]) ++ (s.step cmd).trail rest

theorem step_plain (s : Scan) {cmd : Command} (h : cmd.isControl = false) : s.step cmd = s := by
  cases cmd with
  | whenBegin _ _ | whenEnd _ | altBegin _ | otherwiseEnd _ => cases h
  | _ => rfl

end Scan

namespace Region

/-- What a region asks of its predicate. -/
def Opened.guard : Opened → Guard
  | .thenRegion pred _ _ => ⟨pred, true⟩
  | .elseRegion c _ => ⟨c.pred, false⟩

/-- What has been listed of a clause that is closed. -/
def Clause.guardedBelow (path : List Guard) (c : Clause) : List (Nat × List Guard) :=
  c.body.guardedBelow (path ++ [⟨c.pred, true⟩])

/-- What has been listed of a region before the block inside it. -/
def Opened.guardedBelow (path : List Guard) : Opened → List (Nat × List Guard)
  | .thenRegion _ _ _ => []
  | .elseRegion c _ => c.guardedBelow path

namespace Reader

/-- The guards of open regions, outermost first. -/
def path (stack : List (Opened × Block)) : List Guard := (stack.map (·.1.guard)).reverse

/-- What has been listed around the present block. -/
def stackGuarded : List (Opened × Block) → List (Nat × List Guard)
  | [] => []
  | (opened, outer) :: stack =>
    stackGuarded stack ++ (outer.guardedBelow (path stack) ++ opened.guardedBelow (path stack))

/-- What the reader has listed so far. -/
def guarded (r : Reader) : List (Nat × List Guard) :=
  stackGuarded r.stack ++ (r.block.guardedBelow (path r.stack) ++
    (r.closed.map (Clause.guardedBelow (path r.stack))).getD [])

theorem path_cons (opened : Opened) (outer : Block) (stack : List (Opened × Block)) :
    path ((opened, outer) :: stack) = path stack ++ [opened.guard] := by
  simp [path]

@[simp] theorem guarded_settle (r : Reader) : r.settle.guarded = r.guarded := by
  unfold settle
  split
  · rfl
  · next c hc => simp [guarded, hc, Clause.guardedBelow, Block.guardedBelow]

/-- A settled reader has listed its stack and its block. -/
theorem guarded_of_settle (r : Reader) : r.guarded =
    stackGuarded r.settle.stack ++ r.settle.block.guardedBelow (path r.settle.stack) := by
  rw [← guarded_settle, guarded, settle_closed]
  simp

theorem guarded_enter (r : Reader) (opened : Opened) : (r.enter opened).guarded =
    stackGuarded r.stack ++
      (r.block.guardedBelow (path r.stack) ++ opened.guardedBelow (path r.stack)) := by
  simp [enter, guarded, stackGuarded, Block.guardedBelow]

/-- Closing else-regions only moves what has been listed, and closes as many regions as it says. -/
theorem guarded_closes {n : Nat} {r q : Reader} (hclosed : r.closed = none) (h : Closes n r q) :
    q.guarded = r.guarded ∧ q.closed = none ∧ q.stack = r.stack.drop n := by
  induction h with
  | none r => exact ⟨rfl, hclosed, rfl⟩
  | next innermost rest ih =>
    obtain rfl := hclosed
    obtain ⟨hguarded, hnone, hstack⟩ := ih rfl
    refine ⟨?_, hnone, by rw [hstack, List.drop_succ_cons]⟩
    rw [hguarded]
    simp [guarded, stackGuarded, path_cons, Opened.guard, Opened.guardedBelow,
      Clause.guardedBelow, Block.guardedBelow]

/-- The reader has the same regions open, and the clause that it may still give an else-part is the one
    closed last. -/
structure Follows (r : Reader) (s : Scan) : Prop where
  opened : s.opened = r.stack.map (·.1.guard)
  closed : ∀ c, r.closed = some c → s.closed = some c.pred

theorem Follows.path_eq {r : Reader} {s : Scan} (h : r.Follows s) :
    path r.stack = s.opened.reverse := by
  rw [h.opened, path]

/-- **One step.**  The reader lists a command that marks no region, with the guards in hand. -/
theorem guarded_step {r r' : Reader} {i : Nat} {cmd : Command} {s : Scan} (hs : r.Follows s)
    (h : r.step i cmd = .ok r') : r'.Follows (s.step cmd) ∧
      r'.guarded = r.guarded ++ (if cmd.isControl then [] else [(i, s.opened.reverse)]) := by
  cases step_iff.1 h with
  | plain plain =>
    have hpath := hs.path_eq
    refine ⟨⟨?_, fun c hc => by cases hc⟩, ?_⟩
    · rw [s.step_plain plain, hs.opened, grow_stack, stack_settle]
    · rw [guarded_of_settle r, stack_settle, hpath, plain]
      simp [grow, guarded, stack_settle, hpath, Block.guardedBelow]
  | whenBegin _ =>
    refine ⟨⟨?_, fun c hc => by cases hc⟩, ?_⟩
    · simp [Scan.step, hs.opened, enter, stack_settle, Opened.guard]
    · rw [guarded_enter, guarded_of_settle r]
      simp [Opened.guardedBelow, Command.isControl]
  | whenEnd innermost =>
    -- the region that ends becomes the clause that an else-part may follow
    have hopened := hs.opened
    rw [← stack_settle, innermost] at hopened
    refine ⟨⟨?_, ?_⟩, ?_⟩
    · simp [Scan.step, hopened]
    · rintro c ⟨⟩
      simp [Scan.step, hopened, Opened.guard]
    · rw [guarded_of_settle r, innermost]
      simp [guarded, stackGuarded, path_cons, Opened.guard, Opened.guardedBelow,
        Clause.guardedBelow, Command.isControl]
  | @altBegin c _ follows _ =>
    refine ⟨⟨?_, fun c hc => by cases hc⟩, ?_⟩
    · -- the else-part asks the opposite of the clause that was closed last
      simp [Scan.step, hs.opened, hs.closed c follows, enter, Opened.guard]
    · rw [guarded_enter]
      simp [guarded, follows, Opened.guardedBelow, Command.isControl]
  | otherwiseEnd _ closes =>
    obtain ⟨hguarded, hnone, hstack⟩ := guarded_closes r.settle_closed closes
    refine ⟨⟨?_, fun c hc => ?_⟩, ?_⟩
    · simp [Scan.step, hs.opened, hstack, stack_settle]
    · rw [hnone] at hc
      cases hc
    · rw [hguarded, guarded_settle]
      simp [Command.isControl]

/-- What a reader lists on the way through a stream, by the commands themselves. -/
theorem guarded_run {all : List Command} {r r' : Reader} {i : Nat} {cs : List Command} {s : Scan}
    (hs : r.Follows s) (hall : ∀ k, all[i + k]? = cs[k]?) (h : r.run i cs = .ok r') :
    r'.guarded.filterMap (fun e => all[e.1]?.map (·, e.2)) =
      r.guarded.filterMap (fun e => all[e.1]?.map (·, e.2)) ++ s.trail cs := by
  induction cs generalizing r s i with
  | nil =>
    obtain rfl := Except.ok.inj h
    simp [Scan.trail]
  | cons cmd rest ih =>
    obtain ⟨r₁, hstep, hrun⟩ := run_cons_eq_ok.1 h
    obtain ⟨hs₁, hguarded⟩ := guarded_step hs hstep
    have hrest : ∀ k, all[i + 1 + k]? = rest[k]? := by
      intro k
      have hk := hall (k + 1)
      rw [List.getElem?_cons_succ] at hk
      rw [← hk]
      congr 1
      omega
    have hhead : all[i]? = some cmd := by simpa using hall 0
    rw [ih hs₁ hrest hrun, hguarded, Scan.trail, List.filterMap_append, List.append_assoc]
    congr 2
    cases cmd.isControl <;> simp [hhead]

/-- The block that a reader ends with lists what the reader has listed. -/
theorem guarded_end {r : Reader} (hstack : r.stack = []) : r.settle.block.guarded = r.guarded := by
  rw [guarded_of_settle, stack_settle, hstack]
  rfl

end Reader

end Region

/-- **Guards from the stream.**  The guards of the nesting are those found by going through the
    stream. -/
theorem Block.trail_ofCommands {cs : List Command} {b : Block} (h : ofCommands cs = .ok b) :
    b.guarded.filterMap (fun e => cs[e.1]?.map (·, e.2)) = Scan.start.trail cs := by
  obtain ⟨r, hrun, hstack, rfl⟩ := ofCommands_eq_ok.1 h
  have hstart : Region.Reader.start.Follows Scan.start := ⟨rfl, fun _ h => by cases h⟩
  have htrail := Region.Reader.guarded_run hstart (fun k => by rw [Nat.zero_add]) hrun
  rw [← Region.Reader.guarded_end hstack] at htrail
  simpa [Region.Reader.stackGuarded, Region.Reader.guarded, Region.Reader.start,
    Block.guardedBelow] using htrail

end Circuitry
