/-
  A nesting visits every command once, in stream order.

  `Block.visits` lists what a walk through a block comes by: the commands it holds, and the beginning
  of each clause with its predicate.  When a stream can be read at all, these are the commands of the
  stream that mark no region and those that begin a clause, at their positions, in order
  (`visits_ofCommands`).

  The reader is followed command by command: what it has come by so far is spread over the blocks on
  its stack, the regions that these are interrupted by, the present block, and the clause just closed
  (`Reader.visits`).
-/
import Circuitry.Proofs.Nesting.Reader

namespace Circuitry

/-- What a walk comes by: a position, with the predicate if a clause begins there. -/
abbrev Visit := Nat × Option Operand

namespace Block

/-- What a walk through a block comes by. -/
def visits : Block → List Visit
  | .empty => []
  | .command i rest => (i, none) :: rest.visits
  | .clause p i body rest => (i, some p) :: (body.visits ++ rest.visits)
  | .clauseElse p i body alternative rest =>
    (i, some p) :: (body.visits ++ (alternative.visits ++ rest.visits))

@[simp] theorem visits_append (a b : Block) : (a ++ b).visits = a.visits ++ b.visits := by
  induction a with
  | empty => rfl
  | command i rest ih => simp [visits, ih]
  | clause p i body rest _ ih => simp [visits, ih]
  | clauseElse p i body alternative rest _ _ ih => simp [visits, ih]

/-- The commands that are listed with guards are those that are visited. -/
theorem map_guardedBelow (b : Block) : ∀ path : List Guard,
    (b.guardedBelow path).map (·.1) = (b.visits.filter (·.2.isNone)).map (·.1) := by
  induction b with
  | empty => intro; rfl
  | command i rest ih => intro path; simp [guardedBelow, visits, ih]
  | clause p i body rest ihb ih => intro path; simp [guardedBelow, visits, ihb, ih]
  | clauseElse p i body alternative rest ihb iha ih =>
    intro path
    simp [guardedBelow, visits, ihb, iha, ih]

end Block

/-- What there is to visit in one command. -/
def Command.visit (i : Nat) : Command → List Visit
  | .whenBegin pred _ => [(i, some pred)]
  | .whenEnd _ | .altBegin _ | .otherwiseEnd _ => []
  | _ => [(i, none)]

/-- What there is to visit in a stream whose first command is at position `i`. -/
def streamVisits (i : Nat) : List Command → List Visit
  | [] => []
  | cmd :: rest => cmd.visit i ++ streamVisits (i + 1) rest

theorem visit_plain (i : Nat) {cmd : Command} (h : cmd.isControl = false) :
    cmd.visit i = [(i, none)] := by
  cases cmd with
  | whenBegin _ _ | whenEnd _ | altBegin _ | otherwiseEnd _ => cases h
  | _ => rfl

/-! ## Positions -/

theorem fst_of_mem_visit {i : Nat} {cmd : Command} {v : Visit} (h : v ∈ cmd.visit i) : v.1 = i := by
  cases cmd <;> simp_all [Command.visit]

theorem le_of_mem_streamVisits {v : Visit} : ∀ {cs : List Command} {i : Nat},
    v ∈ streamVisits i cs → i ≤ v.1
  | cmd :: rest, i, h => by
    rcases List.mem_append.1 h with h | h
    · exact Nat.le_of_eq (fst_of_mem_visit h).symm
    · have := le_of_mem_streamVisits h
      omega

/-- Positions increase. -/
theorem pairwise_streamVisits : ∀ (cs : List Command) (i : Nat),
    (streamVisits i cs).Pairwise (·.1 < ·.1)
  | [], _ => .nil
  | cmd :: rest, i => by
    refine List.pairwise_append.2 ⟨?_, pairwise_streamVisits rest (i + 1), ?_⟩
    · cases cmd <;> simp [Command.visit]
    · intro a ha b hb
      have hle := le_of_mem_streamVisits hb
      rw [fst_of_mem_visit ha]
      omega

/-- What is visited at a position is the command there. -/
theorem mem_streamVisits {v : Visit} : ∀ {cs : List Command} {i : Nat},
    v ∈ streamVisits i cs ↔
      ∃ (k : Nat) (cmd : Command), cs[k]? = some cmd ∧ v ∈ cmd.visit (i + k)
  | [], i => by simp [streamVisits]
  | cmd :: rest, i => by
    rw [streamVisits, List.mem_append, mem_streamVisits]
    constructor
    · rintro (h | ⟨k, cmd', hk, h⟩)
      · exact ⟨0, cmd, rfl, h⟩
      · refine ⟨k + 1, cmd', hk, ?_⟩
        rw [show i + (k + 1) = i + 1 + k by omega]
        exact h
    · rintro ⟨k, cmd', hk, h⟩
      rcases k with _ | k
      · obtain rfl : cmd = cmd' := by simpa using hk
        exact .inl h
      · refine .inr ⟨k, cmd', by simpa using hk, ?_⟩
        rw [show i + 1 + k = i + (k + 1) by omega]
        exact h

/-! ## The reader -/

namespace Region

/-- What has been visited in a clause that is closed. -/
def Clause.visits (c : Clause) : List Visit := (c.begun, some c.pred) :: c.body.visits

/-- What has been visited of a region before the block inside it. -/
def Opened.visits : Opened → List Visit
  | .thenRegion pred begun _ => [(begun, some pred)]
  | .elseRegion c _ => c.visits

namespace Reader

/-- What has been visited around the present block, from a stack. -/
def stackVisits : List (Opened × Block) → List Visit
  | [] => []
  | (opened, outer) :: stack => stackVisits stack ++ (outer.visits ++ opened.visits)

/-- What the reader has come by. -/
def visits (r : Reader) : List Visit :=
  stackVisits r.stack ++ (r.block.visits ++ (r.closed.map Clause.visits).getD [])

@[simp] theorem visits_settle (r : Reader) : r.settle.visits = r.visits := by
  unfold settle
  split
  · rfl
  · next c hc => simp [visits, hc, Clause.visits, Block.visits]

/-- A settled reader has come by its stack and its block. -/
theorem visits_of_settle (r : Reader) :
    r.visits = stackVisits r.settle.stack ++ r.settle.block.visits := by
  rw [← visits_settle, visits, settle_closed]
  simp

theorem visits_enter (r : Reader) (opened : Opened) :
    (r.enter opened).visits = stackVisits r.stack ++ (r.block.visits ++ opened.visits) := by
  simp [enter, visits, stackVisits, Block.visits]

/-- Closing else-regions only moves what has been visited. -/
theorem visits_closes {n : Nat} {r q : Reader} (hclosed : r.closed = none) (h : Closes n r q) :
    q.visits = r.visits := by
  induction h with
  | none r => rfl
  | next innermost rest ih =>
    obtain rfl := hclosed
    rw [ih rfl]
    simp [visits, stackVisits, Opened.visits, Clause.visits, Block.visits]

/-- **One step.**  A reader comes by what there is to visit in the command. -/
theorem visits_step {r r' : Reader} {i : Nat} {cmd : Command} (h : r.step i cmd = .ok r') :
    r'.visits = r.visits ++ cmd.visit i := by
  cases step_iff.1 h with
  | plain plain =>
    rw [visits_of_settle r, visit_plain i plain]
    simp [grow, visits, Block.visits]
  | whenBegin _ =>
    rw [visits_enter, visits_of_settle r]
    simp [Opened.visits, Command.visit]
  | whenEnd innermost =>
    rw [visits_of_settle r, innermost]
    simp [visits, stackVisits, Opened.visits, Clause.visits, Command.visit]
  | altBegin follows _ =>
    rw [visits_enter]
    simp [visits, follows, Opened.visits, Command.visit]
  | otherwiseEnd _ closes =>
    rw [visits_closes r.settle_closed closes, visits_settle]
    simp [Command.visit]

theorem visits_run {r r' : Reader} {i : Nat} {cs : List Command} (h : r.run i cs = .ok r') :
    r'.visits = r.visits ++ streamVisits i cs := by
  induction cs generalizing r i with
  | nil =>
    obtain rfl := Except.ok.inj h
    simp [streamVisits]
  | cons cmd rest ih =>
    obtain ⟨r₁, hstep, hrest⟩ := run_cons_eq_ok.1 h
    rw [ih hrest, visits_step hstep, streamVisits, List.append_assoc]

end Reader

end Region

/-- **All commands, in order.**  The nesting of a stream visits what there is to visit in the stream. -/
theorem Block.visits_ofCommands {cs : List Command} {b : Block} (h : ofCommands cs = .ok b) :
    b.visits = streamVisits 0 cs := by
  obtain ⟨r, hrun, hstack, rfl⟩ := ofCommands_eq_ok.1 h
  have hvisits := Region.Reader.visits_run hrun
  rw [Region.Reader.visits_of_settle, Region.Reader.stack_settle, hstack] at hvisits
  simpa [Region.Reader.stackVisits, Region.Reader.visits, Region.Reader.start, Block.visits]
    using hvisits

end Circuitry
