/-
  A chain that fails halfway is never forgotten.

  A clause that fails after its `WhenBegin`, or a later part of a chain that fails after its
  `AltBegin`, leaves regions open, and the description may pass over the failure and go on.  Depths
  repeat, so the closing commands of a chain around it may well close what was left open.  That a
  circuit never comes of it is a matter of counting: a command weighs as many regions as it opens,
  less those it closes.

  1. A stream that can be read at all weighs nothing (`balance_eq_zero`): the reader has as many
     regions open as the commands it has read weigh.
  2. No run of a script makes its stream lighter (`steady_run`), whatever fails in it: a part of a
     chain opens before it closes, and a chain that has gone through `d` clauses has opened the
     `d - 1` else-regions that it closes at its end.
  3. If a part of some chain fails after its first command, the run makes the stream heavier
     (`leaves_of_breaks`).  What was opened there is not closed by that part, and nothing else can
     make up for it, by 2.

  So the stream of such a description is refused, and the description ends in a failure
  (`broken_refused`).
-/
import Circuitry.Proofs.Nesting.Written

namespace Circuitry

/-! ## Weights -/

/-- How many regions a command opens, less those it closes. -/
def Command.weight : Command → Int
  | .whenBegin _ _ | .altBegin _ => 1
  | .whenEnd _ => -1
  | .otherwiseEnd depth => -depth.toNat
  | _ => 0

theorem Command.weight_plain {cmd : Command} (h : cmd.isControl = false) : cmd.weight = 0 := by
  cases cmd with
  | whenBegin _ _ | whenEnd _ | altBegin _ | otherwiseEnd _ => cases h
  | _ => rfl

/-- How many regions a stream opens, less those it closes. -/
def balance : List Command → Int
  | [] => 0
  | cmd :: cs => cmd.weight + balance cs

@[simp] theorem balance_append (xs ys : List Command) :
    balance (xs ++ ys) = balance xs + balance ys := by
  induction xs with
  | nil => simp [balance]
  | cons cmd xs ih =>
    rw [List.cons_append, balance, balance, ih]
    omega

@[simp] theorem balance_singleton (cmd : Command) : balance [cmd] = cmd.weight := by
  simp [balance]

theorem balance_plain {cs : List Command} (h : ∀ c ∈ cs, c.isControl = false) : balance cs = 0 := by
  induction cs with
  | nil => rfl
  | cons cmd cs ih =>
    rw [balance, Command.weight_plain (h cmd (List.mem_cons_self ..)),
      ih fun c hc => h c (List.mem_cons_of_mem cmd hc)]
    rfl

/-! ## Streams that can be read -/

namespace Region.Reader

theorem length_closes {n : Nat} {r q : Reader} (h : Closes n r q) :
    q.stack.length + n = r.stack.length := by
  induction h with
  | none r => rfl
  | next innermost rest ih =>
    rw [List.length_cons, ← ih]
    omega

/-- One command changes the number of open regions by its weight. -/
theorem length_step {r r' : Reader} {i : Nat} {cmd : Command} (h : r.step i cmd = .ok r') :
    (r'.stack.length : Int) = r.stack.length + cmd.weight := by
  -- settling the reader leaves its stack alone, so only what the command itself does counts
  cases step_iff.1 h with
  | plain plain => simp [stack_settle, Command.weight_plain plain]
  | whenBegin _ => simp [enter, stack_settle, Command.weight]
  | whenEnd innermost =>
    rw [stack_settle] at innermost
    rw [innermost, List.length_cons]
    simp only [Command.weight]
    omega
  | altBegin _ _ => simp [enter, Command.weight]
  | otherwiseEnd _ closes =>
    have hlen := length_closes closes
    rw [stack_settle] at hlen
    simp only [Command.weight]
    omega

theorem length_run {r r' : Reader} {i : Nat} {cs : List Command} (h : r.run i cs = .ok r') :
    (r'.stack.length : Int) = r.stack.length + balance cs := by
  induction cs generalizing r i with
  | nil =>
    obtain rfl := Except.ok.inj h
    simp [balance]
  | cons cmd cs ih =>
    obtain ⟨r₁, hstep, hrun⟩ := run_cons_eq_ok.1 h
    have hone := length_step hstep
    have hrest := ih hrun
    rw [balance]
    omega

end Region.Reader

/-- **A stream that can be read weighs nothing.** -/
theorem Block.balance_eq_zero {cs : List Command} {b : Block} (h : ofCommands cs = .ok b) :
    balance cs = 0 := by
  obtain ⟨r, hrun, hstack, -⟩ := ofCommands_eq_ok.1 h
  have hlen := Region.Reader.length_run hrun
  simp [hstack, Region.Reader.start] at hlen
  omega

namespace Script

open Draft (Session)

/-! ## Runs never make the stream lighter -/

/-- The stream weighs at least `n`. -/
def Weighs (n : Int) (w : Session) : Prop := n ≤ balance w.draft.commands

/-- However the action ends, the stream then weighs at least `n`. -/
abbrev Leaves {α : Type} (pre : World → Prop) (act : Run α) (n : Int) : Prop :=
  Triple pre act (fun _ w => Weighs n w.session) (fun _ w => Weighs n w.session)

/-- The action never makes the stream lighter. -/
abbrev Steady {α : Type} (act : Run α) : Prop :=
  ∀ n, Leaves (fun w => Weighs n w.session) act n

theorem Weighs.mono {m n : Int} {w : Session} (h : Weighs n w) (hmn : m ≤ n) : Weighs m w :=
  Int.le_trans hmn h

theorem Weighs.emitted {n : Int} {w : Session} (h : Weighs n w) (cmd : Command) :
    Weighs (n + cmd.weight) (w.emitted cmd) := by
  show n + cmd.weight ≤ balance (w.draft.commands ++ [cmd])
  rw [balance_append, balance_singleton]
  exact Int.add_le_add_right h cmd.weight

/-- With an `AltBegin`, the next else-region of the chain is open. -/
theorem weighs_altBegin {n : Int} {depth : UInt32} {w : World}
    (h : Weighs (n + (depth.toNat - 1 : Nat)) w.session) :
    Weighs (n + (depth.toNat - 1 : Nat) + 1) (w.emitted (.altBegin depth)).session :=
  h.emitted _

theorem toNat_succ_le (depth : UInt32) : (depth + 1).toNat ≤ depth.toNat + 1 := by
  rw [UInt32.toNat_add]
  exact Nat.mod_le _ _

theorem Leaves.mono {α : Type} {pre : World → Prop} {act : Run α} {m n : Int}
    (h : Leaves pre act n) (hmn : m ≤ n) : Leaves pre act m :=
  h.conseq (fun _ => id) (fun _ _ hw => hw.mono hmn) (fun _ _ hw => hw.mono hmn)

theorem closed_weighs (n : Int) : Draft.Closed (Weighs n) := by
  intro L made w w' hstep hw
  obtain ⟨cmds, hplain, hcommands⟩ := hstep.commands
  show n ≤ balance w'.draft.commands
  rw [hcommands, balance_append, balance_plain hplain, Int.add_zero]
  exact hw

/-- What keeps the weight at all its places is steady. -/
theorem steady_of_keeps {α : Type} {act : Run α} (h : ∀ n, RunKeeps (fun _ => Weighs n) act) :
    Steady act :=
  fun n => (h n).relax fun _ _ he => he.2

theorem leaves_emit {pre : World → Prop} {m n : Int} (cmd : Command)
    (hpre : ∀ w, pre w → Weighs m w.session) (hn : n ≤ m + cmd.weight) :
    Leaves pre (liftBuild (Draft.emit cmd)) n :=
  fun w hw => ((hpre w hw).emitted cmd).mono hn

theorem steady_operand (s : Signal) : Steady (liftBuild (Draft.operand s)) :=
  steady_of_keeps fun _ => keeps_lift fun _ => (Draft.operand_reads s).weaken fun _ _ hw => hw.2

/-- The steps of a chain. -/
def wholeChain (cond : Script) (pred : String) (body : Script) (tail : Tail) :
    Run (Answer × Option Draft.Bundle) := do
  let c ← Draft.Chain.start (do cond.run; boolean pred) body.run
  note (.clause c.depth)
  runTail c tail
  answerOnly .nothing

section Parts

variable {pre mid : World → Prop} {n : Int}

/-- A clause leaves no less than its condition. -/
theorem leaves_clause {cond : Run Signal} {body : Run Unit} (depth : UInt32)
    (hcond : Leaves pre cond n) (hbody : Steady body) :
    Leaves pre (Draft.Chain.clause depth cond body) n := by
  unfold Draft.Chain.clause
  refine .bind hcond fun s => .bind (steady_operand s n) fun p => ?_
  have hopened : Leaves (fun w => Weighs n w.session)
      (liftBuild (Draft.emit (.whenBegin p depth))) (n + 1) :=
    leaves_emit _ (fun _ => id) (Int.le_refl _)
  refine .bind (hopened.relax fun _ _ hw => hw.mono (by omega)) fun _ => ?_
  refine .bind ((hbody (n + 1)).relax fun _ _ hw => hw.mono (by omega)) fun _ => ?_
  refine leaves_emit (.whenEnd depth) (fun _ => id) ?_
  simp only [Command.weight]
  omega

/-- A later clause leaves no less than what follows its `AltBegin`, and the chain has one clause
    more. -/
theorem leaves_elseWhen {cond : Run Signal} {body : Run Unit} (c : Draft.Chain)
    (halt : ∀ w, pre w → mid (w.emitted (.altBegin c.depth)))
    (hclause : Leaves mid (Draft.Chain.clause c.depth cond body) n) :
    Triple pre (c.elseWhen cond body) (fun c' w => c' = ⟨c.depth + 1⟩ ∧ Weighs n w.session)
      (fun _ w => Weighs n w.session) := by
  unfold Draft.Chain.elseWhen
  have hopen : Triple pre (liftBuild (Draft.emit (.altBegin c.depth))) (fun _ => mid)
      (fun _ w => Weighs n w.session) := halt
  refine .bind hopen fun _ => ?_
  exact .bind hclause fun _ => .ret fun w hw => ⟨rfl, hw⟩

/-- What is done otherwise has to outweigh the else-regions that are closed behind it. -/
theorem leaves_otherwise {body : Run Unit} (c : Draft.Chain)
    (halt : ∀ w, pre w → mid (w.emitted (.altBegin c.depth)))
    (hbody : Leaves mid body (n + c.depth.toNat)) : Leaves pre (c.otherwise body) n := by
  unfold Draft.Chain.otherwise
  have hopen : Triple pre (liftBuild (Draft.emit (.altBegin c.depth))) (fun _ => mid)
      (fun _ w => Weighs n w.session) := halt
  refine .bind hopen fun _ => ?_
  refine .bind (hbody.relax fun _ _ hw => hw.mono (by omega)) fun _ => ?_
  refine leaves_emit (.otherwiseEnd c.depth) (fun _ => id) ?_
  simp only [Command.weight]
  omega

theorem steady_close (c : Draft.Chain) :
    Leaves (fun w => Weighs (n + (c.depth.toNat - 1 : Nat)) w.session) (liftBuild c.close) n := by
  intro w hw
  rw [close_eq]
  show Weighs n (w.closed c.depth).session
  unfold World.closed
  split
  · next h =>
    have hsub : (c.depth - 1).toNat = c.depth.toNat - 1 :=
      UInt32.toNat_sub_of_le _ _ (UInt32.le_of_lt h)
    refine (hw.emitted (.otherwiseEnd (c.depth - 1))).mono ?_
    simp only [Command.weight, hsub]
    omega
  · exact hw.mono (by omega)

/-- What follows a clause is taken apart at its next clause. -/
theorem leaves_runTail {cond body : Script} {pred : String} {tail : Tail} (c : Draft.Chain)
    (halt : ∀ w, pre w → mid (w.emitted (.altBegin c.depth)))
    (hclause : Leaves mid (Draft.Chain.clause c.depth (do cond.run; boolean pred) body.run)
      (n + c.depth.toNat))
    (htail : ∀ d m, Leaves (fun w => Weighs (m + (d.depth.toNat - 1 : Nat)) w.session)
      (runTail d tail) m) :
    Leaves pre (runTail c (.elseWhen cond pred body tail)) n := by
  have hsucc := toNat_succ_le c.depth
  refine .bind ((leaves_elseWhen c halt hclause).relax fun _ _ hw => hw.mono (by omega)) ?_
  rintro d
  refine .of_fact ?_
  rintro rfl
  refine .bind (.change fun w hw => ?_) fun _ => htail ⟨c.depth + 1⟩ n
  exact hw.mono (by dsimp only; omega)

/-- A chain leaves no less than its first clause. -/
theorem leaves_wholeChain {cond body : Script} {pred : String} {tail : Tail}
    (hclause : Leaves pre (Draft.Chain.clause 0 (do cond.run; boolean pred) body.run) n)
    (htail : ∀ d m, Leaves (fun w => Weighs (m + (d.depth.toNat - 1 : Nat)) w.session)
      (runTail d tail) m) :
    Leaves pre (wholeChain cond pred body tail) n := by
  have hstart : Triple pre (Draft.Chain.start (do cond.run; boolean pred) body.run)
      (fun c w => c = ⟨1⟩ ∧ Weighs n w.session) (fun _ w => Weighs n w.session) := by
    unfold Draft.Chain.start
    exact .bind hclause fun _ => .ret fun w hw => ⟨rfl, hw⟩
  refine .bind hstart fun c => .of_fact ?_
  rintro rfl
  have hnote : Leaves (fun w => Weighs n w.session) (note (.clause 1)) n := fun w hw => hw
  refine .bind hnote fun _ => ?_
  refine .bind ((htail ⟨1⟩ n).strengthen fun w hw => hw.mono (Int.le_of_eq (Int.add_zero n)))
    fun _ => .ret fun _ => id

/-- Whatever the step does with the ending of its action, it leaves the stream as it is. -/
theorem leaves_perform (step : Step) {act : Run (Answer × Option Draft.Bundle)}
    (hact : Leaves pre act n) : Leaves pre (step.perform act) n := by
  intro w hw
  have hend := hact w hw
  unfold Step.perform
  cases hr : act w with
  | ok r w' =>
    rw [hr] at hend
    show Weighs n (w'.keep step.bindAs r.2).session
    rw [session_keep]
    exact hend
  | error e w' =>
    rw [hr] at hend
    cases e with
    | nonsense | overflow => exact hend
    | fault f =>
      cases ha : step.attempt with
      | true => simpa [ha] using hend
      | false => simpa [ha] using hend

end Parts

theorem steady_meaning (use : Call) : Steady (meaning use) :=
  steady_of_keeps fun n => makes_meaning (closed_weighs n).stable use

theorem steady_condition {cond : Run Unit} (hcond : Steady cond) (pred : String) :
    Steady (do cond; boolean pred) :=
  fun n => .bind (hcond n) fun _ => steady_of_keeps (fun _ => keeps_boolean pred) n

mutual

/-- **No run makes its stream lighter.** -/
theorem steady_run : ∀ s : Script, Steady s.run
  | .done, _ => .ret fun _ => id
  | .call step use rest, n =>
    .bind (leaves_perform step (steady_meaning use n)) fun _ => steady_run rest n
  | .chain step cond pred body tail rest, n => by
    have hclause := leaves_clause 0 (steady_condition (steady_run cond) pred n) (steady_run body)
    refine .bind (leaves_perform step ?_) fun _ => steady_run rest n
    exact leaves_wholeChain hclause (steady_runTail tail)
  | .branch next, n => .look_bind fun w => (steady_run (next w) n).strengthen fun _ hw => hw.2

/-- What follows the clauses of a chain takes back no more than their else-regions. -/
theorem steady_runTail : ∀ (t : Tail) (c : Draft.Chain) (n : Int),
    Leaves (fun w => Weighs (n + (c.depth.toNat - 1 : Nat)) w.session) (runTail c t) n
  | .close, c, _ => steady_close c
  | .elseWhen cond pred body tail, c, n => by
    have hclause := leaves_clause c.depth
      (steady_condition (steady_run cond) pred (n + c.depth.toNat)) (steady_run body)
    exact leaves_runTail c (fun w hw => (weighs_altBegin hw).mono (by omega)) hclause
      (steady_runTail tail)
  | .otherwise body, c, n => by
    exact leaves_otherwise c (fun w hw => (weighs_altBegin hw).mono (by omega))
      (steady_run body (n + c.depth.toNat))
  | .branch next, c, n =>
    .look_bind fun w => (steady_runTail (next w) c n).strengthen fun _ hw => hw.2

end

theorem steady_clause (depth : UInt32) (cond : Script) (pred : String) (body : Script) :
    Steady (Draft.Chain.clause depth (do cond.run; boolean pred) body.run) :=
  fun n => leaves_clause depth (steady_condition (steady_run cond) pred n) (steady_run body)

/-! ## Chains that fail halfway -/

/-- What is run at a place: a script, a clause with `depth` clauses before it, or what follows `depth`
    clauses of a chain. -/
inductive Passage where
  | script (s : Script)
  | clause (depth : UInt32) (cond : Script) (pred : String) (body : Script)
  | tail (depth : UInt32) (t : Tail)

namespace Passage

def run : Passage → Run Unit
  | .script s => s.run
  | .clause depth cond pred body =>
    Draft.Chain.clause depth (do cond.run; boolean pred) body.run
  | .tail depth t => runTail ⟨depth⟩ t

/-- How many regions opened before it are closed at its end. -/
def closing : Passage → Nat
  | .tail depth _ => depth.toNat - 1
  | _ => 0

end Passage

/-- In the run of the passage from `w`, a clause fails that has emitted its `WhenBegin`, or a later part of a
    chain that has emitted its `AltBegin`. -/
inductive Breaks : Passage → World → Prop
  /-- Behind a call. -/
  | call {step : Step} {use : Call} {rest : Script} {w w' : World}
      (run : step.perform (meaning use) w = .ok () w') (after : Breaks (.script rest) w') :
      Breaks (.script (.call step use rest)) w
  /-- Behind a chain, whether it went through or its failure was passed over. -/
  | chain {step : Step} {cond body rest : Script} {pred : String} {tail : Tail} {w w' : World}
      (run : step.perform (wholeChain cond pred body tail) w = .ok () w')
      (after : Breaks (.script rest) w') : Breaks (.script (.chain step cond pred body tail rest)) w
  | first {step : Step} {cond body rest : Script} {pred : String} {tail : Tail} {w : World}
      (inside : Breaks (.clause 0 cond pred body) w) :
      Breaks (.script (.chain step cond pred body tail rest)) w
  | tail {step : Step} {cond body rest : Script} {pred : String} {tail : Tail} {w w' : World}
      (clause : (Passage.clause 0 cond pred body).run w = .ok () w')
      (inside : Breaks (.tail 1 tail) (w'.noted (.clause 1))) :
      Breaks (.script (.chain step cond pred body tail rest)) w
  | branch {next : World → Script} {w : World} (taken : Breaks (.script (next w)) w) :
      Breaks (.script (.branch next)) w
  | condition {depth : UInt32} {cond body : Script} {pred : String} {w : World}
      (inside : Breaks (.script cond) w) : Breaks (.clause depth cond pred body) w
  | body {depth : UInt32} {cond body : Script} {pred : String} {w w' : World} {p : Operand}
      (condition : cond.run w = .ok () w') (holds : predicate pred w' = .ok p w')
      (inside : Breaks (.script body) (w'.emitted (.whenBegin p depth))) :
      Breaks (.clause depth cond pred body) w
  /-- The body of the clause fails. -/
  | clauseFails {depth : UInt32} {cond body : Script} {pred : String} {w w' end' : World}
      {p : Operand} {e : Stop} (condition : cond.run w = .ok () w')
      (holds : predicate pred w' = .ok p w')
      (fails : body.run (w'.emitted (.whenBegin p depth)) = .error e end') :
      Breaks (.clause depth cond pred body) w
  | later {depth : UInt32} {cond body : Script} {pred : String} {tail : Tail} {w : World}
      (inside : Breaks (.clause depth cond pred body) (w.emitted (.altBegin depth))) :
      Breaks (.tail depth (.elseWhen cond pred body tail)) w
  /-- A later clause fails in its condition, at its predicate or in its body. -/
  | laterFails {depth : UInt32} {cond body : Script} {pred : String} {tail : Tail}
      {w end' : World} {e : Stop}
      (fails : (Passage.clause depth cond pred body).run (w.emitted (.altBegin depth)) =
        .error e end') :
      Breaks (.tail depth (.elseWhen cond pred body tail)) w
  | next {depth : UInt32} {cond body : Script} {pred : String} {tail : Tail} {w w' : World}
      (clause : (Passage.clause depth cond pred body).run (w.emitted (.altBegin depth)) = .ok () w')
      (inside : Breaks (.tail (depth + 1) tail) (w'.noted (.clause (depth + 1)))) :
      Breaks (.tail depth (.elseWhen cond pred body tail)) w
  | last {depth : UInt32} {body : Script} {w : World}
      (inside : Breaks (.script body) (w.emitted (.altBegin depth))) :
      Breaks (.tail depth (.otherwise body)) w
  /-- The body of an `otherwise` fails. -/
  | lastFails {depth : UInt32} {body : Script} {w end' : World} {e : Stop}
      (fails : body.run (w.emitted (.altBegin depth)) = .error e end') :
      Breaks (.tail depth (.otherwise body)) w
  | branchTail {depth : UInt32} {next : World → Tail} {w : World}
      (taken : Breaks (.tail depth (next w)) w) : Breaks (.tail depth (.branch next)) w

/-! ## They leave the stream heavier -/

section Clauses

variable {cond body : Script} {pred : String} {depth : UInt32} {w w' : World} {p : Operand} {n : Int}

/-- A clause with a known condition, from where its body begins. -/
theorem leaves_clause_of_ok (hcond : cond.run w = .ok () w') (holds : predicate pred w' = .ok p w')
    (hrest : Leaves (· = w'.emitted (.whenBegin p depth))
      (do body.run; liftBuild (Draft.emit (.whenEnd depth))) n) :
    Leaves (· = w) (Draft.Chain.clause depth (do cond.run; boolean pred) body.run) n := by
  obtain ⟨s, hs, hp, -⟩ := predicate_eq_ok.1 holds
  have hcondition : (do cond.run; boolean pred) w = .ok s w' := (bind_of_ok hcond).trans hs
  unfold Draft.Chain.clause
  exact Triple.from_ok hcondition (Triple.from_ok hp (Triple.from_ok rfl hrest))

/-- The body of a clause, and the end of its region. -/
theorem leaves_body {pre : World → Prop} (hbody : Leaves pre body.run (n + 1)) :
    Leaves pre (do body.run; liftBuild (Draft.emit (.whenEnd depth))) n := by
  refine .bind (hbody.relax fun _ _ hw => hw.mono (by omega)) fun _ => ?_
  refine leaves_emit (.whenEnd depth) (fun _ => id) ?_
  simp only [Command.weight]
  omega

end Clauses

/-- **A chain that fails halfway makes the stream heavier**, however the run goes on and ends. -/
theorem leaves_of_breaks {passage : Passage} {w : World} (h : Breaks passage w) : ∀ {n : Int},
    Weighs (n + passage.closing) w.session → Leaves (· = w) passage.run (n + 1) := by
  induction h with
  -- what comes before the break and ends well keeps the weight
  | @call step use rest w w' run _ ih =>
    intro n hw
    have hw' := (leaves_perform step (steady_meaning use _)).of_ok hw run
    exact Triple.from_ok run (ih hw')
  | @chain step cond body rest pred tail w w' run _ ih =>
    intro n hw
    have hchain := leaves_wholeChain (steady_clause 0 cond pred body (n + (0 : Nat)))
      (steady_runTail tail)
    have hw' := (leaves_perform step hchain).of_ok hw run
    exact Triple.from_ok run (ih hw')
  -- what comes behind the break keeps the weight as well, whether or not it ends well
  | @first step cond body rest pred tail w _ ih =>
    intro n hw
    have hchain := leaves_wholeChain (ih hw) (steady_runTail tail)
    exact .bind (leaves_perform step hchain) fun _ => steady_run rest (n + 1)
  | @tail step cond body rest pred tail w w' clause _ ih =>
    intro n hw
    have hw' : Weighs (n + (1 - 1 : Nat)) w'.session :=
      (steady_clause 0 cond pred body _).of_ok hw clause
    have hstart := (start_eq_ok (c := ⟨1⟩)).2 ⟨clause, rfl⟩
    refine .bind (leaves_perform step ?_) fun _ => steady_run rest (n + 1)
    refine Triple.from_ok hstart (Triple.from_ok rfl ?_)
    exact .bind (ih hw') fun _ => .ret fun _ => id
  | branch _ ih =>
    intro n hw
    exact Triple.from_ok rfl (ih hw)
  -- in a condition: the region of its clause is not open yet
  | @condition depth cond body pred w _ ih =>
    intro n hw
    have hcond : Leaves (· = w) (do cond.run; boolean pred) (n + 1) :=
      .bind (ih hw) fun _ => steady_of_keeps (fun _ => keeps_boolean pred) _
    exact leaves_clause depth hcond (steady_run body)
  | @body depth cond body pred w w' p condition holds _ ih =>
    intro n hw
    have hw' := (steady_run cond _).of_ok hw condition
    have hopened : Weighs (n + 1 + (0 : Nat)) (w'.emitted (.whenBegin p depth)).session :=
      (Weighs.emitted hw' _).mono (by simp only [Passage.closing, Command.weight]; omega)
    exact leaves_clause_of_ok condition holds (leaves_body (ih hopened))
  | @clauseFails depth cond body pred w w' end' p e condition holds fails =>
    intro n hw
    have hw' := (steady_run cond _).of_ok hw condition
    have hopened : Weighs (n + 1) (w'.emitted (.whenBegin p depth)).session :=
      (Weighs.emitted hw' _).mono (by simp only [Passage.closing, Command.weight]; omega)
    -- the region of the clause is open where its body fails, and the clause leaves it so
    have hend := (steady_run body _).of_error hopened fails
    exact leaves_clause_of_ok condition holds (Triple.from_error fails hend)
  -- in a later clause at depth `d` the closing of the chain takes `d` more off,
  -- and its `AltBegin` has put them on
  | @later depth cond body pred tail w _ ih =>
    intro n hw
    have hopened : Weighs (n + depth.toNat + (0 : Nat)) (w.emitted (.altBegin depth)).session :=
      (weighs_altBegin hw).mono (by omega)
    have hclause := (ih hopened).mono (m := n + 1 + depth.toNat) (by omega)
    refine leaves_runTail ⟨depth⟩ ?_ hclause (steady_runTail tail)
    rintro w rfl
    rfl
  | @laterFails depth cond body pred tail w end' e fails =>
    intro n hw
    have hopened := (weighs_altBegin hw).mono (m := n + 1) (by omega)
    have hend := (steady_clause depth cond pred body _).of_error hopened fails
    exact Triple.from_error ((bind_of_ok rfl).trans (bind_of_error fails)) hend
  | @next depth cond body pred tail w w' clause _ ih =>
    intro n hw
    have hopened := (weighs_altBegin hw).mono (m := n + depth.toNat) (by omega)
    have hsucc := toNat_succ_le depth
    have hw' : Weighs (n + ((depth + 1).toNat - 1 : Nat)) w'.session :=
      ((steady_clause depth cond pred body _).of_ok hopened clause).mono (by omega)
    have helse := (elseWhen_eq_ok (c := ⟨depth⟩)).2 ⟨clause, rfl⟩
    exact Triple.from_ok helse (Triple.from_ok rfl (ih hw'))
  | @last depth body w _ ih =>
    intro n hw
    have hopened : Weighs (n + depth.toNat + (0 : Nat)) (w.emitted (.altBegin depth)).session :=
      (weighs_altBegin hw).mono (by omega)
    have hbody := (ih hopened).mono (m := n + 1 + depth.toNat) (by omega)
    refine leaves_otherwise ⟨depth⟩ ?_ hbody
    rintro w rfl
    rfl
  | @lastFails depth body w end' e fails =>
    intro n hw
    have hopened := (weighs_altBegin hw).mono (m := n + 1) (by omega)
    have hend := (steady_run body _).of_error hopened fails
    exact Triple.from_ok rfl (Triple.from_error fails hend)
  | branchTail _ ih =>
    intro n hw
    exact Triple.from_ok rfl (ih hw)

/-! ## No circuit comes of them -/

/-- A stream that weighs something is refused. -/
theorem refused_of_weighs {w : Session} (h : Weighs 1 w) :
    ∃ f, Block.ofCommands w.draft.commands = .error f := by
  cases hb : Block.ofCommands w.draft.commands with
  | error f => exact ⟨f, rfl⟩
  | ok b =>
    have hpos : 1 ≤ balance w.draft.commands := h
    rw [Block.balance_eq_zero hb] at hpos
    omega

/-- A refused stream is reported as a mistake of the elaborator. -/
theorem finish_of_refused {d : Draft} {f : Region.Fault}
    (h : Block.ofCommands d.commands = .error f) :
    ∃ failure, d.finish = .error failure ∧ failure.hasCode ⟨399⟩ = true := by
  have hsink : d.finalSink = d.sink.emit (Draft.streamFault f).toDiagnostic := by
    rw [Draft.finalSink, h]
  refine ⟨⟨d.finalSink.held⟩, ?_, ?_⟩
  · rw [Draft.finish, hsink]
    rfl
  · rw [Draft.Failure.hasCode, hsink, Sink.held_emit, List.any_append]
    simp [code_toDiagnostic, Draft.streamFault, Draft.Fault.code]

/-- **No circuit comes of a broken chain.**  If a clause fails after its `WhenBegin` anywhere in a
    description, or a later part of a chain after its `AltBegin`, then the stream is refused, whatever
    failures are passed over, and the description ends in a failure; if it went through to its
    end, the failure says that the stream is malformed. -/
theorem Breaks.refused {s : Script} {m m' : Memory} {name : String}
    {settings : Settings.Elaboration} {o : Outcome} (h : Breaks (.script s) (m.world name settings))
    (hrun : describe? s m name settings = some (o, m')) :
    (∃ f, Block.ofCommands o.commands = .error f) ∧
      ∃ failure, o.result = .error failure ∧
        ((∃ w, s.run (m.world name settings) = .ok () w) → failure.hasCode ⟨399⟩ = true) := by
  have hstart : Weighs (0 + (0 : Nat)) (m.world name settings).session := Int.le_refl 0
  have hleaves := leaves_of_breaks h hstart
  unfold describe? at hrun
  split at hrun
  · next w hw =>
    obtain ⟨rfl, -⟩ := Prod.mk.inj (Option.some.inj hrun)
    obtain ⟨f, hf⟩ := refused_of_weighs (hleaves.of_ok rfl hw)
    obtain ⟨failure, hfinish, hcode⟩ := finish_of_refused hf
    exact ⟨⟨f, hf⟩, failure, hfinish, fun _ => hcode⟩
  · next f w hw =>
    obtain ⟨rfl, -⟩ := Prod.mk.inj (Option.some.inj hrun)
    refine ⟨refused_of_weighs (hleaves.of_error rfl hw), _, rfl, ?_⟩
    rintro ⟨w', hok⟩
    rw [hok] at hw
    cases hw
  · cases hrun
  · cases hrun

/-! ## A broken chain inside a chain -/

/-- A chain of two clauses inside the second clause of another.  In its second clause a constant is
    assigned to, and the failure is passed over; the next commands of the outer chain close what the
    inner one has left open. -/
def overlooked : Script :=
  .chain ⟨"", false, none⟩ .done "c" .done
    (.elseWhen .done "c"
      (.chain ⟨"", true, none⟩ .done "c" .done
        (.elseWhen .done "c" (.call ⟨"", false, none⟩ (.connect "c" "c") .done) .close)
        .done)
      .close)
    .done

/-- The constant that it is about. -/
def overlookedMemory : Memory :=
  ⟨.empty, [("c", .leaf ⟨0, .bool, .known 1, some (.ofNat 1 1)⟩)], 0⟩

theorem overlooked_refused : ∃ o m',
    describe? overlooked overlookedMemory "t" .default = some (o, m') ∧ o.commands.length = 10 ∧
      (∃ f, Block.ofCommands o.commands = .error f) ∧
      ∃ failure, o.result = .error failure ∧ failure.hasCode ⟨399⟩ = true := by
  have hbreaks : Breaks (.script overlooked) (overlookedMemory.world "t" .default) :=
    .tail rfl (.later (.body rfl rfl (.tail rfl (.laterFails rfl))))
  have hrun : Ending.length? (overlooked.run (overlookedMemory.world "t" .default)) = some 10 := by
    decide +kernel
  obtain ⟨w', hw, hlength⟩ := Ending.exists_of_length? hrun
  have hdescribe : describe? overlooked overlookedMemory "t" .default =
      some (w'.outcome w'.session.draft.finish, w'.memory) := by
    rw [describe?, hw]
  obtain ⟨hrefused, failure, hfailure, hcode⟩ := hbreaks.refused hdescribe
  exact ⟨_, _, hdescribe, hlength, hrefused, failure, hfailure, hcode ⟨w', hw⟩⟩

end Script

end Circuitry
