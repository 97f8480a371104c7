/-
  The indentation of a listing, and the nesting.

  A listing keeps no stack.  It counts: one more behind each command that opens a region, one less at
  a `WhenEnd`, as many less as the depth says at an `OtherwiseEnd`, and never below zero.  For a
  stream that can be read as a nesting this is enough (`listing_indented`):

  1. the counter in front of a command is one more than the number of regions open there, so a
     command that marks no region stands two blanks to the right for each of its guards, and two more;
  2. a `WhenEnd` stands where its `WhenBegin` does;
  3. no command takes as much off the counter as it holds, so the stop at zero plays no part;
  4. behind the last command the counter is where it began.

  The reader of the nesting changes its stack by the weight of a command (`length_step`), and so does
  the counter, as long as it does not stop at zero.  It cannot: what the command takes off, the reader
  finds on its stack, and the counter is one ahead of that (`levelAt_eq`).
-/
import Circuitry.Circuit.Listing
import Circuitry.Proofs.Nesting.Regions

namespace Circuitry

open Region (Reader)

namespace Circuit

/-! ## The counter -/

/-- The counter behind a command. -/
def levelBehind (level : Nat) (cmd : Command) : Nat := level - dedent cmd + indentAfter cmd

/-- The counter in front of a position, where a listing begins at one. -/
def levelAt (cs : List Command) (k : Nat) : Nat := (cs.take k).foldl levelBehind 1

/-- The lines of the commands of a circuit. -/
def body (c : Circuit) : List String := c.lines 1 c.commands

theorem levelAt_succ {cs : List Command} {k : Nat} {cmd : Command} (h : cs[k]? = some cmd) :
    levelAt cs (k + 1) = levelBehind (levelAt cs k) cmd := by
  rw [levelAt, List.take_add_one, h, List.foldl_append]
  rfl

theorem length_lines (c : Circuit) : ∀ (level : Nat) (cs : List Command),
    (c.lines level cs).length = cs.length
  | _, [] => rfl
  | _, _ :: cs => congrArg Nat.succ (length_lines c _ cs)

theorem getElem?_lines (c : Circuit) : ∀ (cs : List Command) (level k : Nat),
    (c.lines level cs)[k]? = cs[k]?.map fun cmd =>
      indentation ((cs.take k).foldl levelBehind level - dedent cmd) ++ cmd.text ++
        c.definitionText cmd
  | [], _, _ => rfl
  | _ :: _, _, 0 => rfl
  | _ :: cs, level, k + 1 => getElem?_lines c cs (levelBehind level _) k

/-- Lines behind others begin where the counter then is. -/
theorem lines_append (c : Circuit) : ∀ (xs ys : List Command) (level : Nat),
    c.lines level (xs ++ ys) = c.lines level xs ++ c.lines (xs.foldl levelBehind level) ys
  | [], _, _ => rfl
  | cmd :: xs, ys, level =>
    congrArg (List.cons (indentation (level - dedent cmd) ++ cmd.text ++ c.definitionText cmd))
      (lines_append c xs ys (levelBehind level cmd))

/-- The line of a command, by the counter in front of it. -/
theorem getElem?_body {c : Circuit} {k : Nat} {cmd : Command} (h : c.commands[k]? = some cmd) :
    c.body[k]? = some (indentation (levelAt c.commands k - dedent cmd) ++ cmd.text ++
      c.definitionText cmd) := by
  rw [body, getElem?_lines, h]
  rfl

/-- A command weighs what it moves to the right, less what it moves to the left. -/
theorem weight_eq (cmd : Command) : cmd.weight = indentAfter cmd - dedent cmd := by
  cases cmd <;> simp [Command.weight, indentAfter, dedent]

theorem dedent_of_indentAfter {cmd : Command} (h : indentAfter cmd ≠ 0) : dedent cmd = 0 := by
  cases cmd with
  | whenBegin _ _ | altBegin _ => rfl
  | _ => exact absurd rfl h

theorem dedent_plain {cmd : Command} (h : cmd.isControl = false) : dedent cmd = 0 := by
  cases cmd with
  | whenBegin _ _ | whenEnd _ | altBegin _ | otherwiseEnd _ => cases h
  | _ => rfl

end Circuit

open Circuit (levelAt levelBehind dedent indentAfter)

/-! ## Counter and stack -/

namespace Region.Reader

variable {r r' : Reader} {i : Nat} {cmd : Command}

/-- What a command moves to the left is on the stack. -/
theorem dedent_le (h : r.step i cmd = .ok r') : dedent cmd ≤ r.stack.length := by
  have hlength := length_step h
  rw [Circuit.weight_eq] at hlength
  by_cases hopens : indentAfter cmd = 0
  · omega
  · rw [Circuit.dedent_of_indentAfter hopens]
    exact Nat.zero_le _

/-- A counter that is one ahead of the stack stays so. -/
theorem levelBehind_eq (h : r.step i cmd = .ok r') :
    levelBehind (1 + r.stack.length) cmd = 1 + r'.stack.length := by
  have hlength := length_step h
  have hle := dedent_le h
  rw [Circuit.weight_eq] at hlength
  rw [levelBehind]
  omega

end Region.Reader

/-- The reader has followed the stream to a position, and the counter is one ahead of its stack. -/
structure Aligned (cs : List Command) (k : Nat) (r : Reader) : Prop where
  tracks : Tracks cs k r
  level : levelAt cs k = 1 + r.stack.length

namespace Aligned

variable {cs : List Command} {k : Nat} {r r' : Reader} {cmd : Command}

theorem step (a : Aligned cs k r) (hcmd : cs[k]? = some cmd) (h : r.step k cmd = .ok r') :
    Aligned cs (k + 1) r' where
  tracks := a.tracks.step hcmd h
  level := by rw [Circuit.levelAt_succ hcmd, a.level, Reader.levelBehind_eq h]

/-- A run that goes through comes by every position, and takes the command there. -/
theorem run {rest : List Command} (a : Aligned cs k r) (hrest : cs.drop k = rest)
    (h : r.run k rest = .ok r') {n : Nat} (hn : n ≤ rest.length) :
    ∃ r₁, Aligned cs (k + n) r₁ ∧
      ∀ cmd, rest[n]? = some cmd → ∃ r₂, r₁.step (k + n) cmd = .ok r₂ := by
  induction rest generalizing k r n with
  | nil =>
    obtain rfl := Nat.le_zero.1 hn
    exact ⟨r, a, fun _ hcmd => by cases hcmd⟩
  | cons first rest ih =>
    obtain ⟨r₁, hstep, hrun⟩ := Reader.run_cons_eq_ok.1 h
    have hfirst : cs[k]? = some first := by
      rw [← List.head?_drop, hrest]
      rfl
    have hnext : cs.drop (k + 1) = rest := by
      rw [← List.drop_drop, hrest]
      rfl
    cases n with
    | zero => exact ⟨r, a, fun cmd hcmd => ⟨r₁, Option.some.inj hcmd ▸ hstep⟩⟩
    | succ n =>
      have hlater := ih (a.step hfirst hstep) hnext hrun (Nat.le_of_succ_le_succ hn)
      rwa [Nat.add_assoc, Nat.add_comm 1 n] at hlater

end Aligned

/-! ## Lines -/

section Streams

variable {cs : List Command} {b : Block}

theorem Block.exists_aligned (h : Block.ofCommands cs = .ok b) {k : Nat} (hk : k ≤ cs.length) :
    ∃ r, Aligned cs k r ∧ ∀ cmd, cs[k]? = some cmd → ∃ r', r.step k cmd = .ok r' := by
  obtain ⟨_, hrun, -⟩ := Block.exists_tracks h
  have hat := Aligned.run ⟨Tracks.start cs, rfl⟩ List.drop_zero hrun hk
  rwa [Nat.zero_add] at hat

/-- The counter is one more than the number of open regions. -/
theorem Circuit.levelAt_eq (h : Block.ofCommands cs = .ok b) {k : Nat} (hk : k ≤ cs.length) :
    levelAt cs k = 1 + (openRegions cs k).length := by
  obtain ⟨r, a, -⟩ := Block.exists_aligned h hk
  rw [a.level, a.tracks.length_openRegions]

theorem Circuit.levelAt_eq_openCount (h : Block.ofCommands cs = .ok b) {k : Nat}
    (hk : k ≤ cs.length) : (levelAt cs k : Int) = 1 + openCount cs k := by
  obtain ⟨r, a, -⟩ := Block.exists_aligned h hk
  rw [a.level, a.tracks.count]
  rfl

/-- No command takes as much off the counter as it holds. -/
theorem Circuit.dedent_lt (h : Block.ofCommands cs = .ok b) {k : Nat} {cmd : Command}
    (hcmd : cs[k]? = some cmd) : dedent cmd < levelAt cs k := by
  have hk : k < cs.length := (List.getElem?_eq_some_iff.1 hcmd).1
  obtain ⟨r, a, hsteps⟩ := Block.exists_aligned h (Nat.le_of_lt hk)
  obtain ⟨r', hstep⟩ := hsteps cmd hcmd
  have hle := Reader.dedent_le hstep
  rw [a.level]
  omega

/-- A `WhenEnd` closes the region of one `WhenBegin`, and that was opened directly below. -/
theorem Block.exists_whenBegin (h : Block.ofCommands cs = .ok b) {j : Nat} {depth : UInt32}
    (hcmd : cs[j]? = some (.whenEnd depth)) :
    ∃ i pred, cs[i]? = some (.whenBegin pred depth) ∧ ClosedBy cs i j ∧
      ∀ i', ClosedBy cs i' j → i' = i := by
  obtain ⟨_, -, tend, -⟩ := Block.exists_tracks h
  have hj : j < cs.length := (List.getElem?_eq_some_iff.1 hcmd).1
  obtain ⟨r, a, hsteps⟩ := Block.exists_aligned h (Nat.le_of_lt hj)
  obtain ⟨r', hstep⟩ := hsteps _ hcmd
  have hcount := (a.tracks.step hcmd hstep).count
  have hmoves := Reader.moves_step hstep
  generalize hopen : r.stack.map (·.1) = open' at hmoves
  generalize hnext : r'.stack.map (·.1) = next at hmoves
  generalize r'.closed = last at hmoves
  cases hmoves with
  | plain hplain => cases hplain
  | whenEnd innermost =>
    obtain ⟨i, hends, hmark⟩ := a.tracks.closes_innermost hcount (hopen.trans (hnext ▸ innermost))
    cases hmark with
    | body begins =>
      refine ⟨i, _, begins, hends, fun i' hends' => ?_⟩
      obtain ⟨cmd, hcmd', hcloser⟩ := tend.allClosers i' j hends'
      obtain rfl := Option.some.inj (hcmd.symm.trans hcmd')
      cases hcloser with
      | body begun' =>
        have hbelow := openCount_of_closedBy tend.allClosers begins hends
        have hbelow' := openCount_of_closedBy tend.allClosers begun' hends'
        exact hends'.1.eq_of_openCount hends.1 (hbelow'.trans hbelow.symm)

/-- Where a region is closed by a `WhenEnd`, the counter is one above where it was opened. -/
theorem Circuit.levelAt_of_closedBy (h : Block.ofCommands cs = .ok b) {i j : Nat} {pred : Operand}
    {depth : UInt32} (hbegun : cs[i]? = some (.whenBegin pred depth)) (hends : ClosedBy cs i j) :
    levelAt cs j = levelAt cs i + 1 := by
  obtain ⟨_, -, tend, -⟩ := Block.exists_tracks h
  have hbelow := openCount_of_closedBy tend.allClosers hbegun hends
  have hj := Tracks.lt_of_closedBy hends
  have hopened := Circuit.levelAt_eq_openCount h (Nat.le_of_lt (Nat.lt_trans hends.1.2.1 hj))
  have hended := Circuit.levelAt_eq_openCount h (Nat.le_of_lt hj)
  omega

end Streams

/-! ## The listing -/

namespace Circuit

/-- The lines of a circuit are indented as its commands are nested. -/
structure Indented (c : Circuit) (b : Block) : Prop where
  /-- The listing is a heading and one line for each command. -/
  listing : c.listing = String.join ((("circuit " ++ c.name ++ " :") :: c.body).map (· ++ "\n"))
  length : c.body.length = c.commands.length
  /-- Each line stands where the counter is, less what its command takes off. -/
  counted : ∀ k cmd, c.commands[k]? = some cmd → c.body[k]? =
    some (indentation (levelAt c.commands k - dedent cmd) ++ cmd.text ++ c.definitionText cmd)
  /-- A command that marks no region has guards, and they say how far its line is indented. -/
  plain : ∀ p cmd, c.commands[p]? = some cmd → cmd.isControl = false →
    (∃ gs, (p, gs) ∈ b.guarded) ∧ ∀ gs, (p, gs) ∈ b.guarded →
      c.body[p]? = some (indentation (1 + gs.length) ++ cmd.text ++ c.definitionText cmd)
  /-- A `WhenEnd` closes one region, and is indented as the `WhenBegin` that opens it. -/
  ends : ∀ j depth, c.commands[j]? = some (.whenEnd depth) →
    ∃ i pred level, c.commands[i]? = some (.whenBegin pred depth) ∧ ClosedBy c.commands i j ∧
      (∀ i', ClosedBy c.commands i' j → i' = i) ∧
      c.body[i]? = some (indentation level ++ (Command.whenBegin pred depth).text) ∧
      c.body[j]? = some (indentation level ++ (Command.whenEnd depth).text)
  /-- The counter never stops at zero. -/
  unsaturated : ∀ k cmd, c.commands[k]? = some cmd → dedent cmd < levelAt c.commands k
  /-- Behind the last command the counter is where it began, and more lines would begin there. -/
  last : levelAt c.commands c.commands.length = 1 ∧
    ∀ more, c.lines 1 (c.commands ++ more) = c.body ++ c.lines 1 more

/-- **Indentation and nesting.**  Of every circuit whose stream can be read, the listing shows the
    nesting that is read. -/
theorem listing_indented {c : Circuit} {b : Block} (h : Block.ofCommands c.commands = .ok b) :
    c.Indented b where
  listing := rfl
  length := c.length_lines 1 c.commands
  counted _ _ hcmd := getElem?_body hcmd
  plain := by
    intro p cmd hcmd hplain
    obtain ⟨_, -, t, hguarded, -⟩ := Block.exists_tracks h
    have hp : p < c.commands.length := (List.getElem?_eq_some_iff.1 hcmd).1
    constructor
    · have hmem : p ∈ b.guarded.map (·.1) := by
        rw [hguarded, t.listed, plainPositions, List.mem_filter, hcmd]
        exact ⟨List.mem_range.2 hp, by simp [hplain]⟩
      obtain ⟨⟨_, gs⟩, hlisted, rfl⟩ := List.mem_map.1 hmem
      exact ⟨gs, hlisted⟩
    · intro gs hlisted
      rw [hguarded] at hlisted
      have hdepth : (openRegions c.commands p).length = gs.length :=
        (t.guards _ hlisted).length_eq
      rw [getElem?_body hcmd, dedent_plain hplain, levelAt_eq h (Nat.le_of_lt hp), hdepth]
      rfl
  ends := by
    intro j depth hcmd
    obtain ⟨i, pred, hbegun, hends, hunique⟩ := Block.exists_whenBegin h hcmd
    have hlevel := levelAt_of_closedBy h hbegun hends
    refine ⟨i, pred, levelAt c.commands i, hbegun, hends, hunique, ?_, ?_⟩
    · rw [getElem?_body hbegun]
      exact congrArg some (String.append_empty ..)
    · rw [getElem?_body hcmd, hlevel]
      exact congrArg some (String.append_empty ..)
  unsaturated _ _ hcmd := dedent_lt h hcmd
  last := by
    obtain ⟨_, -, t, -, hstack⟩ := Block.exists_tracks h
    have hone : levelAt c.commands c.commands.length = 1 := by
      rw [levelAt_eq h (Nat.le_refl _), t.length_openRegions, hstack]
      rfl
    refine ⟨hone, fun more => ?_⟩
    rw [levelAt, List.take_length] at hone
    rw [lines_append, hone, body]

/-- A chain of three. -/
def threeParts : Circuit := ⟨"c", [], [], Block.threeWay⟩

/-- The part behind both clauses has two guards, and stands three steps to the right. -/
theorem threeParts_indented : ∃ b, Block.ofCommands threeParts.commands = .ok b ∧
    (8, [⟨.node ⟨0⟩, false⟩, ⟨.node ⟨1⟩, false⟩]) ∈ b.guarded ∧
    threeParts.body[8]? = some "      n3 <= n1" ∧ levelAt threeParts.commands 10 = 1 := by
  have hread : Block.ofCommands threeParts.commands =
      .ok (.clauseElse (.node ⟨0⟩) 0 (.command 1 .empty)
        (.clauseElse (.node ⟨1⟩) 4 (.command 5 .empty) (.command 8 .empty) .empty) .empty) := rfl
  have hindented := listing_indented hread
  refine ⟨_, hread, by decide, ?_, hindented.last.1⟩
  rw [(hindented.plain 8 _ rfl rfl).2 [⟨.node ⟨0⟩, false⟩, ⟨.node ⟨1⟩, false⟩] (by decide)]
  decide +kernel

end Circuit

end Circuitry
