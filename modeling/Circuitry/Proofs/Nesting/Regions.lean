/-
  The regions of the flat stream, and the nesting.

  A stream says with its marking commands alone which regions are open at a position: a command opens
  a region, and the region stays open as long as more regions are open than before that command
  (`OpenAt`).  No nesting is built for this, and no depth is looked at.  The nesting that is read back
  answers two questions, which commands there are under which guards and which of them take effect,
  and both answers agree with the flat reading (`ofCommands_agree`):

  1. each command that marks no region is listed once, in stream order;
  2. its guards are those of the regions open at its position, outermost first, where a `WhenBegin`
     asks its own predicate and an `AltBegin` asks the opposite of the clause that the command before
     it has closed;
  3. a region opened by a `WhenBegin` is closed by the `WhenEnd` of its depth and one opened by an
     `AltBegin` by an `OtherwiseEnd`, so that `OpenAt` means what it should;
  4. the commands that take effect are those whose guards are all met, and so never one of a
     then-block together with one of its else-block.

  The proof follows the reader (`Tracks`).  What carries it is that the regions open at a position are
  stacked: the `n`-th of them, from the outside, was opened when `n` were open.  So whatever number of
  regions a command closes, those that stay open are a prefix of those that were (`openRegions_succ`),
  just as on the reader's stack.
-/
import Circuitry.Proofs.Nesting.Grammar
import Circuitry.Proofs.Nesting.Balance
import Circuitry.Proofs.Nesting.Trail
import Mathlib.Data.List.Nodup

namespace Circuitry

open Region (Opened Clause Reader)

/-! ## Regions of a flat stream -/

/-- Whether a command opens a region. -/
def Command.opens : Command → Bool
  | .whenBegin _ _ | .altBegin _ => true
  | _ => false

/-- How many regions the commands in front of a position have left open. -/
def openCount (cs : List Command) (k : Nat) : Int := balance (cs.take k)

/-- The region that the command at `i` opens is open at position `p`: since that command, there were
    always more regions open than before it. -/
def OpenAt (cs : List Command) (p i : Nat) : Prop :=
  cs[i]?.any Command.opens = true ∧ i < p ∧ ∀ k ≤ p, i < k → openCount cs i < openCount cs k

instance (cs : List Command) (p i : Nat) : Decidable (OpenAt cs p i) :=
  inferInstanceAs (Decidable (_ ∧ _ ∧ ∀ k ≤ p, _))

/-- The regions open at a position, by the commands that open them, outermost first. -/
def openRegions (cs : List Command) (p : Nat) : List Nat := (List.range p).filter (OpenAt cs p ·)

/-- The command at `j` closes the region that the command at `i` opens. -/
def ClosedBy (cs : List Command) (i j : Nat) : Prop := OpenAt cs j i ∧ ¬ OpenAt cs (j + 1) i

instance (cs : List Command) (i j : Nat) : Decidable (ClosedBy cs i j) :=
  inferInstanceAs (Decidable (_ ∧ _))

/-- What the region opened at a position asks.  The predicate of an else-region is that of the clause
    which the command before it has closed. -/
inductive RegionGuard (cs : List Command) : Nat → Guard → Prop
  | body {i : Nat} {pred : Operand} {depth : UInt32}
      (begun : cs[i]? = some (.whenBegin pred depth)) : RegionGuard cs i ⟨pred, true⟩
  | alternative {i j : Nat} {pred : Operand} {depth next : UInt32}
      (clause : cs[i]? = some (.whenBegin pred depth)) (ended : ClosedBy cs i j)
      (begun : cs[j + 1]? = some (.altBegin next)) : RegionGuard cs (j + 1) ⟨pred, false⟩

/-- The command is one that may close the region opened at a position. -/
inductive Closer (cs : List Command) : Nat → Command → Prop
  | body {i : Nat} {pred : Operand} {depth : UInt32}
      (begun : cs[i]? = some (.whenBegin pred depth)) : Closer cs i (.whenEnd depth)
  | alternative {i : Nat} {depth last : UInt32} (begun : cs[i]? = some (.altBegin depth))
      (deep : depth ≤ last) : Closer cs i (.otherwiseEnd last)

/-- The positions of the commands that mark no region, in order. -/
def plainPositions (cs : List Command) (k : Nat) : List Nat :=
  (List.range k).filter fun p => cs[p]?.any fun cmd => !cmd.isControl

/-! ## One command further -/

theorem openCount_succ {cs : List Command} {k : Nat} {cmd : Command} (h : cs[k]? = some cmd) :
    openCount cs (k + 1) = openCount cs k + cmd.weight := by
  rw [openCount, openCount, List.take_add_one, h, balance_append]
  simp

theorem weight_of_opens {cmd : Command} (h : cmd.opens = true) : cmd.weight = 1 := by
  cases cmd with
  | whenBegin _ _ | altBegin _ => rfl
  | _ => cases h

theorem OpenAt.count_lt {cs : List Command} {k i : Nat} (h : OpenAt cs k i) :
    openCount cs i < openCount cs k :=
  h.2.2 k (Nat.le_refl k) h.2.1

/-- Of two regions that are open together, the later one was opened above the earlier one. -/
theorem OpenAt.eq_of_openCount {cs : List Command} {p i i' : Nat} (h : OpenAt cs p i)
    (h' : OpenAt cs p i') (hcount : openCount cs i = openCount cs i') : i = i' := by
  rcases Nat.lt_trichotomy i i' with hlt | heq | hlt
  · have := h.2.2 i' (Nat.le_of_lt h'.2.1) hlt
    omega
  · exact heq
  · have := h'.2.2 i (Nat.le_of_lt h.2.1) hlt
    omega

/-- A region stays open as long as the count stays above where it began. -/
theorem openAt_succ (cs : List Command) {k i : Nat} (hi : i < k) :
    OpenAt cs (k + 1) i ↔ OpenAt cs k i ∧ openCount cs i < openCount cs (k + 1) := by
  constructor
  · rintro ⟨hopens, hlt, habove⟩
    refine ⟨⟨hopens, hi, fun j hj => habove j (by omega)⟩, habove (k + 1) (Nat.le_refl _) hlt⟩
  · rintro ⟨⟨hopens, _, habove⟩, hnext⟩
    refine ⟨hopens, by omega, fun j hj hij => ?_⟩
    rcases Nat.lt_or_ge k j with hlt | hle
    · obtain rfl : j = k + 1 := by omega
      exact hnext
    · exact habove j hle hij

/-- A region is open right behind the command that opens it. -/
theorem openAt_self (cs : List Command) (k : Nat) :
    OpenAt cs (k + 1) k ↔ cs[k]?.any Command.opens = true := by
  constructor
  · exact fun h => h.1
  · intro h
    refine ⟨h, Nat.lt_succ_self k, fun j hj hkj => ?_⟩
    obtain rfl : j = k + 1 := by omega
    obtain ⟨cmd, hcmd, hopens⟩ := (Option.any_eq_true _ _).1 h
    rw [openCount_succ hcmd, weight_of_opens hopens]
    omega

theorem mem_openRegions {cs : List Command} {k i : Nat} : i ∈ openRegions cs k ↔ OpenAt cs k i := by
  simp only [openRegions, List.mem_filter, List.mem_range, decide_eq_true_eq]
  exact ⟨fun h => h.2, fun h => ⟨h.2.1, h⟩⟩

/-- With one command more, those regions are open that were opened below the new count, and the one
    that the command opens. -/
theorem openRegions_succ (cs : List Command) (k : Nat) :
    openRegions cs (k + 1) =
      (openRegions cs k).filter (fun i => openCount cs i < openCount cs (k + 1)) ++
        if cs[k]?.any Command.opens then [k] else [] := by
  rw [openRegions, List.range_succ, List.filter_append, openRegions, List.filter_filter]
  congr 1
  · refine List.filter_congr fun i hi => ?_
    have hiff := openAt_succ cs (List.mem_range.1 hi)
    simp [hiff, Bool.and_comm]
  · have hiff := openAt_self cs k
    simp [List.filter_singleton, hiff]

/-- The positions of the plain commands grow by one at each of them. -/
theorem plainPositions_succ {cs : List Command} {k : Nat} {cmd : Command} (h : cs[k]? = some cmd) :
    plainPositions cs (k + 1) = plainPositions cs k ++ if cmd.isControl then [] else [k] := by
  rw [plainPositions, List.range_succ, List.filter_append, List.filter_singleton, h, plainPositions]
  cases hcontrol : cmd.isControl <;> simp [hcontrol]

/-- Regions are stacked: the `n`-th open one, from the outside, was opened when `n` were open. -/
def Stacked (cs : List Command) (k : Nat) : Prop :=
  ∀ n i : Nat, (openRegions cs k)[n]? = some i → openCount cs i = n

/-- In a stack, the regions below a count are the outermost ones. -/
theorem Stacked.filter_lt {cs : List Command} {k m : Nat} (h : Stacked cs k) :
    (openRegions cs k).filter (fun i => openCount cs i < m) = (openRegions cs k).take m := by
  conv_lhs => rw [← List.take_append_drop m (openRegions cs k), List.filter_append]
  have houter : ∀ i ∈ (openRegions cs k).take m, openCount cs i < m := by
    intro i hi
    obtain ⟨n, hn⟩ := List.mem_iff_getElem?.1 hi
    rw [List.getElem?_take] at hn
    split at hn
    · next hlt =>
      rw [h n i hn]
      exact Int.ofNat_lt.2 hlt
    · cases hn
  have hinner : ∀ i ∈ (openRegions cs k).drop m, ¬ openCount cs i < m := by
    intro i hi
    obtain ⟨n, hn⟩ := List.mem_iff_getElem?.1 hi
    rw [List.getElem?_drop] at hn
    rw [h _ i hn]
    omega
  rw [List.filter_eq_self.2 fun i hi => decide_eq_true (houter i hi),
    List.filter_eq_nil_iff.2 fun i hi => by simpa using hinner i hi, List.append_nil]

/-- A command that opens a region puts it on the stack. -/
theorem openRegions_of_opens {cs : List Command} {k : Nat} {cmd : Command}
    (hcmd : cs[k]? = some cmd) (hopens : cmd.opens = true) :
    openRegions cs (k + 1) = openRegions cs k ++ [k] := by
  rw [openRegions_succ, hcmd]
  have hstay : ∀ i ∈ openRegions cs k, openCount cs i < openCount cs (k + 1) := by
    intro i hi
    have hlt := (mem_openRegions.1 hi).count_lt
    rw [openCount_succ hcmd, weight_of_opens hopens]
    omega
  rw [List.filter_eq_self.2 fun i hi => decide_eq_true (hstay i hi)]
  simp [hopens]

/-- Behind any other command the outermost regions are left, as many as the count says. -/
theorem Stacked.openRegions_of_not_opens {cs : List Command} {k m : Nat} {cmd : Command}
    (h : Stacked cs k) (hcmd : cs[k]? = some cmd) (hopens : cmd.opens = false)
    (hm : openCount cs (k + 1) = m) : openRegions cs (k + 1) = (openRegions cs k).take m := by
  rw [openRegions_succ, hcmd, hm, h.filter_lt]
  simp [hopens]

/-! ## What a command does to the open regions -/

namespace Region.Reader

/-- What the command at `i` does to the open regions, innermost first, and to the clause that is
    closed last. -/
inductive Moves (i : Nat) (open' : List Opened) (closed : Option Clause) :
    Command → List Opened → Option Clause → Prop
  | whenBegin {pred : Operand} {depth : UInt32} :
      Moves i open' closed (.whenBegin pred depth) (.thenRegion pred i depth :: open') none
  | whenEnd {pred : Operand} {begun : Nat} {depth : UInt32} {outer : List Opened} {body : Block}
      (innermost : open' = .thenRegion pred begun depth :: outer) :
      Moves i open' closed (.whenEnd depth) outer (some ⟨pred, begun, body, depth⟩)
  | altBegin {c : Clause} {depth : UInt32} (follows : closed = some c) :
      Moves i open' closed (.altBegin depth) (.elseRegion c depth :: open') none
  | otherwiseEnd {depth : UInt32} (elses : ∀ n < depth.toNat, ∃ c d,
      open'[n]? = some (.elseRegion c d) ∧ d ≤ depth) :
      Moves i open' closed (.otherwiseEnd depth) (open'.drop depth.toNat) none
  | plain {cmd : Command} (plain : cmd.isControl = false) : Moves i open' closed cmd open' none

/-- What closes so many else-regions finds else-regions of depths up to that number. -/
theorem elses_of_closes {d : Nat} {r q : Reader} (h : Closes d r q) :
    ∀ n < d, ∃ c e, (r.stack.map (·.1))[n]? = some (.elseRegion c e) ∧ e.toNat ≤ d := by
  induction h with
  | none r => exact fun n hn => absurd hn (Nat.not_lt_zero n)
  | @next d c e _ _ _ _ _ innermost rest ih =>
    intro n hn
    cases n with
    | zero => exact ⟨c, e, rfl, Nat.le_of_eq innermost⟩
    | succ n =>
      obtain ⟨c', e', hget, hle⟩ := ih n (by omega)
      exact ⟨c', e', hget, by omega⟩

theorem moves_step {r r' : Reader} {i : Nat} {cmd : Command} (h : r.step i cmd = .ok r') :
    Moves i (r.stack.map (·.1)) r.closed cmd (r'.stack.map (·.1)) r'.closed := by
  cases step_iff.1 h with
  | plain plain =>
    rw [grow_stack, stack_settle]
    exact .plain plain
  | whenBegin _ =>
    rw [← stack_settle]
    exact .whenBegin
  | whenEnd innermost =>
    rw [← stack_settle r, innermost]
    exact .whenEnd rfl
  | altBegin follows _ => exact .altBegin follows
  | otherwiseEnd _ closes =>
    obtain ⟨-, hnone, hstack⟩ := guarded_closes r.settle_closed closes
    have helses := elses_of_closes closes
    rw [stack_settle] at hstack helses
    rw [hnone, hstack, List.map_drop]
    exact .otherwiseEnd helses

end Region.Reader

/-! ## Following the reader -/

/-- The clause was closed by the command just before a position. -/
def EndsAt (cs : List Command) (k : Nat) (c : Clause) : Prop :=
  ∃ i j, k = j + 1 ∧ cs[i]? = some (.whenBegin c.pred c.depth) ∧ ClosedBy cs i j

/-- The region on the reader's stack is the one that the command at a position opens. -/
inductive Marks (cs : List Command) : Nat → Opened → Prop
  | body {i : Nat} {pred : Operand} {begun : Nat} {depth : UInt32}
      (begins : cs[i]? = some (.whenBegin pred depth)) : Marks cs i (.thenRegion pred begun depth)
  | alternative {i : Nat} {c : Clause} {depth : UInt32} (ends : EndsAt cs i c)
      (begins : cs[i]? = some (.altBegin depth)) : Marks cs i (.elseRegion c depth)

theorem Marks.regionGuard {cs : List Command} {i : Nat} {o : Opened} (h : Marks cs i o) :
    RegionGuard cs i o.guard := by
  cases h with
  | body begins => exact .body begins
  | alternative ends begins =>
    obtain ⟨_, _, rfl, clause, ended⟩ := ends
    exact .alternative clause ended begins

/-- The reader has gone through the stream as far as position `k`. -/
structure Tracks (cs : List Command) (k : Nat) (r : Reader) : Prop where
  count : openCount cs k = r.stack.length
  stacked : Stacked cs k
  marks : List.Forall₂ (Marks cs) (openRegions cs k) (r.stack.map (·.1)).reverse
  closed : ∀ c, r.closed = some c → EndsAt cs k c
  listed : r.guarded.map (·.1) = plainPositions cs k
  guards : ∀ e ∈ r.guarded, List.Forall₂ (RegionGuard cs) (openRegions cs e.1) e.2
  closers : ∀ i j, j < k → ClosedBy cs i j → ∃ cmd, cs[j]? = some cmd ∧ Closer cs i cmd

namespace Tracks

variable {cs : List Command} {k : Nat} {r r' : Reader} {cmd : Command}

theorem length_openRegions (t : Tracks cs k r) : (openRegions cs k).length = r.stack.length := by
  rw [t.marks.length_eq, List.length_reverse, List.length_map]

/-- The regions on the stack, by their number from the outside. -/
theorem mark_at (t : Tracks cs k r) {n i : Nat} (h : (openRegions cs k)[n]? = some i) :
    ∃ o, (r.stack.map (·.1)).reverse[n]? = some o ∧ Marks cs i o := by
  obtain ⟨hn, hi⟩ := List.getElem?_eq_some_iff.1 h
  have hn' : n < (r.stack.map (·.1)).reverse.length := by rwa [← t.marks.length_eq]
  refine ⟨_, List.getElem?_eq_getElem hn', ?_⟩
  have hmark := t.marks.get hn hn'
  simpa [hi] using hmark

/-- The guards in hand are those of the open regions. -/
theorem regionGuards (t : Tracks cs k r) :
    List.Forall₂ (RegionGuard cs) (openRegions cs k) (r.stack.map (·.1.guard)).reverse := by
  have hguards := List.forall₂_map_right_iff.2 (t.marks.imp fun _ _ h => h.regionGuard)
  rwa [List.map_reverse, List.map_map] at hguards

/-- The regions open behind a command that opens none. -/
theorem openRegions_next (t : Tracks cs k r) (hcmd : cs[k]? = some cmd)
    (hcount : openCount cs (k + 1) = r'.stack.length) (hopens : cmd.opens = false) :
    openRegions cs (k + 1) = (openRegions cs k).take r'.stack.length :=
  t.stacked.openRegions_of_not_opens hcmd hopens hcount

/-- The stack of regions behind a command. -/
theorem stacked_next (t : Tracks cs k r) (hcmd : cs[k]? = some cmd)
    (hcount : openCount cs (k + 1) = r'.stack.length) : Stacked cs (k + 1) := by
  intro n i hi
  cases hopens : cmd.opens with
  | true =>
    rw [openRegions_of_opens hcmd hopens, List.getElem?_append] at hi
    split at hi
    · exact t.stacked n i hi
    · next hn =>
      -- the region just opened is the last one, and as many were open as there are before it
      obtain ⟨h0, rfl⟩ : n - (openRegions cs k).length = 0 ∧ k = i := by
        rw [List.getElem?_singleton] at hi
        split at hi
        · next h0 => exact ⟨h0, Option.some.inj hi⟩
        · cases hi
      have hlen := t.length_openRegions
      rw [t.count]
      omega
  | false =>
    rw [t.openRegions_next hcmd hcount hopens, List.getElem?_take] at hi
    split at hi
    · exact t.stacked n i hi
    · cases hi

/-- A region that a command closes is one of the innermost, as many as the command closes. -/
theorem closed_at (t : Tracks cs k r) (hcount : openCount cs (k + 1) = r'.stack.length) {i : Nat}
    (h : ClosedBy cs i k) : ∃ n o, r'.stack.length ≤ n ∧
      (r.stack.map (·.1)).reverse[n]? = some o ∧ Marks cs i o := by
  obtain ⟨hopen, hclosed⟩ := h
  obtain ⟨n, hn⟩ := List.mem_iff_getElem?.1 (mem_openRegions.2 hopen)
  obtain ⟨o, ho, hmark⟩ := t.mark_at hn
  refine ⟨n, o, ?_, ho, hmark⟩
  rw [openAt_succ _ hopen.2.1, t.stacked n i hn, hcount] at hclosed
  by_contra hlt
  exact hclosed ⟨hopen, by omega⟩

/-- The innermost region, if it is left, is closed by this very command. -/
theorem closes_innermost (t : Tracks cs k r) (hcount : openCount cs (k + 1) = r'.stack.length)
    {o : Opened} (ho : r.stack.map (·.1) = o :: r'.stack.map (·.1)) :
    ∃ i, ClosedBy cs i k ∧ Marks cs i o := by
  have hlen : r.stack.length = r'.stack.length + 1 := by simpa using congrArg List.length ho
  have hlt : r'.stack.length < (openRegions cs k).length := by
    rw [t.length_openRegions, hlen]
    exact Nat.lt_succ_self _
  have hn := List.getElem?_eq_getElem hlt
  obtain ⟨o', ho', hmark⟩ := t.mark_at hn
  obtain rfl : o = o' := by
    rw [ho, List.reverse_cons, List.getElem?_append_right (by simp)] at ho'
    simpa using ho'
  have hopen := mem_openRegions.1 (List.getElem_mem hlt)
  refine ⟨_, ⟨hopen, fun hnext => ?_⟩, hmark⟩
  have hbelow := hnext.count_lt
  rw [hcount, t.stacked _ _ hn] at hbelow
  exact Int.lt_irrefl _ hbelow

theorem marks_next (t : Tracks cs k r) (hcmd : cs[k]? = some cmd)
    (hcount : openCount cs (k + 1) = r'.stack.length)
    (hmoves : Reader.Moves k (r.stack.map (·.1)) r.closed cmd (r'.stack.map (·.1)) r'.closed) :
    List.Forall₂ (Marks cs) (openRegions cs (k + 1)) (r'.stack.map (·.1)).reverse := by
  -- a region that is opened comes on top of both
  have hpush : ∀ o, Marks cs k o → r'.stack.map (·.1) = o :: r.stack.map (·.1) →
      cmd.opens = true →
      List.Forall₂ (Marks cs) (openRegions cs (k + 1)) (r'.stack.map (·.1)).reverse := by
    intro o hmark ho hopens
    rw [openRegions_of_opens hcmd hopens, ho, List.reverse_cons]
    exact List.rel_append t.marks (.cons hmark .nil)
  -- regions that are closed are taken from the end of both
  have hpop : ∀ n, r'.stack.map (·.1) = (r.stack.map (·.1)).drop n → cmd.opens = false →
      List.Forall₂ (Marks cs) (openRegions cs (k + 1)) (r'.stack.map (·.1)).reverse := by
    intro n hn hopens
    have hlen : r'.stack.length = r.stack.length - n := by simpa using congrArg List.length hn
    rw [t.openRegions_next hcmd hcount hopens, hn, List.reverse_drop, List.length_map, ← hlen]
    exact List.forall₂_take _ t.marks
  generalize r.stack.map (·.1) = open' at hmoves hpush hpop
  generalize r'.stack.map (·.1) = next at hmoves hpush hpop ⊢
  generalize r'.closed = last at hmoves
  cases hmoves with
  | whenBegin => exact hpush _ (.body hcmd) rfl rfl
  | altBegin follows => exact hpush _ (.alternative (t.closed _ follows) hcmd) rfl rfl
  | whenEnd innermost => exact hpop 1 (by rw [innermost]; rfl) rfl
  | otherwiseEnd elses => exact hpop _ rfl rfl
  | plain plain =>
    refine hpop 0 rfl ?_
    cases cmd with
    | whenBegin _ _ | whenEnd _ | altBegin _ | otherwiseEnd _ => cases plain
    | _ => rfl

theorem closed_next (t : Tracks cs k r) (hcmd : cs[k]? = some cmd)
    (hcount : openCount cs (k + 1) = r'.stack.length)
    (hmoves : Reader.Moves k (r.stack.map (·.1)) r.closed cmd (r'.stack.map (·.1)) r'.closed) :
    ∀ c, r'.closed = some c → EndsAt cs (k + 1) c := by
  intro c hc
  generalize hnext : r'.stack.map (·.1) = next at hmoves
  generalize r'.closed = last at hmoves hc
  cases hmoves with
  | whenEnd innermost =>
    obtain rfl := Option.some.inj hc
    rw [← hnext] at innermost
    obtain ⟨i, hends, hmark⟩ := t.closes_innermost hcount innermost
    cases hmark with
    | body begins => exact ⟨i, k, rfl, begins, hends⟩
  | whenBegin | altBegin _ | otherwiseEnd _ | plain _ => cases hc

theorem closers_next (t : Tracks cs k r) (hcmd : cs[k]? = some cmd)
    (hcount : openCount cs (k + 1) = r'.stack.length)
    (hmoves : Reader.Moves k (r.stack.map (·.1)) r.closed cmd (r'.stack.map (·.1)) r'.closed)
    {i : Nat} (h : ClosedBy cs i k) : Closer cs i cmd := by
  obtain ⟨n, o, hle, ho, hmark⟩ := t.closed_at hcount h
  have hlt : n < (r.stack.map (·.1)).length := by
    simpa using (List.getElem?_eq_some_iff.1 ho).1
  rw [List.getElem?_reverse hlt] at ho
  have hlen : r'.stack.length = (r'.stack.map (·.1)).length := by rw [List.length_map]
  rw [hlen] at hle
  generalize r.stack.map (·.1) = open' at hmoves ho hlt
  generalize r'.stack.map (·.1) = next at hmoves hle
  generalize r'.closed = last at hmoves
  cases hmoves with
  | whenEnd innermost =>
    subst innermost
    rw [List.length_cons] at ho hlt
    obtain rfl : n = next.length := by omega
    rw [Nat.add_sub_cancel, Nat.sub_self] at ho
    obtain rfl := Option.some.inj ho
    cases hmark with
    | body begins => exact .body begins
  | otherwiseEnd elses =>
    rw [List.length_drop] at hle
    obtain ⟨c, d, hget, hd⟩ := elses (open'.length - 1 - n) (by omega)
    obtain rfl := Option.some.inj (ho.symm.trans hget)
    cases hmark with
    | alternative _ begins => exact .alternative begins hd
  -- the other commands close nothing
  | whenBegin | altBegin _ =>
    rw [List.length_cons] at hle
    omega
  | plain _ => omega

/-- **One step.** -/
theorem step (t : Tracks cs k r) (hcmd : cs[k]? = some cmd) (h : r.step k cmd = .ok r') :
    Tracks cs (k + 1) r' := by
  have hcount : openCount cs (k + 1) = r'.stack.length := by
    rw [openCount_succ hcmd, t.count, Reader.length_step h]
  have hmoves := Reader.moves_step h
  have hfollows : r.Follows ⟨r.stack.map (·.1.guard), r.closed.map (·.pred)⟩ :=
    ⟨rfl, fun c hc => by rw [hc]; rfl⟩
  obtain ⟨-, hguarded⟩ := Reader.guarded_step hfollows h
  constructor
  · exact hcount
  · exact t.stacked_next hcmd hcount
  · exact t.marks_next hcmd hcount hmoves
  · exact t.closed_next hcmd hcount hmoves
  · rw [hguarded, List.map_append, t.listed, plainPositions_succ hcmd]
    cases cmd.isControl <;> rfl
  · intro e he
    rw [hguarded] at he
    rcases List.mem_append.1 he with he | he
    · exact t.guards e he
    · cases hcontrol : cmd.isControl with
      | true => simp [hcontrol] at he
      | false =>
        obtain rfl : e = (k, _) := by simpa [hcontrol] using he
        exact t.regionGuards
  · intro i j hj hclosed
    rcases Nat.lt_succ_iff_lt_or_eq.1 hj with hlt | rfl
    · exact t.closers i j hlt hclosed
    · exact ⟨cmd, hcmd, t.closers_next hcmd hcount hmoves hclosed⟩

/-- A whole run. -/
theorem run {rest : List Command} (t : Tracks cs k r) (hrest : cs.drop k = rest)
    (h : r.run k rest = .ok r') : Tracks cs (k + rest.length) r' := by
  induction rest generalizing k r with
  | nil =>
    obtain rfl := Except.ok.inj h
    exact t
  | cons cmd rest ih =>
    obtain ⟨r₁, hstep, hrun⟩ := Reader.run_cons_eq_ok.1 h
    have hcmd : cs[k]? = some cmd := by
      rw [← List.head?_drop, hrest]
      rfl
    have hnext : cs.drop (k + 1) = rest := by
      rw [← List.drop_drop, hrest]
      rfl
    have hend := ih (t.step hcmd hstep) hnext hrun
    rwa [List.length_cons, Nat.add_comm rest.length 1, ← Nat.add_assoc]

theorem start (cs : List Command) : Tracks cs 0 Reader.start where
  count := rfl
  stacked _ _ h := by cases h
  marks := .nil
  closed _ h := by cases h
  listed := rfl
  guards _ h := by cases h
  closers _ _ h := by omega

/-- Behind the stream nothing is closed any more. -/
theorem lt_of_closedBy {i j : Nat} (h : ClosedBy cs i j) : j < cs.length := by
  obtain ⟨hopen, hclosed⟩ := h
  by_contra hj
  have hcount : openCount cs (j + 1) = openCount cs j := by
    rw [openCount, openCount, List.take_of_length_le (by omega), List.take_of_length_le (by omega)]
  refine hclosed ((openAt_succ _ hopen.2.1).2 ⟨hopen, ?_⟩)
  rw [hcount]
  exact hopen.count_lt

/-- Behind the whole stream, the closers are those of all regions. -/
theorem allClosers (t : Tracks cs cs.length r) :
    ∀ i j, ClosedBy cs i j → ∃ cmd, cs[j]? = some cmd ∧ Closer cs i cmd :=
  fun i j h => t.closers i j (lt_of_closedBy h) h

end Tracks

section Unique

variable {cs : List Command}
  (closers : ∀ i j, ClosedBy cs i j → ∃ cmd, cs[j]? = some cmd ∧ Closer cs i cmd)

include closers

/-- A `WhenEnd` closes the region that is opened directly below the count. -/
theorem openCount_of_closedBy {i j : Nat} {pred : Operand} {depth : UInt32}
    (hbegun : cs[i]? = some (.whenBegin pred depth)) (h : ClosedBy cs i j) :
    openCount cs i = openCount cs j - 1 := by
  obtain ⟨cmd, hcmd, hcloser⟩ := closers i j h
  have hweight : cmd.weight = -1 := by
    cases hcloser with
    | body _ => rfl
    | alternative begun _ => cases hbegun.symm.trans begun
  have hnext := openCount_succ hcmd
  have hlt := h.1.count_lt
  have hle : ¬ openCount cs i < openCount cs (j + 1) :=
    fun hbelow => h.2 ((openAt_succ _ h.1.2.1).2 ⟨h.1, hbelow⟩)
  omega

/-- Each region asks for one thing only. -/
theorem RegionGuard.unique {i : Nat} {g g' : Guard} (h : RegionGuard cs i g)
    (h' : RegionGuard cs i g') : g = g' := by
  cases h with
  | body begun =>
    cases h' with
    | body begun' =>
      cases begun.symm.trans begun'
      rfl
    | alternative _ _ begun' => cases begun.symm.trans begun'
  | @alternative i j pred depth next clause ended begun =>
    -- the position is a variable, so that both sides can be the same one
    generalize hk : j + 1 = k at h' begun
    cases h' with
    | body begun' => cases begun.symm.trans begun'
    | @alternative i' j' pred' depth' next' clause' ended' begun' =>
      obtain rfl : j = j' := Nat.succ.inj hk
      have hcount := openCount_of_closedBy closers clause ended
      have hcount' := openCount_of_closedBy closers clause' ended'
      have hsame : i = i' := ended.1.eq_of_openCount ended'.1 (hcount.trans hcount'.symm)
      subst hsame
      cases clause.symm.trans clause'
      rfl

end Unique

/-! ## Then-blocks and else-blocks -/

namespace Block

/-- The then-block and the else-block of every clause that has both. -/
def splits : Block → List (Block × Block)
  | .empty => []
  | .command _ rest => rest.splits
  | .clause _ _ body rest => body.splits ++ rest.splits
  | .clauseElse _ _ body alternative rest =>
    (body, alternative) :: (body.splits ++ (alternative.splits ++ rest.splits))

/-- What a block lists below some guards has these guards. -/
theorem mem_of_mem_guardedBelow {b : Block} {g : Guard} : ∀ {path : List Guard}
    {e : Nat × List Guard}, g ∈ path → e ∈ b.guardedBelow path → g ∈ e.2 := by
  induction b with
  | empty => intro _ _ _ he; cases he
  | command i rest ih =>
    intro path e hg he
    rcases List.mem_cons.1 he with rfl | he
    · exact hg
    · exact ih hg he
  | clause p i body rest ihb ih =>
    intro path e hg he
    rcases List.mem_append.1 he with he | he
    · exact ihb (List.mem_append_left _ hg) he
    · exact ih hg he
  | clauseElse p i body alternative rest ihb iha ih =>
    intro path e hg he
    rcases List.mem_append.1 he with he | he
    · exact ihb (List.mem_append_left _ hg) he
    · rcases List.mem_append.1 he with he | he
      · exact iha (List.mem_append_left _ hg) he
      · exact ih hg he

/-- A then-block and its else-block are listed below opposite guards. -/
theorem guardedBelow_split {b : Block} : ∀ {s : Block × Block}, s ∈ b.splits → ∀ path : List Guard,
    ∃ (inner : List Guard) (pred : Operand),
      s.1.guardedBelow (inner ++ [⟨pred, true⟩]) ⊆ b.guardedBelow path ∧
      s.2.guardedBelow (inner ++ [⟨pred, false⟩]) ⊆ b.guardedBelow path := by
  induction b with
  | empty => intro _ hs; cases hs
  | command i rest ih =>
    intro s hs path
    obtain ⟨inner, pred, ht, he⟩ := ih hs path
    exact ⟨inner, pred, fun _ h => List.mem_cons_of_mem _ (ht h),
      fun _ h => List.mem_cons_of_mem _ (he h)⟩
  | clause p i body rest ihb ih =>
    intro s hs path
    rcases List.mem_append.1 hs with hs | hs
    · obtain ⟨inner, pred, ht, he⟩ := ihb hs (path ++ [⟨p, true⟩])
      exact ⟨inner, pred, List.subset_append_of_subset_left _ ht,
        List.subset_append_of_subset_left _ he⟩
    · obtain ⟨inner, pred, ht, he⟩ := ih hs path
      exact ⟨inner, pred, List.subset_append_of_subset_right _ ht,
        List.subset_append_of_subset_right _ he⟩
  | clauseElse p i body alternative rest ihb iha ih =>
    intro s hs path
    rcases List.mem_cons.1 hs with rfl | hs
    · exact ⟨path, p, List.subset_append_left _ _, List.subset_append_of_subset_right _
        (List.subset_append_left _ _)⟩
    rcases List.mem_append.1 hs with hs | hs
    · obtain ⟨inner, pred, ht, he⟩ := ihb hs (path ++ [⟨p, true⟩])
      exact ⟨inner, pred, List.subset_append_of_subset_left _ ht,
        List.subset_append_of_subset_left _ he⟩
    rcases List.mem_append.1 hs with hs | hs
    · obtain ⟨inner, pred, ht, he⟩ := iha hs (path ++ [⟨p, false⟩])
      exact ⟨inner, pred,
        List.subset_append_of_subset_right _ (List.subset_append_of_subset_left _ ht),
        List.subset_append_of_subset_right _ (List.subset_append_of_subset_left _ he)⟩
    · obtain ⟨inner, pred, ht, he⟩ := ih hs path
      exact ⟨inner, pred,
        List.subset_append_of_subset_right _ (List.subset_append_of_subset_right _ ht),
        List.subset_append_of_subset_right _ (List.subset_append_of_subset_right _ he)⟩

/-- The positions that a block lists are the same below any guards. -/
theorem exists_guardedBelow {b : Block} {p : Nat} (h : p ∈ b.guarded.map (·.1))
    (path : List Guard) : ∃ gs, (p, gs) ∈ b.guardedBelow path := by
  rw [guarded, map_guardedBelow, ← map_guardedBelow b path] at h
  obtain ⟨⟨_, gs⟩, hmem, rfl⟩ := List.mem_map.1 h
  exact ⟨gs, hmem⟩

/-- What takes effect at a position that is listed once has its guards met. -/
theorem allMet_of_active {b : Block} {holds : Operand → Bool} (hnodup : (b.guarded.map (·.1)).Nodup)
    {p : Nat} {gs : List Guard} (hlisted : (p, gs) ∈ b.guarded) (hactive : p ∈ b.active holds) :
    allMet holds gs = true := by
  rw [active_eq_filter] at hactive
  obtain ⟨e, he, hp⟩ := List.mem_map.1 hactive
  obtain ⟨hmem, hmet⟩ := List.mem_filter.1 he
  have heq : e = (p, gs) := List.inj_on_of_nodup_map hnodup hmem hlisted hp
  rwa [heq] at hmet

/-- A then-block and its else-block never take effect together. -/
theorem exclusive_of_split {b : Block} (hnodup : (b.guarded.map (·.1)).Nodup)
    (holds : Operand → Bool) {s : Block × Block} (hs : s ∈ b.splits) {p q : Nat}
    (hp : p ∈ s.1.guarded.map (·.1)) (hq : q ∈ s.2.guarded.map (·.1)) :
    ¬ (p ∈ b.active holds ∧ q ∈ b.active holds) := by
  rintro ⟨hpa, hqa⟩
  obtain ⟨inner, pred, hthen, helse⟩ := guardedBelow_split hs []
  obtain ⟨gs, hgs⟩ := exists_guardedBelow hp (inner ++ [⟨pred, true⟩])
  obtain ⟨gs', hgs'⟩ := exists_guardedBelow hq (inner ++ [⟨pred, false⟩])
  have hmet := List.all_eq_true.1 (allMet_of_active hnodup (hthen hgs) hpa)
  have hmet' := List.all_eq_true.1 (allMet_of_active hnodup (helse hgs') hqa)
  -- the same predicate would have both values
  have htrue := hmet ⟨pred, true⟩ (mem_of_mem_guardedBelow (List.mem_append_right _ (by simp)) hgs)
  have hfalse := hmet' ⟨pred, false⟩
    (mem_of_mem_guardedBelow (List.mem_append_right _ (by simp)) hgs')
  cases h : holds pred <;> simp [Guard.met, h] at htrue hfalse

/-- The nesting answers as the flat stream does. -/
structure AgreesWith (b : Block) (cs : List Command) : Prop where
  /-- Every command that marks no region is listed, once and in stream order. -/
  commands : b.guarded.map (·.1) = plainPositions cs cs.length
  /-- Its guards are those of the regions open at its position, outermost first. -/
  guards : ∀ e ∈ b.guarded, List.Forall₂ (RegionGuard cs) (openRegions cs e.1) e.2
  /-- An open region asks for one thing only. -/
  determined : ∀ i g g', RegionGuard cs i g → RegionGuard cs i g' → g = g'
  /-- A region is closed by a command of its kind. -/
  closers : ∀ i j, ClosedBy cs i j → ∃ cmd, cs[j]? = some cmd ∧ Closer cs i cmd
  /-- No region is left open. -/
  closed : openRegions cs cs.length = []
  /-- The commands that take effect are those whose guards are all met, in stream order. -/
  active : ∀ holds, b.active holds = (b.guarded.filter fun e => allMet holds e.2).map (·.1)
  /-- A then-block and its else-block never take effect together. -/
  exclusive : ∀ holds, ∀ s ∈ b.splits, ∀ p ∈ s.1.guarded.map (·.1), ∀ q ∈ s.2.guarded.map (·.1),
    ¬ (p ∈ b.active holds ∧ q ∈ b.active holds)

/-- A stream that can be read has been followed to its end. -/
theorem exists_tracks {cs : List Command} {b : Block} (h : ofCommands cs = .ok b) :
    ∃ r, Reader.start.run 0 cs = .ok r ∧ Tracks cs cs.length r ∧ b.guarded = r.guarded ∧
      r.stack = [] := by
  obtain ⟨r, hrun, hstack, rfl⟩ := ofCommands_eq_ok.1 h
  have t := (Tracks.start cs).run List.drop_zero hrun
  rw [Nat.zero_add] at t
  exact ⟨r, hrun, t, Reader.guarded_end hstack, hstack⟩

/-- **Nesting and stream agree.**  Of every stream that can be read, the nesting lists each command
    that marks no region once, in order, under the guards of the regions open at its position, and
    the commands that take effect are those whose guards are met. -/
theorem ofCommands_agree {cs : List Command} {b : Block} (h : ofCommands cs = .ok b) :
    b.AgreesWith cs := by
  obtain ⟨r, -, t, hguarded, hstack⟩ := exists_tracks h
  have hlisted : b.guarded.map (·.1) = plainPositions cs cs.length := by rw [hguarded, t.listed]
  have hnodup : (b.guarded.map (·.1)).Nodup := by
    rw [hlisted]
    exact List.nodup_range.filter _
  constructor
  · exact hlisted
  · rw [hguarded]
    exact t.guards
  · exact fun _ _ _ hg hg' => hg.unique t.allClosers hg'
  · exact t.allClosers
  · rw [← List.length_eq_zero_iff, t.length_openRegions, hstack, List.length_nil]
  · exact fun holds => active_eq_filter holds b
  · exact fun holds s hs p hp q hq => exclusive_of_split hnodup holds hs hp hq

/-- The last part of the chain of three is inside two else-regions, of the first clause and of the
    second. -/
theorem threeWay_agrees : ∃ b, ofCommands threeWay = .ok b ∧ b.AgreesWith threeWay ∧
    openRegions threeWay 8 = [3, 7] ∧
    (8, [⟨.node ⟨0⟩, false⟩, ⟨.node ⟨1⟩, false⟩]) ∈ b.guarded ∧ ClosedBy threeWay 3 9 ∧
    b.active (fun _ => false) = [8] :=
  ⟨_, rfl, ofCommands_agree rfl, by decide, by decide, by decide, by decide⟩

end Block

end Circuitry
