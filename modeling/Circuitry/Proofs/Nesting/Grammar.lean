/-
  Which streams can be read back: a grammar.

    Block    ::=  (command | Chain)*
    Chain    ::=  WhenBegin(p, 0) Block WhenEnd(0) [Else(1)]
    Else(d)  ::=  AltBegin(d) Items(d) OtherwiseEnd(d)
               |  AltBegin(d) Items(d) WhenBegin(p, d) Block WhenEnd(d) Else(d + 1)
    Items(d) ::=  (command | Chain | WhenBegin(p, d) Block WhenEnd(d))*

  where `command` is any command that marks no region.  A derivation (`Derives`) also says which
  nesting the stream has when it begins at a given position.  `Block.ofCommands` accepts exactly
  the streams that have a derivation from `Block`, and it returns the nesting of the derivation
  (`ofCommands_grammar`); with it every stream has at most one nesting (`Derives.unique`).

  One half is an induction on the derivation: each nonterminal is read the way that
  `Circuitry.Proofs.Nesting.Readback` says (`reads_of_derives`).

  The other half follows the reader.  What it has read is spelled out by its state (`Read`): the
  text in front of each open region, the body of the present block, and the text of the clause just
  closed.  The one command that ends several regions at once is an induction of its own, from the
  innermost else-region outwards: what is closed so far is an `Else(d)`, and the region around it is
  of depth `d - 1`, since a clause of a positive depth stands directly in the else-region of that
  depth (`read_closeElses`).
-/
import Circuitry.Proofs.Nesting.Readback

namespace Circuitry

open Region (Opened Clause Reader)
open Layout (clauseCommands length_clauseCommands)

/-! ## The grammar -/

/-- The nonterminals. -/
inductive Symbol where
  /-- The body of a region: a `Block`, or the `Items(d)` of an else-region of a depth `d`. -/
  | body (inside : Option UInt32)
  | chain
  /-- `Else(d)`, what follows the clause that it belongs to. -/
  | alternative (depth : UInt32)

abbrev Symbol.block : Symbol := .body none

abbrev Symbol.items (depth : UInt32) : Symbol := .body (some depth)

/-- `Derives s n cs b`: the symbol `s` derives the stream `cs`, and `b` is its nesting if the stream
    begins at position `n`. -/
inductive Derives : Symbol → Nat → List Command → Block → Prop
  | nothing {inside : Option UInt32} {n : Nat} : Derives (.body inside) n [] .empty
  | command {inside : Option UInt32} {n : Nat} {cmd : Command} {cs : List Command} {b : Block}
      (plain : cmd.isControl = false) (rest : Derives (.body inside) (n + 1) cs b) :
      Derives (.body inside) n (cmd :: cs) (.command n b)
  | chained {inside : Option UInt32} {n : Nat} {xs ys : List Command} {a b : Block}
      (chain : Derives .chain n xs a) (rest : Derives (.body inside) (n + xs.length) ys b) :
      Derives (.body inside) n (xs ++ ys) (a ++ b)
  /-- A clause of the depth of the else-region around it, with no else-part of its own. -/
  | clause {depth : UInt32} {n : Nat} {p : Operand} {xs ys : List Command} {a b : Block}
      (body : Derives .block (n + 1) xs a)
      (rest : Derives (.items depth) (n + (clauseCommands p depth xs).length) ys b) :
      Derives (.items depth) n (clauseCommands p depth xs ++ ys) (.clause p n a b)
  | short {n : Nat} {p : Operand} {xs : List Command} {a : Block}
      (body : Derives .block (n + 1) xs a) :
      Derives .chain n (clauseCommands p 0 xs) (.clause p n a .empty)
  | long {n : Nat} {p : Operand} {xs ys : List Command} {a b : Block}
      (body : Derives .block (n + 1) xs a)
      (alternative : Derives (.alternative 1) (n + (clauseCommands p 0 xs).length) ys b) :
      Derives .chain n (clauseCommands p 0 xs ++ ys) (.clauseElse p n a b .empty)
  | otherwise {depth : UInt32} {n : Nat} {xs : List Command} {a : Block}
      (items : Derives (.items depth) (n + 1) xs a) :
      Derives (.alternative depth) n (.altBegin depth :: (xs ++ [.otherwiseEnd depth])) a
  | elseWhen {depth next : UInt32} {n m : Nat} {p : Operand} {xs ys zs : List Command}
      {a b c : Block} (items : Derives (.items depth) (n + 1) xs a)
      (begun : m = n + 1 + xs.length) (body : Derives .block (m + 1) ys b)
      (succ : next.toNat = depth.toNat + 1)
      (alternative : Derives (.alternative next) (m + (clauseCommands p depth ys).length) zs c) :
      Derives (.alternative depth) n
        (.altBegin depth :: (xs ++ (clauseCommands p depth ys ++ zs)))
        (a ++ .clauseElse p m b c .empty)

namespace Derives

variable {inside : Option UInt32} {n : Nat} {xs ys : List Command} {a b : Block}

/-- One body after the other. -/
theorem append (hx : Derives (.body inside) n xs a)
    (hy : Derives (.body inside) (n + xs.length) ys b) :
    Derives (.body inside) n (xs ++ ys) (a ++ b) := by
  generalize hs : Symbol.body inside = s at hx
  induction hx with
  | nothing =>
    cases hs
    exact hy
  | command plain rest ih =>
    cases hs
    rw [List.length_cons, Nat.add_comm _ 1, ← Nat.add_assoc] at hy
    exact .command plain (ih hy rfl)
  | chained chain rest ih₁ ih =>
    cases hs
    rw [List.length_append, ← Nat.add_assoc] at hy
    rw [List.append_assoc, Block.append_assoc]
    exact .chained chain (ih hy rfl)
  | clause body rest ih₁ ih =>
    cases hs
    rw [List.length_append, ← Nat.add_assoc] at hy
    rw [List.append_assoc]
    exact .clause body (ih hy rfl)
  | short | long | otherwise | elseWhen => cases hs

/-- A chain at the end of a body. -/
theorem append_chain (hx : Derives (.body inside) n xs a)
    (hy : Derives .chain (n + xs.length) ys b) :
    Derives (.body inside) n (xs ++ ys) (a ++ b) := by
  have h := hx.append (hy.chained .nothing)
  rwa [List.append_nil, Block.append_empty] at h

end Derives

/-! ## What can be derived is read -/

namespace Region.Reader

/-- How the stream of a symbol is read. -/
def Reads : Symbol → Nat → List Command → Block → Prop
  | .body inside, n, cs, b => AddsIn inside n cs b
  | .chain, n, cs, b => Adds n cs b
  | .alternative depth, n, cs, b => Ends depth n cs (some b)

/-- A clause of depth 0 may be opened anywhere. -/
theorem adds_clause_chain {n : Nat} {p : Operand} {body tail : List Command} {b : Block}
    {alternative : Option Block} (hbody : Adds (n + 1) body b)
    (htail : Ends 1 (n + (clauseCommands p 0 body).length) tail alternative) :
    Adds n (clauseCommands p 0 body ++ tail) (Layout.arm p n b alternative) := by
  rw [length_clauseCommands] at htail
  exact adds_chain (adds_nil n) hbody htail

/-- In an else-region so may a clause of its depth. -/
theorem addsIn_clause {depth : UInt32} {n : Nat} {p : Operand} {body : List Command} {b : Block}
    (hbody : Adds (n + 1) body b) :
    AddsIn (some depth) n (clauseCommands p depth body) (.clause p n b .empty) := by
  intro r hr
  exact ⟨_, run_clauseCommands (.inr (hr depth rfl)) hbody, rfl⟩

/-- **Completeness.**  Every derivation is followed by the reader. -/
theorem reads_of_derives {s : Symbol} {n : Nat} {cs : List Command} {b : Block}
    (h : Derives s n cs b) : Reads s n cs b := by
  induction h with
  | nothing => exact (adds_nil _).inside _
  | command plain rest ih => exact ((adds_plain _ plain).inside _).append ih
  | chained chain rest ih₁ ih => exact (Adds.inside ih₁ _).append ih
  | clause body rest ih₁ ih => exact (addsIn_clause (AddsIn.adds ih₁)).append ih
  | @short n p xs a body ih =>
    have hchain := adds_clause_chain (p := p) (AddsIn.adds ih)
      (ends_close 1 (n + (clauseCommands p 0 xs).length))
    rwa [Layout.Tail.commands, if_neg (by decide), List.append_nil] at hchain
  | long body alternative ih₁ ih => exact adds_clause_chain (AddsIn.adds ih₁) ih
  | otherwise items ih => exact ends_otherwise ih
  | @elseWhen depth next n m p xs ys zs a b c items begun body succ alternative ih₁ ih₂ ih =>
    subst begun
    have hlt := next.toNat_lt
    have hnext : (depth + 1).toNat = depth.toNat + 1 := toNat_succ (by omega)
    obtain rfl : next = depth + 1 := UInt32.toNat.inj (succ.trans hnext.symm)
    rw [length_clauseCommands] at ih
    exact ends_elseWhen hnext ih₁ (AddsIn.adds ih₂) ih

/-! ## What is read can be derived -/

/-- The depth of the else-region that the present block is the body of. -/
def elseDepth? : List (Opened × Block) → Option UInt32
  | (.elseRegion _ depth, _) :: _ => some depth
  | _ => none

theorem insideElse_iff {r : Reader} {depth : UInt32} :
    r.insideElse depth = true ↔ elseDepth? r.stack = some depth := by
  obtain ⟨stack, block, closed⟩ := r
  rcases stack with _ | ⟨⟨_ | _, _⟩, _⟩ <;> simp [insideElse, elseDepth?]

/-- Where a clause of a depth may stand: directly in the else-region of that depth, unless the depth
    is 0. -/
def Stands (depth : UInt32) (stack : List (Opened × Block)) : Prop :=
  depth = 0 ∨ elseDepth? stack = some depth

/-- The text of a clause that has been closed, from its beginning at position `n` on. -/
structure Spells (n : Nat) (c : Clause) (cs : List Command) : Prop where
  begun : c.begun = n
  text : ∃ xs, Derives .block (n + 1) xs c.body ∧ cs = clauseCommands c.pred c.depth xs

/-- The text that opens the regions of a stack: `pre` ends with the command that opens the innermost
    one. -/
inductive Opens : List (Opened × Block) → List Command → Prop
  | none : Opens [] []
  | thenRegion {stack : List (Opened × Block)} {pre text : List Command} {outer : Block}
      {p : Operand} {depth : UInt32} (opens : Opens stack pre)
      (outside : Derives (.body (elseDepth? stack)) pre.length text outer)
      (stands : Stands depth stack) :
      Opens ((.thenRegion p (pre ++ text).length depth, outer) :: stack)
        (pre ++ text ++ [.whenBegin p depth])
  | elseRegion {stack : List (Opened × Block)} {pre text clause : List Command} {outer : Block}
      {c : Clause} {depth : UInt32} (opens : Opens stack pre)
      (outside : Derives (.body (elseDepth? stack)) pre.length text outer)
      (spells : Spells (pre ++ text).length c clause) (stands : Stands c.depth stack)
      (succ : c.depth.toNat + 1 = depth.toNat) :
      Opens ((.elseRegion c depth, outer) :: stack) (pre ++ text ++ clause ++ [.altBegin depth])

/-- `Read cs r`: the reader's state says how `cs` is put together. -/
inductive Read : List Command → Reader → Prop
  | within {stack : List (Opened × Block)} {pre text : List Command} {block : Block}
      (opens : Opens stack pre) (body : Derives (.body (elseDepth? stack)) pre.length text block) :
      Read (pre ++ text) ⟨stack, block, none⟩
  | behind {stack : List (Opened × Block)} {pre text clause : List Command} {block : Block}
      {c : Clause} (opens : Opens stack pre)
      (body : Derives (.body (elseDepth? stack)) pre.length text block)
      (spells : Spells (pre ++ text).length c clause) (stands : Stands c.depth stack) :
      Read (pre ++ text ++ clause) ⟨stack, block, some c⟩

theorem read_start : Read [] start := Read.within .none .nothing

/-- A clause that has no else-part is one more item of the body it stands in. -/
theorem derives_clause {stack : List (Opened × Block)} {pre text clause : List Command}
    {block : Block} {c : Clause}
    (body : Derives (.body (elseDepth? stack)) pre.length text block)
    (spells : Spells (pre ++ text).length c clause) (stands : Stands c.depth stack) :
    Derives (.body (elseDepth? stack)) pre.length (text ++ clause)
      (block ++ .clause c.pred c.begun c.body .empty) := by
  obtain ⟨hbegun, xs, hxs, rfl⟩ := spells
  rw [List.length_append] at hbegun hxs
  rw [hbegun]
  rcases stands with hzero | hinside
  · rw [hzero]
    exact body.append_chain (.short hxs)
  · rw [hinside] at body ⊢
    have hclause := body.append (.clause (p := c.pred) hxs .nothing)
    rwa [List.append_nil] at hclause

theorem Read.settle {cs : List Command} {r : Reader} (h : Read cs r) : Read cs r.settle := by
  cases h with
  | within opens body => exact .within opens body
  | behind opens body spells stands =>
    rw [settle_some, List.append_assoc]
    exact .within opens (derives_clause body spells stands)

/-- Reading with nothing just closed. -/
theorem read_settled {cs : List Command} {r : Reader} (h : Read cs r) :
    ∃ pre text, cs = pre ++ text ∧ Opens r.settle.stack pre ∧
      Derives (.body (elseDepth? r.settle.stack)) pre.length text r.settle.block := by
  have hnone := r.settle_closed
  have hsettle := h.settle
  generalize r.settle = q at hsettle hnone
  cases hsettle with
  | within opens body => exact ⟨_, _, rfl, opens, body⟩
  | behind => cases hnone

/-- The clause of an else-region is complete as soon as its else-part is. -/
theorem derives_clauseElse {n : Nat} {c : Clause} {clause alt : List Command} {depth : UInt32}
    {b : Block} (spells : Spells n c clause) (hzero : c.depth = 0)
    (succ : c.depth.toNat + 1 = depth.toNat)
    (halt : Derives (.alternative depth) (n + clause.length) alt b) :
    Derives .chain n (clause ++ alt) (.clauseElse c.pred c.begun c.body b .empty) := by
  obtain ⟨rfl, xs, hxs, rfl⟩ := spells
  obtain rfl : depth = 1 := UInt32.toNat.inj (by rw [← succ, hzero]; rfl)
  rw [hzero] at halt ⊢
  exact .long hxs halt

/-- **Closing else-regions.**  The region of clause `c` has just been closed: what followed the clause
    is an else-part.  The remaining ones are closed from the inside out. -/
theorem read_closes : ∀ {k : Nat} {stack : List (Opened × Block)} {outer b : Block}
    {c : Clause} {depth : UInt32} {pre text clause alt : List Command} {q : Reader},
    Opens stack pre → Derives (.body (elseDepth? stack)) pre.length text outer →
    Spells (pre ++ text).length c clause → Stands c.depth stack →
    c.depth.toNat = k → c.depth.toNat + 1 = depth.toNat →
    Derives (.alternative depth) ((pre ++ text).length + clause.length) alt b →
    Closes k ⟨stack, outer ++ .clauseElse c.pred c.begun c.body b .empty, none⟩ q →
    Read (pre ++ text ++ clause ++ alt) q
  | 0, stack, outer, b, c, depth, pre, text, clause, alt, q, opens, outside, spells, _, hk, succ,
      halt, hq => by
    cases hq
    have hzero : c.depth = 0 := UInt32.toNat.inj hk
    rw [List.length_append] at spells halt
    have hchain := derives_clauseElse spells hzero succ halt
    rw [List.append_assoc, List.append_assoc]
    exact .within opens (outside.append_chain hchain)
  | k + 1, stack, outer, b, c, depth, pre, text, clause, alt, q, opens, outside, spells, stands, hk,
      succ, halt, hq => by
    -- the clause has a positive depth, so the next region out is the else-region of that depth
    have hinside : elseDepth? stack = some c.depth := by
      rcases stands with hzero | hinside
      · rw [hzero] at hk
        cases hk
      · exact hinside
    cases opens with
    | none => cases hinside
    | thenRegion => cases hinside
    | @elseRegion stack pre₁ text₁ clause₁ outer₁ c₁ depth₁ opens₁ outside₁ spells₁ stands₁ succ₁ =>
      obtain rfl : depth₁ = c.depth := Option.some.inj hinside
      cases hq with
      | next _ rest =>
        -- the clause ends the items of that region, and the else-part just read goes on
        obtain ⟨hbegun, xs, hxs, rfl⟩ := spells
        have hpos : (pre₁ ++ text₁ ++ clause₁ ++ [Command.altBegin c.depth] ++ text).length =
            (pre₁ ++ text₁).length + clause₁.length + 1 + text.length := by
          simp only [List.length_append, List.length_singleton]
        have hlen : (pre₁ ++ text₁ ++ clause₁ ++ [Command.altBegin c.depth]).length =
            (pre₁ ++ text₁).length + clause₁.length + 1 := by
          simp only [List.length_append, List.length_singleton]
        rw [hpos] at hbegun hxs halt
        rw [hlen] at outside
        have hnext : Derives (.alternative c.depth) ((pre₁ ++ text₁).length + clause₁.length)
            (.altBegin c.depth :: (text ++ (clauseCommands c.pred c.depth xs ++ alt)))
            (outer ++ .clauseElse c.pred c.begun c.body b .empty) := by
          rw [hbegun]
          exact .elseWhen outside rfl hxs succ.symm halt
        have hk₁ : c₁.depth.toNat = k := by omega
        have hread := read_closes opens₁ outside₁ spells₁ stands₁ hk₁ succ₁ hnext rest
        simpa only [List.append_assoc, List.cons_append, List.nil_append] using hread

/-- The end of a then-region: what has been read inside it is the body of a clause. -/
theorem read_whenEnd {stack : List (Opened × Block)} {pre text : List Command} {p : Operand}
    {begun : Nat} {depth : UInt32} {outer b : Block}
    (opens : Opens ((.thenRegion p begun depth, outer) :: stack) pre)
    (body : Derives (.body none) pre.length text b) :
    Read (pre ++ text ++ [.whenEnd depth]) ⟨stack, outer, some ⟨p, begun, b, depth⟩⟩ := by
  cases opens with
  | @thenRegion _ pre₁ text₁ _ _ _ opens₁ outside₁ stands₁ =>
    have hpre : (pre₁ ++ text₁ ++ [Command.whenBegin p depth]).length =
        (pre₁ ++ text₁).length + 1 := by
      simp only [List.length_append, List.length_singleton]
    rw [hpre] at body
    have hspells : Spells (pre₁ ++ text₁).length ⟨p, (pre₁ ++ text₁).length, b, depth⟩
        (clauseCommands p depth text) := ⟨rfl, text, body, rfl⟩
    have hread := Read.behind opens₁ outside₁ hspells stands₁
    simpa only [clauseCommands, List.append_assoc, List.cons_append, List.nil_append] using hread

/-- The end of an `otherwise`: what has been read inside the innermost else-region is its else-part. -/
theorem read_otherwiseEnd {stack : List (Opened × Block)} {pre text : List Command}
    {depth : UInt32} {b : Block} {closed : Option Clause} {q : Reader} (nonzero : depth ≠ 0)
    (opens : Opens stack pre) (body : Derives (.body (elseDepth? stack)) pre.length text b)
    (closes : Closes depth.toNat ⟨stack, b, closed⟩ q) :
    Read (pre ++ text ++ [.otherwiseEnd depth]) q := by
  obtain ⟨k, hk⟩ : ∃ k, depth.toNat = k + 1 :=
    Nat.exists_eq_succ_of_ne_zero fun h0 => nonzero (UInt32.toNat.inj h0)
  rw [hk] at closes
  cases closes with
  | @next _ c d outer _ _ _ _ innermost rest =>
    obtain rfl : d = depth := UInt32.toNat.inj (innermost.trans hk.symm)
    cases opens with
    | @elseRegion stack pre₁ text₁ clause₁ outer c d opens₁ outside₁ spells₁ stands₁ succ₁ =>
      have hpre : (pre₁ ++ text₁ ++ clause₁ ++ [Command.altBegin d]).length =
          (pre₁ ++ text₁).length + clause₁.length + 1 := by
        simp only [List.length_append, List.length_singleton]
      rw [hpre] at body
      have halt := Derives.otherwise body
      have hread := read_closes opens₁ outside₁ spells₁ stands₁ (by omega) succ₁ halt rest
      simpa only [List.append_assoc, List.cons_append, List.nil_append] using hread

/-- **One step.**  What is read to the next state is spelled by it. -/
theorem Read.step {cs : List Command} {r r' : Reader} {cmd : Command} (h : Read cs r)
    (hstep : r.step cs.length cmd = .ok r') : Read (cs ++ [cmd]) r' := by
  have hsettled := read_settled h
  cases step_iff.1 hstep with
  | plain plain =>
    obtain ⟨pre, text, rfl, opens, body⟩ := hsettled
    rw [List.length_append, List.append_assoc]
    exact .within opens (body.append (.command plain .nothing))
  | @whenBegin p _ stands =>
    obtain ⟨pre, text, rfl, opens, body⟩ := hsettled
    rw [insideElse_iff] at stands
    have hread := Read.within (.thenRegion (p := p) opens body stands) .nothing
    rwa [List.append_nil] at hread
  | whenEnd innermost =>
    obtain ⟨pre, text, rfl, opens, body⟩ := hsettled
    rw [innermost] at opens body
    exact read_whenEnd opens body
  | altBegin follows succ =>
    cases h with
    | within => cases follows
    | behind opens body spells stands =>
      obtain rfl := Option.some.inj follows
      have hread := Read.within (.elseRegion opens body spells stands succ) .nothing
      rwa [List.append_nil] at hread
  | otherwiseEnd nonzero closes =>
    obtain ⟨pre, text, rfl, opens, body⟩ := hsettled
    exact read_otherwiseEnd nonzero opens body closes

/-- **A whole run.** -/
theorem Read.run {r r' : Reader} {ds : List Command} : ∀ {cs : List Command}, Read cs r →
    r.run cs.length ds = .ok r' → Read (cs ++ ds) r' := by
  induction ds generalizing r with
  | nil =>
    intro cs h hrun
    obtain rfl := Except.ok.inj hrun
    rwa [List.append_nil]
  | cons cmd ds ih =>
    intro cs h hrun
    obtain ⟨r₁, hstep, hrest⟩ := run_cons_eq_ok.1 hrun
    have hlen : (cs ++ [cmd]).length = cs.length + 1 := by simp
    rw [← hlen] at hrest
    have hread := ih (h.step hstep) hrest
    rwa [List.append_assoc] at hread

/-! ## Depths -/

/-- The depth of an else-region is at most the number of commands before its body. -/
theorem Opens.depth_le {stack : List (Opened × Block)} {pre : List Command} {depth : UInt32}
    (h : Opens stack pre) (hinside : elseDepth? stack = some depth) : depth.toNat ≤ pre.length := by
  induction h generalizing depth with
  | none => cases hinside
  | thenRegion => cases hinside
  | @elseRegion stack pre text clause outer c d opens outside spells stands succ ih =>
    obtain rfl := Option.some.inj hinside
    simp only [List.length_append, List.length_singleton]
    rcases stands with hzero | hinside
    · rw [hzero] at succ
      have hone : d.toNat = 1 := succ.symm
      omega
    · have hle := ih hinside
      omega

/-- A clause just closed is of a smaller depth still: it has two commands of its own. -/
theorem Read.depth_lt {cs : List Command} {r : Reader} {c : Clause} (h : Read cs r)
    (hc : r.closed = some c) : c.depth.toNat < cs.length := by
  cases h with
  | within => cases hc
  | behind opens body spells stands =>
    obtain rfl := Option.some.inj hc
    obtain ⟨-, xs, -, rfl⟩ := spells
    simp only [List.length_append, length_clauseCommands]
    rcases stands with hzero | hinside
    · rw [hzero]
      exact Nat.lt_of_lt_of_le (Nat.succ_pos _) (Nat.le_add_left _ _)
    · have hle := opens.depth_le hinside
      omega

end Region.Reader

/-! ## The grammar is what is accepted -/

namespace Block

open Region.Reader

theorem ofCommands_of_derives {cs : List Command} {b : Block} (h : Derives .block 0 cs b) :
    ofCommands cs = .ok b := by
  obtain ⟨r, hr, hs⟩ := reads_of_derives h start fun _ hd => by cases hd
  have hstack : r.stack = [] := by
    rw [← stack_settle, hs]
    rfl
  refine ofCommands_eq_ok.2 ⟨r, hr, hstack, ?_⟩
  rw [hs]
  rfl

theorem derives_of_ofCommands {cs : List Command} {b : Block} (h : ofCommands cs = .ok b) :
    Derives .block 0 cs b := by
  obtain ⟨r, hrun, hstack, rfl⟩ := ofCommands_eq_ok.1 h
  have hread : Read cs r := read_start.run hrun
  obtain ⟨pre, text, rfl, opens, body⟩ := read_settled hread
  rw [stack_settle, hstack] at opens body
  cases opens with
  | none => exact body

/-- **The grammar.**  A stream is accepted with a nesting exactly if it derives from `Block` with that
    nesting; every other stream is refused with an error; and while a stream of fewer than
    `2 ^ 32` commands is read, the depth of a clause just closed has a successor. -/
theorem ofCommands_grammar (cs : List Command) :
    (∀ b, ofCommands cs = .ok b ↔ Derives .block 0 cs b) ∧
    ((∃ f, ofCommands cs = .error f) ↔ ∀ b, ¬ Derives .block 0 cs b) ∧
    (cs.length < 2 ^ 32 → ∀ pre rest r c, cs = pre ++ rest → start.run 0 pre = .ok r →
      r.closed = some c → (c.depth + 1).toNat = c.depth.toNat + 1) := by
  have hiff : ∀ b, ofCommands cs = .ok b ↔ Derives .block 0 cs b :=
    fun b => ⟨derives_of_ofCommands, ofCommands_of_derives⟩
  refine ⟨hiff, ⟨?_, fun hnone => ?_⟩, ?_⟩
  · rintro ⟨f, hf⟩ b hb
    rw [(hiff b).2 hb] at hf
    cases hf
  · cases h : ofCommands cs with
    | ok b => exact absurd ((hiff b).1 h) (hnone b)
    | error f => exact ⟨f, rfl⟩
  · rintro hlen pre rest r c rfl hrun hc
    have hlt := (read_start.run hrun).depth_lt hc
    rw [List.length_append] at hlen
    rw [List.nil_append] at hlt
    exact toNat_succ (by omega)

/-- Two clauses of one chain, and what is done otherwise. -/
def threeWay : List Command :=
  [.whenBegin (.node ⟨0⟩) 0, .connect ⟨2⟩ (.node ⟨0⟩), .whenEnd 0,
    .altBegin 1, .whenBegin (.node ⟨1⟩) 1, .connect ⟨2⟩ (.node ⟨1⟩), .whenEnd 1,
      .altBegin 2, .connect ⟨3⟩ (.node ⟨1⟩), .otherwiseEnd 2]

/-- The chain derives with its nesting; without its last command, or with a command between a clause
    and its else-part, it has none; and behind its second clause there is a next depth. -/
theorem threeWay_grammar :
    Derives .block 0 threeWay
      (.clauseElse (.node ⟨0⟩) 0 (.command 1 .empty)
        (.clauseElse (.node ⟨1⟩) 4 (.command 5 .empty) (.command 8 .empty) .empty) .empty) ∧
    (∀ b, ¬ Derives .block 0 threeWay.dropLast b) ∧
    (∀ b, ¬ Derives .block 0 (threeWay.insertIdx 3 (.connect ⟨2⟩ (.node ⟨0⟩))) b) ∧
    ((1 : UInt32) + 1).toNat = (1 : UInt32).toNat + 1 :=
  ⟨((ofCommands_grammar threeWay).1 _).1 rfl,
    (ofCommands_grammar threeWay.dropLast).2.1.1 ⟨.unclosed 2, rfl⟩,
    (ofCommands_grammar (threeWay.insertIdx 3 _)).2.1.1 ⟨.orphanAlt 4 1, rfl⟩,
    (ofCommands_grammar threeWay).2.2 (by decide) (threeWay.take 7) (threeWay.drop 7) _
      ⟨.node ⟨1⟩, 4, .command 5 .empty, 1⟩ (List.take_append_drop 7 threeWay).symm rfl rfl⟩

end Block

/-- A stream has at most one nesting. -/
theorem Derives.unique {cs : List Command} {a b : Block} (ha : Derives .block 0 cs a)
    (hb : Derives .block 0 cs b) : a = b :=
  Except.ok.inj ((Block.ofCommands_of_derives ha).symm.trans (Block.ofCommands_of_derives hb))

end Circuitry
