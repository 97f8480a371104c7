/-
  Which arm of a chain takes effect.

  An arm takes effect under a truth assignment when every guard around its body is met.  Among the
  arms of a chain whose surrounding guards are met, these are exactly the first arm whose predicate
  holds, if there is one (`exclusive_of_mem_chains`); a chain with an `otherwise` always has one.

  The guards of an arm are not only a reading of the layout: `listedIn_block` says that the nesting
  lists the commands of the arm's body, one after the other, under exactly these guards.  And the
  commands that take effect in a nesting are those whose guards are all met (`active_eq_filter`).
-/
import Circuitry.Proofs.Nesting.Layout

namespace Circuitry

namespace Block

/-! ## Guards of joined blocks -/

@[simp] theorem guardedBelow_append (path : List Guard) (a b : Block) :
    (a ++ b).guardedBelow path = a.guardedBelow path ++ b.guardedBelow path := by
  induction a with
  | empty => rfl
  | command i rest ih => simp [guardedBelow, ih]
  | clause p i body rest _ ih => simp [guardedBelow, ih]
  | clauseElse p i body alternative rest _ _ ih => simp [guardedBelow, ih]

/-- Whether all guards of a path are met. -/
abbrev allMet (holds : Operand → Bool) (path : List Guard) : Bool := path.all (Guard.met holds)

theorem allMet_concat (holds : Operand → Bool) (path : List Guard) (g : Guard) :
    allMet holds (path ++ [g]) = (allMet holds path && g.met holds) := by
  simp [allMet]

/-- Below a path that is met it is the last guard that counts. -/
theorem allMet_then {holds : Operand → Bool} {path : List Guard} (h : allMet holds path = true)
    (p : Operand) : allMet holds (path ++ [⟨p, true⟩]) = holds p := by
  rw [allMet_concat, h]
  simp [Guard.met]

theorem allMet_else {holds : Operand → Bool} {path : List Guard} (h : allMet holds path = true)
    (p : Operand) : allMet holds (path ++ [⟨p, false⟩]) = !holds p := by
  rw [allMet_concat, h]
  simp [Guard.met]

/-- A path that is not met is not met with one more guard. -/
theorem not_allMet_concat {holds : Operand → Bool} {path : List Guard}
    (h : allMet holds path = false) (g : Guard) : allMet holds (path ++ [g]) = false := by
  rw [allMet_concat, h]
  rfl

/-- A path only depends on its predicates. -/
theorem allMet_congr {holds holds' : Operand → Bool} : ∀ {path : List Guard},
    (∀ g ∈ path, holds g.pred = holds' g.pred) → allMet holds path = allMet holds' path
  | [], _ => rfl
  | g :: path, h => by
    have hg : g.met holds = g.met holds' := by
      rw [Guard.met, Guard.met, h g (List.mem_cons_self ..)]
    have hrest := allMet_congr fun g hg => h g (List.mem_cons_of_mem _ hg)
    show (g.met holds && allMet holds path) = (g.met holds' && allMet holds' path)
    rw [hg, hrest]

/-- Below a path that is not met nothing is met. -/
theorem filter_guardedBelow_of_not_met {holds : Operand → Bool} (b : Block) :
    ∀ path : List Guard, allMet holds path = false →
      (b.guardedBelow path).filter (fun e => allMet holds e.2) = [] := by
  induction b with
  | empty => intros; rfl
  | command i rest ih =>
    intro path h
    simp [guardedBelow, h, ih path h]
  | clause p i body rest ihb ih =>
    intro path h
    have hbody := ihb (path ++ [⟨p, true⟩]) (not_allMet_concat h _)
    simp only [guardedBelow, List.filter_append, hbody, ih path h, List.append_nil]
  | clauseElse p i body alternative rest ihb iha ih =>
    intro path h
    have hbody := ihb (path ++ [⟨p, true⟩]) (not_allMet_concat h _)
    have halt := iha (path ++ [⟨p, false⟩]) (not_allMet_concat h _)
    simp only [guardedBelow, List.filter_append, hbody, halt, ih path h, List.append_nil]

/-- Below a path that is met, the commands that take effect are those whose guards are met. -/
theorem map_filter_guardedBelow {holds : Operand → Bool} (b : Block) :
    ∀ {path : List Guard}, allMet holds path = true →
      ((b.guardedBelow path).filter (fun e => allMet holds e.2)).map (·.1) = b.active holds := by
  induction b with
  | empty => intros; rfl
  | command i rest ih =>
    intro path h
    simp [guardedBelow, active, h, ih h]
  | clause p i body rest ihb ih =>
    intro path h
    have hpath := allMet_then h p
    simp only [guardedBelow, active, List.filter_append, List.map_append, ih h]
    cases hp : holds p with
    | true => rw [ihb (hpath.trans hp)]; rfl
    -- the predicate is a guard of all that the body lists
    | false => rw [filter_guardedBelow_of_not_met body _ (hpath.trans hp)]; rfl
  | clauseElse p i body alternative rest ihb iha ih =>
    intro path h
    have hthen := allMet_then h p
    have helse := allMet_else h p
    simp only [guardedBelow, active, List.filter_append, List.map_append, ih h]
    cases hp : holds p with
    | true =>
      rw [ihb (hthen.trans hp), filter_guardedBelow_of_not_met alternative _ (by rw [helse, hp]; rfl)]
      rfl
    | false =>
      rw [iha (by rw [helse, hp]; rfl), filter_guardedBelow_of_not_met body _ (hthen.trans hp)]
      rfl

/-- The commands that take effect are those whose guards are all met, in stream order. -/
theorem active_eq_filter (holds : Operand → Bool) (b : Block) :
    b.active holds = (b.guarded.filter fun e => allMet holds e.2).map (·.1) :=
  (map_filter_guardedBelow b rfl).symm

end Block

namespace Layout

open Block (allMet allMet_concat allMet_then allMet_else not_allMet_concat)

/-! ## The arms of one chain -/

/-- Whether an arm takes effect. -/
abbrev Arm.taken (holds : Operand → Bool) (a : Arm) : Bool := allMet holds a.path

/-- Whether the predicate of an arm holds; that of an `otherwise` always does. -/
def Arm.enabled (holds : Operand → Bool) (a : Arm) : Bool := a.pred.all holds

/-- After a clause that was taken, nothing that follows it is. -/
theorem filter_arms_of_not_met {holds : Operand → Bool} : ∀ (t : Tail) (path : List Guard)
    (start : Nat), allMet holds path = false → (t.arms path start).filter (Arm.taken holds) = []
  | .close, _, _, _ => rfl
  | .otherwise body, path, start, h => by
    simp [Tail.arms, Arm.taken, h]
  | .elseWhen cond pred body tail, path, start, h => by
    have htail := filter_arms_of_not_met tail (path ++ [⟨pred, false⟩])
      (clauseEnd (start + 1 + cond.commands.length) body) (not_allMet_concat h _)
    simp only [Tail.arms, List.filter_cons, htail, Arm.taken, allMet_concat, h]
    rfl

/-- A first arm and what follows it: the first enabled arm is the one that is taken. -/
theorem filter_taken_cons {holds : Operand → Bool} {path : List Guard} {pred : Operand}
    {start : Nat} {body : Layout} {rest : List Arm} (h : allMet holds path = true)
    (hfirst : holds pred = true → rest.filter (Arm.taken holds) = [])
    (hlater : holds pred = false →
      rest.filter (Arm.taken holds) = (rest.find? (Arm.enabled holds)).toList) :
    let arms := (⟨path ++ [⟨pred, true⟩], some pred, start, body⟩ : Arm) :: rest
    arms.filter (Arm.taken holds) = (arms.find? (Arm.enabled holds)).toList := by
  intro arms
  have htaken := allMet_then h pred
  cases hp : holds pred with
  | true => simp [arms, Arm.taken, Arm.enabled, htaken, hp, hfirst hp]
  | false => simp [arms, Arm.taken, Arm.enabled, htaken, hp, hlater hp]

theorem filter_arms {holds : Operand → Bool} : ∀ (t : Tail) {path : List Guard} (start : Nat),
    allMet holds path = true →
    (t.arms path start).filter (Arm.taken holds) =
      ((t.arms path start).find? (Arm.enabled holds)).toList
  | .close, _, _, _ => rfl
  | .otherwise body, path, start, h => by
    simp [Tail.arms, Arm.taken, Arm.enabled, h]
  | .elseWhen cond pred body tail, path, start, h => by
    refine filter_taken_cons h (fun hp => ?_) (fun hp => ?_)
    · exact filter_arms_of_not_met tail _ _ (by rw [allMet_else h, hp]; rfl)
    · exact filter_arms tail _ (by rw [allMet_else h, hp]; rfl)

/-- A chain with an `otherwise` has an enabled arm. -/
theorem exists_enabled_arm (holds : Operand → Bool) : ∀ (t : Tail) (path : List Guard) (start : Nat),
    t.total = true → ∃ a ∈ t.arms path start, Arm.enabled holds a = true
  | .close, _, _, h => by cases h
  | .otherwise body, path, start, _ => ⟨_, List.mem_cons_self .., rfl⟩
  | .elseWhen cond pred body tail, path, start, h => by
    obtain ⟨a, ha, hfirst⟩ := exists_enabled_arm holds tail (path ++ [⟨pred, false⟩])
      (clauseEnd (start + 1 + cond.commands.length) body) h
    exact ⟨a, List.mem_cons_of_mem _ ha, hfirst⟩

/-! ## All chains of a layout -/

/-- Of the arms of a chain, the first one whose predicate holds is taken and no other; if the chain
    ends with an `otherwise`, there is one. -/
structure ChainAt.Exclusive (holds : Operand → Bool) (ch : ChainAt) : Prop where
  taken : ch.arms.filter (Arm.taken holds) = (ch.arms.find? (Arm.enabled holds)).toList
  total : ch.total = true → ∃ a, ch.arms.find? (Arm.enabled holds) = some a

/-- A first clause with what follows it. -/
theorem exclusive_chain {holds : Operand → Bool} {path : List Guard} (pred : Operand)
    (start next : Nat) (body : Layout) (tail : Tail) (h : allMet holds path = true) :
    ChainAt.Exclusive holds ⟨path, ⟨path ++ [⟨pred, true⟩], some pred, start, body⟩ ::
      tail.arms (path ++ [⟨pred, false⟩]) next, tail.total⟩ where
  taken := by
    refine filter_taken_cons h (fun hp => ?_) (fun hp => ?_)
    · exact filter_arms_of_not_met tail _ _ (by rw [allMet_else h, hp]; rfl)
    · exact filter_arms tail _ (by rw [allMet_else h, hp]; rfl)
  total := by
    intro ht
    obtain ⟨a, ha, hen⟩ := exists_enabled_arm holds tail (path ++ [⟨pred, false⟩]) next ht
    exact Option.isSome_iff_exists.1 (List.find?_isSome.2 ⟨a, List.mem_cons_of_mem _ ha, hen⟩)

mutual

/-- Wherever the guards around a chain are met, its arms exclude each other. -/
theorem exclusive_of_mem_chains {holds : Operand → Bool} : ∀ (l : Layout) (path : List Guard)
    (start : Nat) (ch : ChainAt), ch ∈ l.chains path start → allMet holds ch.path = true →
    ch.Exclusive holds
  | .done, _, _, _, h, _ => by cases h
  | .command _ _ rest, path, start, ch, h, hp =>
    exclusive_of_mem_chains rest path (start + 1) ch h hp
  | .chain cond pred body tail rest, path, start, ch, h, hp => by
    simp only [chains, List.mem_append, List.mem_cons] at h
    rcases h with h | rfl | h | h | h
    · exact exclusive_of_mem_chains cond _ _ ch h hp
    · exact exclusive_chain pred _ _ body tail hp
    · exact exclusive_of_mem_chains body _ _ ch h hp
    · exact exclusive_of_mem_tail tail _ _ ch h hp
    · exact exclusive_of_mem_chains rest _ _ ch h hp

theorem exclusive_of_mem_tail {holds : Operand → Bool} : ∀ (t : Tail) (path : List Guard)
    (start : Nat) (ch : ChainAt), ch ∈ t.chains path start → allMet holds ch.path = true →
    ch.Exclusive holds
  | .close, _, _, _, h, _ => by cases h
  | .otherwise body, path, start, ch, h, hp =>
    exclusive_of_mem_chains body path (start + 1) ch h hp
  | .elseWhen cond pred body tail, path, start, ch, h, hp => by
    simp only [Tail.chains, List.mem_append] at h
    rcases h with h | h | h
    · exact exclusive_of_mem_chains cond _ _ ch h hp
    · exact exclusive_of_mem_chains body _ _ ch h hp
    · exact exclusive_of_mem_tail tail _ _ ch h hp

end

/-! ## Arms in the nesting -/

/-- The commands of an else-part with their guards, if there is an else-part. -/
def guardedPart (path : List Guard) (b : Option Block) : List (Nat × List Guard) :=
  b.elim [] (Block.guardedBelow path)

theorem guardedBelow_arm (path : List Guard) (pred : Operand) (begun : Nat) (body : Block)
    (alternative : Option Block) :
    (arm pred begun body alternative).guardedBelow path =
      body.guardedBelow (path ++ [⟨pred, true⟩]) ++
        guardedPart (path ++ [⟨pred, false⟩]) alternative := by
  cases alternative <;> simp [arm, Block.guardedBelow, guardedPart]

/-- The nesting lists the body of the arm under the guards of the arm. -/
def Arm.ListedIn (a : Arm) (entries : List (Nat × List Guard)) : Prop :=
  (a.body.block a.start).guardedBelow a.path <:+: entries

theorem Arm.ListedIn.append_left {a : Arm} {xs : List (Nat × List Guard)} (h : a.ListedIn xs)
    (ys : List (Nat × List Guard)) : a.ListedIn (ys ++ xs) :=
  h.trans (List.suffix_append ys xs).isInfix

theorem Arm.ListedIn.append_right {a : Arm} {xs : List (Nat × List Guard)} (h : a.ListedIn xs)
    (ys : List (Nat × List Guard)) : a.ListedIn (xs ++ ys) :=
  h.trans (List.prefix_append xs ys).isInfix

theorem listedIn_arms : ∀ (t : Tail) (path : List Guard) (start : Nat) (a : Arm),
    a ∈ t.arms path start → a.ListedIn (guardedPart path (t.alternative start))
  | .close, _, _, _, h => by cases h
  | .otherwise body, path, start, a, h => by
    obtain rfl := List.mem_singleton.1 h
    exact List.infix_rfl
  | .elseWhen cond pred body tail, path, start, a, h => by
    simp only [Tail.alternative, guardedPart, Option.elim_some, Block.guardedBelow_append,
      guardedBelow_arm]
    refine Arm.ListedIn.append_left ?_ _
    rcases List.mem_cons.1 h with rfl | h
    · exact Arm.ListedIn.append_right List.infix_rfl _
    · exact (listedIn_arms tail _ _ a h).append_left _

mutual

/-- Every arm of every chain is listed in the nesting, under its own guards. -/
theorem listedIn_block : ∀ (l : Layout) (path : List Guard) (start : Nat) (ch : ChainAt) (a : Arm),
    ch ∈ l.chains path start → a ∈ ch.arms → a.ListedIn ((l.block start).guardedBelow path)
  | .done, _, _, _, _, h, _ => by cases h
  | .command _ _ rest, path, start, ch, a, h, ha =>
    (listedIn_block rest path (start + 1) ch a h ha).append_left [(start, path)]
  | .chain cond pred body tail rest, path, start, ch, a, h, ha => by
    simp only [block, Block.guardedBelow_append, guardedBelow_arm]
    simp only [chains, List.mem_append, List.mem_cons] at h
    rcases h with h | rfl | h | h | h
    · exact (listedIn_block cond _ _ ch a h ha).append_right _
    · refine Arm.ListedIn.append_left (Arm.ListedIn.append_right ?_ _) _
      rcases List.mem_cons.1 ha with rfl | ha
      · exact Arm.ListedIn.append_right List.infix_rfl _
      · exact (listedIn_arms tail _ _ a ha).append_left _
    · exact (((listedIn_block body _ _ ch a h ha).append_right _).append_right _).append_left _
    · exact (((listedIn_part tail _ _ ch a h ha).append_left _).append_right _).append_left _
    · exact ((listedIn_block rest _ _ ch a h ha).append_left _).append_left _

theorem listedIn_part : ∀ (t : Tail) (path : List Guard) (start : Nat) (ch : ChainAt) (a : Arm),
    ch ∈ t.chains path start → a ∈ ch.arms → a.ListedIn (guardedPart path (t.alternative start))
  | .close, _, _, _, _, h, _ => by cases h
  | .otherwise body, path, start, ch, a, h, ha => listedIn_block body path (start + 1) ch a h ha
  | .elseWhen cond pred body tail, path, start, ch, a, h, ha => by
    simp only [Tail.alternative, guardedPart, Option.elim_some, Block.guardedBelow_append,
      guardedBelow_arm]
    simp only [Tail.chains, List.mem_append] at h
    rcases h with h | h | h
    · exact (listedIn_block cond _ _ ch a h ha).append_right _
    · exact ((listedIn_block body _ _ ch a h ha).append_right _).append_left _
    · exact ((listedIn_part tail _ _ ch a h ha).append_left _).append_left _

end

end Layout

end Circuitry
