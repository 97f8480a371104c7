/-
  The calls that a run makes.

  `Calls use r before after passage w` says that the run of the passage from `w` makes the call `use`
  somewhere on its way: in the world `before`, with the answer and the value `r`, and so that the run
  goes on from `after`.  The place may be in a condition, in a body, or behind failures that have been
  passed over.

  1. What every step and every mark keeps is there when the call is made (`Calls.kept`).
  2. If it is there right after the call, it is there at the end, however the run ends
     (`Calls.leaves`).

  So a fact about the circuit that a description returns can be had from the one call that it is about
  (`Calls.finished`).
-/
import Circuitry.Proofs.Nesting.Balance
import Circuitry.Proofs.Script.Described

namespace Circuitry.Script

open Draft (Session Stable Bundle)

/-- The run of the passage from `w` makes the call in the world `before`, and goes on from `after`. -/
inductive Calls (use : Call) (r : Answer × Option Bundle) (before after : World) :
    Passage → World → Prop
  | here {step : Step} {rest : Script} (call : meaning use before = .ok r after) :
      Calls use r before after (.script (.call step use rest)) before
  /-- Behind another call. -/
  | behindCall {step : Step} {other : Call} {rest : Script} {w w' : World}
      (run : step.perform (meaning other) w = .ok () w')
      (later : Calls use r before after (.script rest) w') :
      Calls use r before after (.script (.call step other rest)) w
  /-- Behind a chain, whether it went through or its failure was passed over. -/
  | behindChain {step : Step} {cond body rest : Script} {pred : String} {tail : Tail} {w w' : World}
      (run : step.perform (wholeChain cond pred body tail) w = .ok () w')
      (later : Calls use r before after (.script rest) w') :
      Calls use r before after (.script (.chain step cond pred body tail rest)) w
  | first {step : Step} {cond body rest : Script} {pred : String} {tail : Tail} {w : World}
      (inside : Calls use r before after (.clause 0 cond pred body) w) :
      Calls use r before after (.script (.chain step cond pred body tail rest)) w
  | tail {step : Step} {cond body rest : Script} {pred : String} {tail : Tail} {w w' : World}
      (clause : (Passage.clause 0 cond pred body).run w = .ok () w')
      (inside : Calls use r before after (.tail 1 tail) (w'.noted (.clause 1))) :
      Calls use r before after (.script (.chain step cond pred body tail rest)) w
  | branch {next : World → Script} {w : World}
      (taken : Calls use r before after (.script (next w)) w) :
      Calls use r before after (.script (.branch next)) w
  | condition {depth : UInt32} {cond body : Script} {pred : String} {w : World}
      (inside : Calls use r before after (.script cond) w) :
      Calls use r before after (.clause depth cond pred body) w
  | body {depth : UInt32} {cond body : Script} {pred : String} {w w' : World} {p : Operand}
      (condition : cond.run w = .ok () w') (holds : predicate pred w' = .ok p w')
      (inside : Calls use r before after (.script body) (w'.emitted (.whenBegin p depth))) :
      Calls use r before after (.clause depth cond pred body) w
  | later {depth : UInt32} {cond body : Script} {pred : String} {tail : Tail} {w : World}
      (inside : Calls use r before after (.clause depth cond pred body)
        (w.emitted (.altBegin depth))) :
      Calls use r before after (.tail depth (.elseWhen cond pred body tail)) w
  | next {depth : UInt32} {cond body : Script} {pred : String} {tail : Tail} {w w' : World}
      (clause : (Passage.clause depth cond pred body).run (w.emitted (.altBegin depth)) = .ok () w')
      (inside : Calls use r before after (.tail (depth + 1) tail)
        (w'.noted (.clause (depth + 1)))) :
      Calls use r before after (.tail depth (.elseWhen cond pred body tail)) w
  | last {depth : UInt32} {body : Script} {w : World}
      (inside : Calls use r before after (.script body) (w.emitted (.altBegin depth))) :
      Calls use r before after (.tail depth (.otherwise body)) w
  | branchTail {depth : UInt32} {next : World → Tail} {w : World}
      (taken : Calls use r before after (.tail depth (next w)) w) :
      Calls use r before after (.tail depth (.branch next)) w

section Passages

variable {I : List Signal → Session → Prop} (hI : Stable I)
  (hM : ∀ ⦃L : List Signal⦄ ⦃w w' : Session⦄, Session.Mark L w w' → I L w → I L w')

include hI hM

theorem keeps_passage (passage : Passage) : RunKeeps I passage.run := by
  cases passage with
  | script s => exact keeps_run hI hM s
  | clause depth cond pred body =>
    exact keeps_clause hM depth (condition_finds (keeps_run hI hM cond) pred) (keeps_run hI hM body)
  | tail depth t => exact keeps_runTail hI hM ⟨depth⟩ t

theorem makes_wholeChain (cond : Script) (pred : String) (body : Script) (tail : Tail) :
    RunMakes I answered (wholeChain cond pred body tail) :=
  makes_chain (keeps_passage hI hM (.clause 0 cond pred body)) fun c => keeps_runTail hI hM c tail

end Passages

/-- From a point on that is known an else-part always opens. -/
theorem opens_alternative (w : World) (depth : UInt32) {Q : Stop → World → Prop} :
    Triple (· = w) (liftBuild (Draft.emit (.altBegin depth)))
      (fun _ => (· = w.emitted (.altBegin depth))) Q := by
  rintro _ rfl
  rfl

namespace Calls

variable {use : Call} {r : Answer × Option Bundle} {before after : World} {passage : Passage}
  {w : World} {I : List Signal → Session → Prop}

theorem call (h : Calls use r before after passage w) : meaning use before = .ok r after := by
  induction h with
  | here call => exact call
  | _ => assumption

/-- **What is kept is there when the call is made.** -/
theorem kept (h : Calls use r before after passage w) (hI : Stable I)
    (hM : ∀ ⦃L : List Signal⦄ ⦃w w' : Session⦄, Session.Mark L w w' → I L w → I L w')
    (hw : Holding I [] w) : Holding I [] before := by
  induction h with
  | here call => exact hw
  | behindCall run _ ih => exact ih ((keeps_perform hI _ (makes_meaning hI _)).of_ok hw run)
  | @behindChain step cond body rest pred tail w w' run _ ih =>
    have hchain := makes_wholeChain hI hM cond pred body tail
    exact ih ((keeps_perform hI step hchain).of_ok hw run)
  | first _ ih => exact ih hw
  | tail clause _ ih =>
    have hw' : Holding I [] _ := (keeps_passage hI hM _).of_ok hw clause
    exact ih hw'
  | branch _ ih => exact ih hw
  | condition _ ih => exact ih hw
  | @body depth cond body pred w w' p condition holds _ ih =>
    have hw' : Holding I [] w' := (keeps_run hI hM cond).of_ok hw condition
    obtain ⟨s, hs, hp, -⟩ := predicate_eq_ok.1 holds
    have hopened : Holding I [] (w'.emitted (.whenBegin p depth)) := by
      have hcond : (s.kind = .bool ∧ s ∈ w'.around) ∧ Holding I [] w' :=
        (boolean_finds pred).of_ok hw' hs
      have hopening := makes_opening hM depth s (makes_answerOnly (fun _ hw => hw) .nothing)
      exact hopening.of_ok hcond (bind_of_ok hp)
    exact ih hopened
  | @later depth _ _ _ _ w _ ih =>
    exact ih (hM (.altBegin depth) hw)
  | @next depth _ _ _ _ w w' clause _ ih =>
    have hopened : Holding I [] (w.emitted (.altBegin depth)) := hM (.altBegin depth) hw
    have hw' : Holding I [] w' := (keeps_passage hI hM _).of_ok hopened clause
    exact ih hw'
  | @last depth _ w _ ih => exact ih (hM (.altBegin depth) hw)
  | branchTail _ ih => exact ih hw

/-- **What is there after the call stays**, however the run ends. -/
theorem leaves (h : Calls use r before after passage w) (hI : Stable I)
    (hM : ∀ ⦃L : List Signal⦄ ⦃w w' : Session⦄, Session.Mark L w w' → I L w → I L w')
    (hafter : Holding I (answered r) after) : RunLeaves I (· = w) passage.run := by
  induction h with
  | @here step rest call =>
    have hmeaning : Triple (· = before) (meaning use) (fun r => Holding I (answered r))
        (fun e w => e.ofUse ∧ Holding I [] w) := by
      rintro _ rfl
      rw [call]
      exact hafter
    exact .bind (keeps_perform hI step hmeaning) fun _ => keeps_run hI hM rest
  | behindCall run _ ih => exact .from_ok run ih
  | behindChain run _ ih => exact .from_ok run ih
  | @first step cond body rest pred tail w _ ih =>
    have hchain := makes_chain ih fun c => keeps_runTail hI hM c tail
    exact .bind (keeps_perform hI step hchain) fun _ => keeps_run hI hM rest
  | @tail step cond body rest pred tail w w' clause _ ih =>
    have hstart := (start_eq_ok (c := ⟨1⟩)).2 ⟨clause, rfl⟩
    refine .bind (keeps_perform hI step ?_) fun _ => keeps_run hI hM rest
    refine .from_ok hstart (.from_ok rfl ?_)
    exact .bind ih fun _ => makes_answerOnly (fun _ hw => hw) _
  | branch _ ih => exact .from_ok rfl ih
  | @condition depth cond body pred w _ ih =>
    exact keeps_clause hM depth (condition_finds ih pred) (keeps_run hI hM body)
  | @body depth cond body pred w w' p condition holds _ ih =>
    obtain ⟨s, hs, hp, -⟩ := predicate_eq_ok.1 holds
    have hcondition : (do cond.run; boolean pred) w = .ok s w' := (bind_of_ok condition).trans hs
    have hrest : RunLeaves I (· = w'.emitted (.whenBegin p depth))
        (do body.run; liftBuild (Draft.emit (.whenEnd depth))) :=
      .bind ih fun _ => keeps_mark hM fun _ _ => .whenEnd depth
    exact .from_ok hcondition (.from_ok hp (.from_ok rfl hrest))
  | @later depth cond body pred tail w _ ih =>
    refine .bind (keeps_elseWhen ⟨depth⟩ (opens_alternative w depth) ih) fun c => ?_
    exact .bind (keeps_note _) fun _ => keeps_runTail hI hM c tail
  | @next depth cond body pred tail w w' clause _ ih =>
    have helse := (elseWhen_eq_ok (c := ⟨depth⟩)).2 ⟨clause, rfl⟩
    exact .from_ok helse (.from_ok rfl ih)
  | @last depth body w _ ih =>
    exact keeps_otherwise hM ⟨depth⟩ (opens_alternative w depth) ih
  | branchTail _ ih => exact .from_ok rfl ih

/-- What a call leaves is so of the circuit in which the description ends. -/
theorem finished {s : Script} {m m' : Memory} {name : String} {settings : Settings.Elaboration}
    {o : Outcome} {c : Circuit}
    (h : Calls use r before after (.script s) (m.world name settings)) (hI : Stable I)
    (hM : ∀ ⦃L : List Signal⦄ ⦃w w' : Session⦄, Session.Mark L w w' → I L w → I L w')
    (hafter : Holding I (answered r) after) (hrun : s.describe? m name settings = some (o, m'))
    (hc : o.result = .ok c) :
    ∃ w : World, I w.around w.session ∧ m' = w.memory ∧ w.session.draft.finish = .ok c := by
  have hleaves : RunLeaves I (· = m.world name settings) s.run := h.leaves hI hM hafter
  cases describe?_iff.1 hrun with
  | @finished w run => exact ⟨w, hleaves.of_ok rfl run, rfl, hc⟩
  | stopped _ => cases hc

end Calls

/-! ## Calls that can be computed -/

/-- The call at a place of a script without chains. -/
def call? : Nat → Script → Option Call
  | 0, .call _ use _ => some use
  | n + 1, .call _ _ rest => call? n rest
  | _, _ => none

/-- What the call at a place of a script without chains comes to. -/
def made? : Nat → Script → World → Option ((Answer × Option Bundle) × World × World)
  | 0, .call _ use _, w =>
    match meaning use w with
    | .ok r after => some (r, w, after)
    | .error .. => none
  | n + 1, .call step use rest, w =>
    match step.perform (meaning use) w with
    | .ok () w' => made? n rest w'
    | .error .. => none
  | _, _, _ => none

theorem calls_of_made? {use : Call} {r : Answer × Option Bundle} {before after : World} :
    ∀ {n : Nat} {s : Script} {w : World}, s.call? n = some use →
      made? n s w = some (r, before, after) → Calls use r before after (.script s) w
  | 0, .call step use' rest, w, huse, h => by
    obtain rfl := Option.some.inj huse
    unfold made? at h
    split at h
    · next hcall =>
      cases h
      exact .here hcall
    · cases h
  | n + 1, .call step other rest, w, huse, h => by
    unfold made? at h
    split at h
    · next hrun => exact .behindCall hrun (calls_of_made? huse h)
    · cases h

/-- The signals in the variables `a` and `b` at the call, and the one that the call makes. -/
def signals? (n : Nat) (s : Script) (w : World) (a b : String) : Option (Signal × Signal × Signal) := do
  let (r, before, _) ← made? n s w
  match before.values.lookup a, before.values.lookup b, r.2 with
  | some (.leaf x), some (.leaf y), some (.leaf z) => return (x, y, z)
  | _, _, _ => none

theorem made_of_signals? {n : Nat} {s : Script} {w : World} {a b : String} {x y z : Signal}
    (h : signals? n s w a b = some (x, y, z)) :
    ∃ r before after, made? n s w = some (r, before, after) ∧
      before.values.lookup a = some (.leaf x) ∧ before.values.lookup b = some (.leaf y) ∧
      r.2 = some (.leaf z) := by
  obtain ⟨⟨r, before, after⟩, hmade, h⟩ := Option.bind_eq_some_iff.1 h
  simp only at h
  split at h
  · next x' y' z' hx hy hr =>
    cases h
    exact ⟨r, before, after, hmade, hx, hy, hr⟩
  · cases h

end Circuitry.Script
