/-
  Reading back printed JSON.

  The text of data without blanks is read as the same data, whatever follows it.

  1. a string is undone character by character (`stringBody_escape`): a character that is escaped comes
     back from its escape, and any other stands for itself;
  2. the digits of a number are read up to the first character that is none.  So it matters what comes
     behind a numeral, and `Ends` says what can come behind a value;
  3. `value_chars` is the induction over the data.  Its bounds are those of the reader: fuel for two
     steps on each character of the text, and levels for the height of the data.

  Not all data has a text of its own: `IsData` leaves out numerals that are kept as spelled and the mark
  for what is unreadable.
-/
import Mathlib.Data.List.TakeDrop
import Circuitry.Json.Reader
import Circuitry.Json.Text
namespace Circuitry.Json

/-! ## Strings -/

theorem hex4?_digitChar : ∀ n < 32,
    hex4? '0' '0' (Nat.digitChar (n / 16)) (Nat.digitChar (n % 16)) = some n := by
  decide

theorem stringBody_plain {c : Char} {cs : List Char} (hquote : c ≠ '"') (hslash : c ≠ '\\')
    (hcontrol : ¬ c.toNat < 32) : stringBody (c :: cs) = consChar c (stringBody cs) := by
  rw [stringBody]
  · simp [hslash, hcontrol]
  · simpa using hquote
  · intro a b c d rest h
    simp [hslash] at h
  · simp [hslash]

theorem stringBody_control {c : Char} (cs : List Char) (h : c.toNat < 32) :
    stringBody ('\\' :: 'u' :: '0' :: '0' :: Nat.digitChar (c.toNat / 16) ::
      Nat.digitChar (c.toNat % 16) :: cs) = consChar c (stringBody cs) := by
  have hhigh : isHighSurrogate c.toNat = false := by
    simp only [isHighSurrogate, Bool.and_eq_false_imp, decide_eq_true_eq, decide_eq_false_iff_not]
    omega
  have hlow : isLowSurrogate c.toNat = false := by
    simp only [isLowSurrogate, Bool.and_eq_false_imp, decide_eq_true_eq, decide_eq_false_iff_not]
    omega
  rw [stringBody, hex4?_digitChar _ h]
  simp [hhigh, hlow]

theorem stringBody_letter {c e : Char} (cs : List Char) (hu : e ≠ 'u') (h : unescape? e = some c) :
    stringBody ('\\' :: e :: cs) = consChar c (stringBody cs) := by
  rw [stringBody]
  · simp [h]
  · intro a b c d rest h
    simp [hu] at h

/-- An escaped character is read back. -/
theorem stringBody_escape (c : Char) (cs : List Char) :
    stringBody (escape c ++ cs) = consChar c (stringBody cs) := by
  unfold escape
  -- the escapes with a letter
  iterate 7
    split
    · next h =>
      subst h
      exact stringBody_letter cs (by decide) rfl
  split
  · next h => exact stringBody_control cs h
  · next hquote hslash _ _ _ _ _ hcontrol => exact stringBody_plain hquote hslash hcontrol

theorem stringBody_escapes (cs rest : List Char) :
    stringBody (cs.flatMap escape ++ '"' :: rest) = some (cs, rest) := by
  induction cs with
  | nil => rw [List.flatMap_nil, List.nil_append, stringBody]
  | cons c cs ih =>
    rw [List.flatMap_cons, List.append_assoc, stringBody_escape, ih]
    rfl

theorem readString_quoted (s : String) (rest : List Char) :
    ∃ cs, quoted s ++ rest = '"' :: cs ∧ readString cs = some (some s, rest) := by
  refine ⟨s.toList.flatMap escape ++ '"' :: rest, by simp [quoted], ?_⟩
  rw [readString, stringBody_escapes]
  simp

/-! ## Numerals -/

/-- The text goes on with the end of a value: nothing, a comma or a closing bracket. -/
def Ends (rest : List Char) : Prop := ∀ c cs, rest = c :: cs → c ∈ [',', ']', '\x7d']

theorem Ends.digits {ds rest : List Char} (h : Ends rest) (hds : ∀ c ∈ ds, c.isDigit = true) :
    digits (ds ++ rest) = (ds, rest) := by
  unfold Json.digits
  rw [List.span_eq_takeWhile_dropWhile, List.takeWhile_append_of_pos hds,
    List.dropWhile_append_of_pos hds]
  cases rest with
  | nil => simp
  | cons c cs =>
    have hc : c.isDigit = false := by
      have hmem := h c cs rfl
      simp only [List.mem_cons, List.not_mem_nil, or_false] at hmem
      rcases hmem with rfl | rfl | rfl <;> rfl
    simp [hc]

theorem head_toDigits {n : Nat} {ds : List Char} (h : Nat.toDigits 10 n = '0' :: ds) : ds = [] := by
  induction n using Nat.strongRecOn generalizing ds with
  | _ n ih =>
    by_cases hn : n < 10
    · rw [Nat.toDigits_of_lt_base hn] at h
      exact (List.cons.inj h).2.symm
    · rw [Nat.toDigits_of_base_le (by decide) (by omega)] at h
      cases hd : Nat.toDigits 10 (n / 10) with
      | nil => exact absurd hd Nat.toDigits_ne_nil
      | cons d ds' =>
        rw [hd] at h
        obtain ⟨rfl, -⟩ := List.cons.inj h
        have hnil := ih (n / 10) (by omega) hd
        rw [hnil] at hd
        -- a front part that is zero would mean a number below ten
        have hvalue : Nat.ofDigitChars 10 (Nat.toDigits 10 (n / 10)) 0 = n / 10 :=
          Nat.ofDigitChars_toDigits (by decide) (by decide)
        rw [hd] at hvalue
        have hzero : Nat.ofDigitChars 10 ['0'] 0 = 0 := by decide
        omega

theorem wholePart?_toDigits {n : Nat} {rest : List Char} (h : Ends rest) :
    wholePart? (Nat.toDigits 10 n ++ rest) = some (Nat.toDigits 10 n, rest) := by
  unfold wholePart?
  rw [h.digits fun c hc => Nat.isDigit_of_mem_toDigits (by decide) (by decide) hc]
  split
  · next hnil => exact absurd (Prod.mk.inj hnil).1 Nat.toDigits_ne_nil
  · next hzero => exact absurd (head_toDigits (Prod.mk.inj hzero).1) (List.cons_ne_nil _ _)
  · next _ _ heq =>
    obtain ⟨rfl, rfl⟩ := Prod.mk.inj heq
    rfl

theorem unsignedNumeral_toDigits {negative : Bool} {n : Nat} {rest : List Char} (h : Ends rest)
    (hzero : negative = true → n ≠ 0) :
    unsignedNumeral negative (Nat.toDigits 10 n ++ rest) =
      some (.number (if negative then -n else n), rest) := by
  have hfraction : fraction? rest = some ([], rest) := by
    unfold fraction?
    split
    · next cs => exact absurd (h _ _ rfl) (by decide)
    · rfl
  have hexponent : exponent? rest = some ([], rest) := by
    cases rest with
    | nil => rfl
    | cons c cs =>
      have hmem := h c cs rfl
      have hc : (c = 'e' || c = 'E') = false := by
        simp only [List.mem_cons, List.not_mem_nil, or_false] at hmem
        rcases hmem with rfl | rfl | rfl <;> decide
      simp [exponent?, hc]
  have hn : (negative && n == 0) = false := by
    cases negative with
    | false => rfl
    | true => simpa using hzero rfl
  have hvalue : Nat.ofDigitChars 10 (Nat.toDigits 10 n) 0 = n :=
    Nat.ofDigitChars_toDigits (by decide) (by decide)
  simp only [unsignedNumeral, wholePart?_toDigits h, hfraction, hexponent, hvalue,
    Option.bind_eq_bind, Option.bind_some, hn]
  rfl

theorem isDigit_of_cons_toDigits {n : Nat} {c : Char} {cs rest : List Char}
    (h : Nat.toDigits 10 n ++ rest = c :: cs) : c.isDigit = true := by
  cases hd : Nat.toDigits 10 n with
  | nil => exact absurd hd Nat.toDigits_ne_nil
  | cons d ds =>
    rw [hd] at h
    obtain ⟨rfl, -⟩ := List.cons.inj h
    exact Nat.isDigit_of_mem_toDigits (by decide) (by decide) (hd ▸ List.mem_cons_self ..)

/-- A numeral begins with a digit or a sign. -/
theorem head_numeral {n : Int} {c : Char} {cs rest : List Char} (h : numeral n ++ rest = c :: cs) :
    c = '-' ∨ c.isDigit = true := by
  unfold numeral at h
  split at h
  · exact .inl (List.cons.inj h).1.symm
  · exact .inr (isDigit_of_cons_toDigits h)

theorem readNumeral_numeral {n : Int} {rest : List Char} (h : Ends rest) :
    readNumeral (numeral n ++ rest) = some (.number n, rest) := by
  unfold numeral
  split
  · next hneg =>
    rw [List.cons_append, readNumeral, unsignedNumeral_toDigits h fun _ => by omega]
    simp only [if_true, Option.some.injEq, Prod.mk.injEq, Json.number.injEq, and_true]
    omega
  · next hpos =>
    have hplain : readNumeral (Nat.toDigits 10 n.natAbs ++ rest) =
        unsignedNumeral false (Nat.toDigits 10 n.natAbs ++ rest) := by
      unfold readNumeral
      split
      · next cs hcs => exact absurd (isDigit_of_cons_toDigits hcs) (by decide)
      · rfl
    rw [hplain, @unsignedNumeral_toDigits false _ _ h (by simp)]
    simp only [Bool.false_eq_true, if_false, Option.some.injEq, Prod.mk.injEq, Json.number.injEq,
      and_true]
    omega

/-! ## Values -/

mutual

/-- Data that has a text of its own: no numeral kept as it is spelled, nothing unreadable. -/
def IsData : Json → Prop
  | .decimal _ | .unreadable => False
  | .array xs => ItemsAreData xs
  | .object ms => MembersAreData ms
  | _ => True

def ItemsAreData : List Json → Prop
  | [] => True
  | x :: xs => x.IsData ∧ ItemsAreData xs

def MembersAreData : List (String × Json) → Prop
  | [] => True
  | (_, x) :: ms => x.IsData ∧ MembersAreData ms

end

theorem skipBlanks_cons {c : Char} {cs : List Char} (h : isBlank c = false) :
    skipBlanks (c :: cs) = c :: cs := by
  simp [skipBlanks, h]

theorem numeral_ne_nil (n : Int) : numeral n ≠ [] := by
  unfold numeral
  split
  · exact List.cons_ne_nil _ _
  · exact Nat.toDigits_ne_nil

theorem isBlank_of_numeral {c : Char} (h : c = '-' ∨ c.isDigit = true) : isBlank c = false := by
  rcases h with rfl | h
  · rfl
  · by_contra hb
    simp only [isBlank, Bool.not_eq_false, Bool.or_eq_true, decide_eq_true_eq] at hb
    rcases hb with ((rfl | rfl) | rfl) | rfl <;> cases h

/-- A numeral is what remains when no other value begins. -/
theorem value_numeral {n : Int} {rest : List Char} (h : Ends rest) (fuel depth : Nat) :
    value (fuel + 1) depth (numeral n ++ rest) = some (.number n, rest) := by
  rw [← readNumeral_numeral h]
  cases hcs : numeral n ++ rest with
  | nil => exact absurd (List.append_eq_nil_iff.1 hcs).1 (numeral_ne_nil n)
  | cons c cs =>
    have hc := head_numeral hcs
    have hother : ∀ d : Char, d.isDigit = false → d ≠ '-' → c ≠ d := by
      rintro d hd hd' rfl
      rcases hc with rfl | hc
      · exact hd' rfl
      · rw [hd] at hc
        cases hc
    rw [value, skipBlanks_cons (isBlank_of_numeral hc)]
    split
    · next heq => exact absurd (List.cons.inj heq).1 (hother _ rfl (by decide))
    · next heq => exact absurd (List.cons.inj heq).1 (hother _ rfl (by decide))
    · next heq => exact absurd (List.cons.inj heq).1 (hother _ rfl (by decide))
    · next heq => exact absurd (List.cons.inj heq).1 (hother _ rfl (by decide))
    · next heq => exact absurd (List.cons.inj heq).1 (hother _ rfl (by decide))
    · next heq => exact absurd (List.cons.inj heq).1 (hother _ rfl (by decide))
    · rfl

/-- A value begins with a character of its own. -/
theorem chars_eq_cons {j : Json} (h : j.IsData) :
    ∃ c cs, j.chars = c :: cs ∧ isBlank c = false ∧ c ≠ ']' := by
  cases j with
  | null => exact ⟨_, _, rfl, rfl, by decide⟩
  | bool b => cases b <;> exact ⟨_, _, rfl, rfl, by decide⟩
  | number n =>
    obtain ⟨c, cs, hcs⟩ := List.exists_cons_of_ne_nil (numeral_ne_nil n)
    have hc := head_numeral ((List.append_nil _).trans hcs)
    refine ⟨c, cs, hcs, isBlank_of_numeral hc, ?_⟩
    rintro rfl
    exact absurd hc (by decide)
  | decimal spelling => exact absurd h id
  | string s => exact ⟨_, _, rfl, rfl, by decide⟩
  | array xs => exact ⟨_, _, rfl, rfl, by decide⟩
  | object ms => exact ⟨_, _, rfl, rfl, by decide⟩
  | unreadable => exact absurd h id

theorem length_chars_pos {j : Json} (h : j.IsData) : 0 < j.chars.length := by
  obtain ⟨c, cs, hcs, -, -⟩ := chars_eq_cons h
  rw [hcs]
  exact Nat.succ_pos _

theorem ends_cons {c : Char} {cs : List Char} (h : c ∈ [',', ']', '\x7d']) : Ends (c :: cs) := by
  intro d ds heq
  rwa [← (List.cons.inj heq).1]

theorem itemChars_cons_cons (x y : Json) (ys : List Json) :
    itemChars (x :: y :: ys) = x.chars ++ ',' :: itemChars (y :: ys) := rfl

theorem memberChars_cons_cons (n : String) (x : Json) (m : String × Json)
    (ms : List (String × Json)) : memberChars ((n, x) :: m :: ms) =
      quoted n ++ ':' :: x.chars ++ ',' :: memberChars (m :: ms) := rfl

section Steps

variable {fuel depth : Nat} {cs rest rest' : List Char} {x : Json} {xs : List Json} {name : String}
  {ms : List (String × Json)}

theorem value_array {c : Char} (hblank : isBlank c = false) (hclose : c ≠ ']')
    (h : items fuel (depth - 1) (c :: cs) = some (xs, rest)) :
    value (fuel + 1) depth ('[' :: c :: cs) = some (nested depth (.array xs), rest) := by
  rw [value, skipBlanks_cons rfl]
  simp only [skipBlanks_cons hblank]
  split
  · next heq => exact absurd (List.cons.inj heq).1 hclose
  · rw [h]

theorem value_object (h : members fuel (depth - 1) ('"' :: cs) = some (some ms, rest)) :
    value (fuel + 1) depth ('\x7b' :: '"' :: cs) = some (nested depth (.object ms), rest) := by
  rw [value, skipBlanks_cons rfl]
  simp only [skipBlanks_cons (show isBlank '"' = false from rfl)]
  split
  · next heq => exact absurd (List.cons.inj heq).1 (by decide)
  · rw [h]
    rfl

theorem items_last (h : value fuel depth cs = some (x, ']' :: rest)) :
    items (fuel + 1) depth cs = some ([x], rest) := by
  rw [items, h]
  simp only [skipBlanks_cons (show isBlank ']' = false from rfl)]

theorem items_cons (h : value fuel depth cs = some (x, ',' :: rest))
    (hrest : items fuel depth rest = some (xs, rest')) :
    items (fuel + 1) depth cs = some (x :: xs, rest') := by
  rw [items, h]
  simp only [skipBlanks_cons (show isBlank ',' = false from rfl), hrest]

theorem members_last (h : value fuel depth cs = some (x, '\x7d' :: rest)) :
    members (fuel + 1) depth (quoted name ++ ':' :: cs) = some (some [(name, x)], rest) := by
  obtain ⟨cs', hcs, hread⟩ := readString_quoted name (':' :: cs)
  rw [members, hcs, skipBlanks_cons rfl]
  simp only [hread, skipBlanks_cons (show isBlank ':' = false from rfl), h,
    skipBlanks_cons (show isBlank '\x7d' = false from rfl), consMember]
  rfl

theorem members_cons (h : value fuel depth cs = some (x, ',' :: rest))
    (hrest : members fuel depth rest = some (some ms, rest')) :
    members (fuel + 1) depth (quoted name ++ ':' :: cs) = some (some ((name, x) :: ms), rest') := by
  obtain ⟨cs', hcs, hread⟩ := readString_quoted name (':' :: cs)
  rw [members, hcs, skipBlanks_cons rfl]
  simp only [hread, skipBlanks_cons (show isBlank ':' = false from rfl), h,
    skipBlanks_cons (show isBlank ',' = false from rfl), hrest, consMember]
  rfl

end Steps

mutual

/-- A value is read back in front of what can follow it. -/
theorem value_chars : ∀ (j : Json) {fuel depth : Nat} {rest : List Char}, j.IsData →
    j.height ≤ depth → 2 * j.chars.length ≤ fuel + 1 → Ends rest →
      value (fuel + 1) depth (j.chars ++ rest) = some (j, rest)
  | .null, fuel, depth, rest, _, _, _, _ => by simp [value, chars, scalar, skipBlanks, isBlank]
  | .bool b, fuel, depth, rest, _, _, _, _ => by
    cases b <;> simp [value, chars, scalar, skipBlanks, isBlank]
  | .number n, fuel, depth, rest, _, _, _, hrest => value_numeral hrest fuel depth
  | .string s, fuel, depth, rest, _, _, _, _ => by
    obtain ⟨cs, hcs, hread⟩ := readString_quoted s rest
    show value (fuel + 1) depth (quoted s ++ rest) = _
    rw [hcs, value, skipBlanks_cons rfl]
    simp only [hread]
  | .array [], fuel, depth, rest, _, hdepth, _, _ => by
    simp only [height, itemsHeight] at hdepth
    simp [value, chars, itemChars, skipBlanks, isBlank, nested, Nat.ne_of_gt hdepth]
  | .array (x :: xs), fuel, depth, rest, hdata, hdepth, hfuel, _ => by
    obtain ⟨c, cs, hcs, hblank, hclose⟩ := chars_eq_cons hdata.1
    simp only [height] at hdepth
    simp only [chars, List.length_append, List.length_cons, List.length_nil] at hfuel
    obtain ⟨fuel, rfl⟩ : ∃ f, fuel = f + 1 := ⟨fuel - 1, by omega⟩
    have hitems : items (fuel + 1) (depth - 1) (itemChars (x :: xs) ++ ']' :: rest) =
        some (x :: xs, rest) :=
      items_chars (x :: xs) (List.cons_ne_nil _ _) hdata (Nat.le_sub_one_of_lt hdepth) (by omega)
    obtain ⟨cs', hcs'⟩ : ∃ cs', itemChars (x :: xs) = c :: cs' := by
      cases xs <;> simp [itemChars, hcs]
    rw [hcs'] at hitems
    rw [chars, List.append_assoc, List.cons_append, hcs']
    exact (value_array hblank hclose hitems).trans (by rw [nested, if_neg (by omega)])
  | .object [], fuel, depth, rest, _, hdepth, _, _ => by
    simp only [height, membersHeight] at hdepth
    simp [value, chars, memberChars, skipBlanks, isBlank, nested, Nat.ne_of_gt hdepth]
  | .object (m :: ms), fuel, depth, rest, hdata, hdepth, hfuel, _ => by
    simp only [height] at hdepth
    simp only [chars, List.length_append, List.length_cons, List.length_nil] at hfuel
    obtain ⟨fuel, rfl⟩ : ∃ f, fuel = f + 1 := ⟨fuel - 1, by omega⟩
    have hmembers : members (fuel + 1) (depth - 1) (memberChars (m :: ms) ++ '\x7d' :: rest) =
        some (some (m :: ms), rest) :=
      members_chars (m :: ms) (List.cons_ne_nil _ _) hdata (Nat.le_sub_one_of_lt hdepth) (by omega)
    obtain ⟨cs, hcs⟩ : ∃ cs, memberChars (m :: ms) = '"' :: cs := by
      cases ms <;> simp [memberChars, quoted]
    rw [hcs] at hmembers
    rw [chars, List.append_assoc, List.cons_append, hcs]
    exact (value_object hmembers).trans (by rw [nested, if_neg (by omega)])
  | .decimal _, _, _, _, hdata, _, _, _ => absurd hdata id
  | .unreadable, _, _, _, hdata, _, _, _ => absurd hdata id

/-- Items are read back up to the bracket that ends them. -/
theorem items_chars : ∀ (xs : List Json) {fuel depth : Nat} {rest : List Char}, xs ≠ [] →
    ItemsAreData xs → itemsHeight xs ≤ depth → 2 * (itemChars xs).length ≤ fuel →
      items (fuel + 1) depth (itemChars xs ++ ']' :: rest) = some (xs, rest)
  | [], _, _, _, hne, _, _, _ => absurd rfl hne
  | [x], fuel, depth, rest, _, hdata, hdepth, hfuel => by
    have hpos := length_chars_pos hdata.1
    rw [itemChars] at hfuel ⊢
    obtain ⟨fuel, rfl⟩ : ∃ f, fuel = f + 1 := ⟨fuel - 1, by omega⟩
    rw [itemsHeight, Nat.max_le] at hdepth
    exact items_last (value_chars x hdata.1 hdepth.1 (by omega) (ends_cons (by simp)))
  | x :: y :: ys, fuel, depth, rest, _, hdata, hdepth, hfuel => by
    have hpos := length_chars_pos hdata.1
    rw [itemChars_cons_cons, List.length_append, List.length_cons] at hfuel
    obtain ⟨fuel, rfl⟩ : ∃ f, fuel = f + 1 := ⟨fuel - 1, by omega⟩
    rw [itemsHeight, Nat.max_le] at hdepth
    rw [itemChars_cons_cons, List.append_assoc, List.cons_append]
    exact items_cons
      (value_chars x hdata.1 hdepth.1 (by omega) (ends_cons (by simp)))
      (items_chars (y :: ys) (List.cons_ne_nil _ _) hdata.2 hdepth.2 (by omega))

/-- Members are read back up to the brace that ends them. -/
theorem members_chars : ∀ (ms : List (String × Json)) {fuel depth : Nat} {rest : List Char},
    ms ≠ [] → MembersAreData ms → membersHeight ms ≤ depth → 2 * (memberChars ms).length ≤ fuel →
      members (fuel + 1) depth (memberChars ms ++ '\x7d' :: rest) = some (some ms, rest)
  | [], _, _, _, hne, _, _, _ => absurd rfl hne
  | [(n, x)], fuel, depth, rest, _, hdata, hdepth, hfuel => by
    rw [memberChars, List.length_append, List.length_cons] at hfuel
    obtain ⟨fuel, rfl⟩ : ∃ f, fuel = f + 1 := ⟨fuel - 1, by omega⟩
    rw [membersHeight, Nat.max_le] at hdepth
    rw [memberChars, List.append_assoc, List.cons_append]
    exact members_last (value_chars x hdata.1 hdepth.1 (by omega) (ends_cons (by simp)))
  | (n, x) :: m :: ms, fuel, depth, rest, _, hdata, hdepth, hfuel => by
    rw [memberChars_cons_cons, List.length_append, List.length_cons, List.length_append,
      List.length_cons] at hfuel
    obtain ⟨fuel, rfl⟩ : ∃ f, fuel = f + 1 := ⟨fuel - 1, by omega⟩
    rw [membersHeight, Nat.max_le] at hdepth
    rw [memberChars_cons_cons, List.append_assoc, List.cons_append, List.append_assoc,
      List.cons_append]
    exact members_cons
      (value_chars x hdata.1 hdepth.1 (by omega) (ends_cons (by simp)))
      (members_chars (m :: ms) (List.cons_ne_nil _ _) hdata.2 hdepth.2 (by omega))

end

/-- **The reader undoes the printer.**  The text of data without blanks is read as that data, unless it
    nests too deep. -/
theorem parse?_compact {j : Json} (hdata : j.IsData) (hdepth : j.height ≤ maxDepth) :
    parse? j.compact = some j := by
  have hends : Ends [] := by
    intro c cs h
    cases h
  have hvalue := value_chars j hdata hdepth (Nat.le_succ (2 * j.chars.length)) hends
  rw [List.append_nil] at hvalue
  simp only [parse?, compact, String.toList_ofList, hvalue]
  rfl

end Circuitry.Json
