/-
  Literals that are spelled out.

  A spelling is a letter that names a radix, and digits of that radix with underscores anywhere among
  them, at least one (`Spells`).  Every text is read as something; here it is said as what.

  1. A text is read without an issue exactly if it is a spelling.  Then it is read as the number that its
     digits spell, however many there are, and binary and hexadecimal digits say a width.
  2. After a letter that names no radix the rest is read as after `b`.  What is no spelling besides
     has one issue more, and is read as zero.
  3. A width that is said has room for the number that is read, since each digit stands for no less than
     what it adds to the width (`spelledWidth`).  So cutting the one to the other changes nothing.

  A description gets a literal of that number and that width, and the issues as faults (`spelled_exact`).
-/
import Circuitry.Proofs.Draft.Literals
import Circuitry.Proofs.Numeral.Digits

namespace Circuitry

/-- An underscore is no digit. -/
theorem IsDigit.ne_underscore {radix v : Nat} {c : Char} (h : IsDigit radix c v) : c ≠ '_' := by
  rintro rfl
  cases digitIn?_eq_some_iff.2 h

namespace Numeral

/-! ## Spellings -/

/-- The letters, and the radixes that they name. -/
inductive Names : Char → Nat → Prop
  | binary : Names 'b' 2
  | octal : Names 'o' 8
  | decimal : Names 'd' 10
  | hexadecimal : Names 'h' 16
  | hexadecimal' : Names 'x' 16

/-- Digits of a radix and underscores, and the values of the digits. -/
inductive Digits (radix : Nat) : List Char → List Nat → Prop
  | nil : Digits radix [] []
  | underscore {cs : List Char} {vs : List Nat} (rest : Digits radix cs vs) :
    Digits radix ('_' :: cs) vs
  | digit {c : Char} {v : Nat} {cs : List Char} {vs : List Nat} (first : IsDigit radix c v)
      (rest : Digits radix cs vs) : Digits radix (c :: cs) (v :: vs)

/-- A letter and digits of its radix, at least one. -/
inductive Spells : List Char → Nat → List Nat → Prop
  | mk {letter : Char} {radix : Nat} {rest : List Char} {vs : List Nat} (names : Names letter radix)
      (digits : Digits radix rest vs) (some : vs ≠ []) : Spells (letter :: rest) radix vs

/-- The bits that each digit stands for, in a radix where digits say how many bits there are. -/
def bitsPerDigit? : Nat → Option Nat
  | 2 => some 1
  | 16 => some 4
  | _ => none

section Spellings

variable {letter c : Char} {radix : Nat} {rest cs : List Char} {vs : List Nat}

theorem radixOf?_eq_some_iff : radixOf? letter = some radix ↔ Names letter radix := by
  constructor
  · intro h
    unfold radixOf? at h
    split at h <;> cases h <;> constructor
  · rintro (_ | _) <;> rfl

theorem Names.le (h : Names letter radix) : radix ≤ 16 := by cases h <;> decide

theorem Names.one_lt (h : Names letter radix) : 1 < radix := by cases h <;> decide

/-- The digits are what is left when underscores are read over. -/
theorem digits_iff :
    Digits radix cs vs ↔ List.Forall₂ (IsDigit radix) (cs.filter (· ≠ '_')) vs := by
  constructor
  · intro h
    induction h with
    | nil => exact .nil
    | underscore _ ih => exact ih
    | digit first _ ih =>
      have hkeep : decide (_ ≠ '_') = true := decide_eq_true first.ne_underscore
      rw [List.filter_cons, if_pos hkeep]
      exact .cons first ih
  · intro h
    induction cs generalizing vs with
    | nil =>
      cases h
      exact .nil
    | cons c cs ih =>
      by_cases hc : c = '_'
      · subst hc
        exact .underscore (ih h)
      · have hkeep : decide (c ≠ '_') = true := decide_eq_true hc
        rw [List.filter_cons, if_pos hkeep] at h
        cases h with
        | cons first hrest => exact .digit first (ih hrest)

/-! ## Reading digits -/

theorem Names.lt_base (h : Names letter radix) : radix < Words.base :=
  Nat.lt_of_le_of_lt h.le (by decide)

/-- The value of some digits, as they are read. -/
def spelled (radix : Nat) (vs : List Nat) : Bits :=
  .ofNat (UInt32.ofNat (max 1 (Nat.ofDigits radix vs.reverse).size)) (Nat.ofDigits radix vs.reverse)

theorem readDigits_of_digits (hradix : radix < Words.base) (h : Digits radix rest vs)
    (hsome : vs ≠ []) :
    readDigits radix (rest.filter (· ≠ '_')) = (spelled radix vs, []) := by
  have hdigits := digits_iff.1 h
  have hne : rest.filter (· ≠ '_') ≠ [] := by
    intro hnil
    rw [hnil] at hdigits
    cases hdigits
    exact hsome rfl
  rw [readDigits, Bits.ofDigits?_of_digits hradix hne hdigits]
  rfl

theorem readDigits_of_underscores (h : ∀ c ∈ rest, c = '_') :
    readDigits radix (rest.filter (· ≠ '_')) = (.zero 1, [.noDigits]) := by
  have hnil : rest.filter (· ≠ '_') = [] := by simpa using h
  rw [hnil]
  rfl

theorem readDigits_of_bad (hradix : radix < Words.base)
    (h : ∃ c ∈ rest, c ≠ '_' ∧ ∀ v, ¬ IsDigit radix c v) :
    readDigits radix (rest.filter (· ≠ '_')) =
      (.zero 1, [.badDigits (rest.filter (· ≠ '_')) radix]) := by
  obtain ⟨c, hc, hne, hbad⟩ := h
  have hmem : c ∈ rest.filter (· ≠ '_') := List.mem_filter.2 ⟨hc, decide_eq_true hne⟩
  rw [readDigits, (Bits.ofDigits?_eq_none_iff hradix).2 (.inr ⟨c, hmem, hbad⟩),
    if_neg (List.ne_nil_of_mem hmem)]

/-- Digits after a letter are of one of three sorts. -/
theorem digits_cases (radix : Nat) (rest : List Char) :
    (∃ vs, Digits radix rest vs ∧ vs ≠ []) ∨ (∀ c ∈ rest, c = '_') ∨
      ∃ c ∈ rest, c ≠ '_' ∧ ∀ v, ¬ IsDigit radix c v := by
  rcases digits_or_not radix (rest.filter (· ≠ '_')) with ⟨vs, hvs⟩ | ⟨c, hc, hbad⟩
  · cases vs with
    | nil =>
      have hnil : rest.filter (· ≠ '_') = [] := List.forall₂_nil_right_iff.1 hvs
      exact .inr (.inl (by simpa using hnil))
    | cons v vs => exact .inl ⟨_, digits_iff.2 hvs, List.cons_ne_nil v vs⟩
  · obtain ⟨hmem, hne⟩ := List.mem_filter.1 hc
    exact .inr (.inr ⟨c, hmem, of_decide_eq_true hne, hbad⟩)

/-! ## Reading a text -/

theorem read_of_names (h : Names letter radix) (rest : List Char) :
    read (letter :: rest) = ⟨(readDigits radix (rest.filter (· ≠ '_'))).1,
      spelledWidth radix (rest.filter (· ≠ '_')).length,
      (readDigits radix (rest.filter (· ≠ '_'))).2⟩ := by
  rw [read, radixOf?_eq_some_iff.2 h]
  rfl

/-- After a letter that names no radix the rest is read as binary. -/
theorem read_of_unnamed (h : ∀ radix, ¬ Names letter radix) (rest : List Char) :
    read (letter :: rest) = { read ('b' :: rest) with
      issues := .unknownRadix letter :: (read ('b' :: rest)).issues } := by
  have hnone : radixOf? letter = none :=
    Option.eq_none_iff_forall_ne_some.2 fun radix hr => h radix (radixOf?_eq_some_iff.1 hr)
  rw [read_of_names .binary, read, hnone]
  rfl

/-- The width that digits say, where they say one. -/
theorem spelledWidth_eq (h : Names letter radix) {count : Nat} (hcount : count < 2 ^ 28) :
    (spelledWidth radix count).get?.map UInt32.toNat = (bitsPerDigit? radix).map (· * count) := by
  have hfits : ∀ n, n < 2 ^ 32 → (UInt32.ofNat n).toNat = n := fun n hn => by
    rw [UInt32.toNat_ofNat', Nat.mod_eq_of_lt hn]
  cases h with
  | binary =>
    rw [show bitsPerDigit? 2 = some 1 from rfl, Option.map_some, Nat.one_mul]
    exact congrArg some (hfits count (by omega))
  | octal | decimal => rfl
  | hexadecimal | hexadecimal' => exact congrArg some (hfits (4 * count) (by omega))

/-- Digits are read as the number that they spell. -/
theorem value_spelled (h : Names letter radix) (hdigits : Digits radix rest vs)
    (hcount : vs.length < 2 ^ 28) :
    (spelled radix vs).value = Nat.ofDigits radix vs.reverse := by
  have hlt := spelled_lt h.one_lt (digits_iff.1 hdigits)
  have hsize : (Nat.ofDigits radix vs.reverse).size ≤ 4 * vs.length := by
    rw [Nat.size_le, Nat.pow_mul]
    exact Nat.lt_of_lt_of_le hlt (Nat.pow_le_pow_left h.le _)
  have hwidth : (UInt32.ofNat (max 1 (Nat.ofDigits radix vs.reverse).size)).toNat =
      max 1 (Nat.ofDigits radix vs.reverse).size := by
    rw [UInt32.toNat_ofNat', Nat.mod_eq_of_lt (by omega)]
  rw [spelled, Bits.value_ofNat, hwidth]
  refine Nat.mod_eq_of_lt (Nat.lt_of_lt_of_le (Nat.lt_size_self _) ?_)
  exact Nat.pow_le_pow_right (by decide) (Nat.le_max_right _ _)

/-- A width that is said has room for the number. -/
theorem spelled_lt_width (hdigits : Digits radix rest vs) {bits : Nat}
    (hbits : bitsPerDigit? radix = some bits) :
    Nat.ofDigits radix vs.reverse < 2 ^ (bits * vs.length) := by
  have hradix : radix = 2 ^ bits ∧ 1 < radix := by
    unfold bitsPerDigit? at hbits
    split at hbits <;> cases hbits <;> decide
  have hlt := spelled_lt hradix.2 (digits_iff.1 hdigits)
  rwa [Nat.pow_mul, ← hradix.1]

end Spellings

/-- What a text is read as. -/
structure Exact (cs : List Char) : Prop where
  accepted : (read cs).issues = [] ↔ ∃ radix vs, Spells cs radix vs
  value : ∀ {radix vs}, Spells cs radix vs → (read cs).value.WellFormed ∧
    (read cs).value.value = Nat.ofDigits radix vs.reverse
  width : ∀ {radix vs}, Spells cs radix vs →
    (read cs).width.get?.map UInt32.toNat = (bitsPerDigit? radix).map (· * vs.length)
  unnamed : ∀ {letter rest}, cs = letter :: rest → (∀ radix, ¬ Names letter radix) →
    read cs = { read ('b' :: rest) with
      issues := .unknownRadix letter :: (read ('b' :: rest)).issues }
  empty : cs = [] → (read cs).issues = [.empty] ∧ (read cs).value.value = 0
  noDigits : ∀ {letter radix rest}, cs = letter :: rest → Names letter radix →
    (∀ c ∈ rest, c = '_') → (read cs).issues = [.noDigits] ∧ (read cs).value.value = 0
  badDigits : ∀ {letter radix rest}, cs = letter :: rest → Names letter radix →
    (∃ c ∈ rest, c ≠ '_' ∧ ∀ v, ¬ IsDigit radix c v) →
    (read cs).issues = [.badDigits (rest.filter (· ≠ '_')) radix] ∧ (read cs).value.value = 0
  fits : ∀ {w}, (read cs).width = .known w →
    (read cs).value.value < 2 ^ w.toNat ∧ ((read cs).value.resize w).value = (read cs).value.value

section Exact

variable {letter : Char} {radix : Nat} {rest cs : List Char} {vs : List Nat}

theorem Digits.length_eq (h : Digits radix rest vs) : (rest.filter (· ≠ '_')).length = vs.length :=
  (digits_iff.1 h).length_eq

theorem Digits.length_le (h : Digits radix rest vs) : vs.length ≤ rest.length :=
  h.length_eq ▸ List.length_filter_le _ rest

/-- What a spelling is read as. -/
theorem read_of_spells (h : Spells cs radix vs) :
    read cs = ⟨spelled radix vs, spelledWidth radix vs.length, []⟩ := by
  obtain ⟨names, digits, hsome⟩ := h
  rw [read_of_names names, readDigits_of_digits names.lt_base digits hsome, digits.length_eq]

theorem read_of_underscores (h : Names letter radix) (hrest : ∀ c ∈ rest, c = '_') :
    (read (letter :: rest)).issues = [.noDigits] ∧ (read (letter :: rest)).value = .zero 1 := by
  rw [read_of_names h, readDigits_of_underscores hrest]
  exact ⟨rfl, rfl⟩

theorem read_of_bad (h : Names letter radix)
    (hrest : ∃ c ∈ rest, c ≠ '_' ∧ ∀ v, ¬ IsDigit radix c v) :
    (read (letter :: rest)).issues = [.badDigits (rest.filter (· ≠ '_')) radix] ∧
      (read (letter :: rest)).value = .zero 1 := by
  rw [read_of_names h, readDigits_of_bad h.lt_base hrest]
  exact ⟨rfl, rfl⟩

theorem value_zero_one : (Bits.zero 1).value = 0 := Bits.value_ofNat 1 0

/-- After a letter that names a radix, a width that is said has room for the number. -/
theorem value_lt_of_names (h : Names letter radix) (hlength : rest.length < 2 ^ 28) {w : UInt32}
    (hw : (read (letter :: rest)).width = .known w) :
    (read (letter :: rest)).value.value < 2 ^ w.toNat := by
  have hpos := Nat.two_pow_pos w.toNat
  rcases digits_cases radix rest with ⟨vs, digits, hsome⟩ | hrest | hrest
  · have hcount := Nat.lt_of_le_of_lt digits.length_le hlength
    have hread := read_of_spells ⟨h, digits, hsome⟩
    have hsaid : spelledWidth radix vs.length = .known w :=
      (congrArg Reading.width hread).symm.trans hw
    have hbits := spelledWidth_eq h hcount
    rw [hsaid] at hbits
    obtain ⟨bits, hper, hwidth⟩ := Option.map_eq_some_iff.1 hbits.symm
    rw [hread, ← hwidth]
    exact (value_spelled h digits hcount).symm ▸ spelled_lt_width digits hper
  · rwa [(read_of_underscores h hrest).2, value_zero_one]
  · rwa [(read_of_bad h hrest).2, value_zero_one]

theorem value_lt (hlength : cs.length < 2 ^ 28) {w : UInt32} (hw : (read cs).width = .known w) :
    (read cs).value.value < 2 ^ w.toNat := by
  cases cs with
  | nil => cases hw
  | cons letter rest =>
    have hrest : rest.length < 2 ^ 28 := Nat.lt_of_succ_lt hlength
    by_cases h : ∃ radix, Names letter radix
    · obtain ⟨radix, h⟩ := h
      exact value_lt_of_names h hrest hw
    · rw [read_of_unnamed (not_exists.1 h)] at hw ⊢
      exact value_lt_of_names .binary hrest hw

/-- A text without issues is a spelling. -/
theorem spells_of_issues (h : (read cs).issues = []) : ∃ radix vs, Spells cs radix vs := by
  cases cs with
  | nil => cases h
  | cons letter rest =>
    by_cases hnames : ∃ radix, Names letter radix
    · obtain ⟨radix, hnames⟩ := hnames
      rcases digits_cases radix rest with ⟨vs, digits, hsome⟩ | hrest | hrest
      · exact ⟨radix, vs, hnames, digits, hsome⟩
      · rw [(read_of_underscores hnames hrest).1] at h
        cases h
      · rw [(read_of_bad hnames hrest).1] at h
        cases h
    · rw [read_of_unnamed (not_exists.1 hnames)] at h
      cases h

theorem exact_read (hlength : cs.length < 2 ^ 28) : Exact cs where
  accepted := by
    refine ⟨spells_of_issues, ?_⟩
    rintro ⟨radix, vs, h⟩
    rw [read_of_spells h]
  value := by
    rintro radix vs h
    rw [read_of_spells h]
    obtain ⟨names, digits, -⟩ := h
    have hcount := Nat.lt_of_le_of_lt digits.length_le (Nat.lt_of_succ_lt hlength)
    exact ⟨Bits.wellFormed_ofNat _ _, value_spelled names digits hcount⟩
  width := by
    rintro radix vs h
    rw [read_of_spells h]
    obtain ⟨names, digits, -⟩ := h
    exact spelledWidth_eq names (Nat.lt_of_le_of_lt digits.length_le (Nat.lt_of_succ_lt hlength))
  unnamed := by
    rintro letter rest rfl h
    exact read_of_unnamed h rest
  empty := by
    rintro rfl
    exact ⟨rfl, value_zero_one⟩
  noDigits := by
    rintro letter radix rest rfl names hrest
    obtain ⟨hissues, hvalue⟩ := read_of_underscores names hrest
    exact ⟨hissues, hvalue ▸ value_zero_one⟩
  badDigits := by
    rintro letter radix rest rfl names hrest
    obtain ⟨hissues, hvalue⟩ := read_of_bad names hrest
    exact ⟨hissues, hvalue ▸ value_zero_one⟩
  fits := by
    intro w hw
    have hlt := value_lt hlength hw
    exact ⟨hlt, by rw [Bits.resize, Bits.value_ofNat, Nat.mod_eq_of_lt hlt]⟩

end Exact

end Numeral

namespace Draft

/-! ## Literals of a description -/

/-- The payload of a spelled literal. -/
def textPayload (text : String) : Bits :=
  match (Numeral.read text.toList).width with
  | .known w => (Numeral.read text.toList).value.resize w
  | .unknown => (Numeral.read text.toList).value

theorem makesLiteral_text (w : Session) (text : String) :
    MakesLiteral w (literalText text) .uint (Numeral.read text.toList).width (textProblems text)
      (textPayload text) :=
  makesLiteral_reporting w .uint _ _ _

theorem value_textPayload {text : String} (h : Numeral.Exact text.toList) :
    (textPayload text).value = (Numeral.read text.toList).value.value := by
  unfold textPayload
  split
  · next hw => exact (h.fits hw).2
  · rfl

/-- **Spelled literals.**  A text is accepted exactly if it is a letter with digits of its radix, and is
    read as the number that they spell.  The literal that a description gets has that number and the
    width that goes with it, and each issue is reported as a fault. -/
theorem spelled_exact (text : String) (hlength : text.toList.length < 2 ^ 28) (w : Session) :
    Numeral.Exact text.toList ∧ ∃ v, v.value = (Numeral.read text.toList).value.value ∧
      MakesLiteral w (literalText text) .uint (Numeral.read text.toList).width
        ((Numeral.read text.toList).issues.map (spellingFault text)) v := by
  have hexact := Numeral.exact_read hlength
  exact ⟨hexact, _, value_textPayload hexact, makesLiteral_text w text⟩

/-- Digits in either letter case, with an underscore and a zero in front. -/
theorem mixedCase_exact :
    let w : Session := ⟨.empty, .empty 0 "t" .default⟩
    (Numeral.read "x0_dE".toList).issues = [] ∧
      (Numeral.read "x0_dE".toList).width.get?.map UInt32.toNat = some 12 ∧
      ∃ v z w', literalText "x0_dE" w = .ok z w' ∧ z.literal = some v ∧ v.value = 0xde := by
  intro w
  obtain ⟨hexact, v, hvalue, hmakes⟩ := spelled_exact "x0_dE" (by decide) w
  have hspells : Numeral.Spells "x0_dE".toList 16 [0, 13, 14] :=
    ⟨.hexadecimal', .digit ⟨by decide, .inl rfl⟩ (.underscore (.digit ⟨by decide, .inl rfl⟩
      (.digit ⟨by decide, .inr rfl⟩ .nil))), by decide⟩
  have hissues := hexact.accepted.2 ⟨_, _, hspells⟩
  obtain ⟨z, w', hz⟩ := hmakes.goes (.inl (by rw [hissues, List.map_nil]))
  refine ⟨hissues, hexact.width hspells, v, z, w', hz, ?_, ?_⟩
  · rw [(hmakes.made hz).1]
  · rw [hvalue, (hexact.value hspells).2]
    decide

end Draft

end Circuitry
