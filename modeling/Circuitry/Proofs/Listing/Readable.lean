/-
  Command lines that can be read in one way only.

  A command line quotes and escapes nothing, so where one part of it ends has to show from the part
  itself.  Here two lines that begin alike are read side by side: whatever stands behind a part, if two
  of them go on to the same text, then they are the same and so is what stands behind
  (`a.text ++ s = b.text ++ t`).

  1. A run of characters of one class ends where the class does (`span_inj`): a number with its last
     digit, a word at the next blank, a payload at its bracket.
  2. A constant shows all that it has (`Constant.legible`).  The bits in its text are those of its
     payload, first zeros included; a boolean shows only whether it is zero, and is one bit wide
     because it suits.
  3. Items between commas end with a bracket (`listed_inj`).  The items of an aggregate are operands
     again, so `Operand.legible` is by induction on operands; behind the operands of an operator stand
     its parameters, which begin with a digit as no operand does.
  4. The first word tells commands apart, and the sign behind it a result from a connection
     (`Command.legible`).  Only the name of a port does not show where it ends.
-/
import Mathlib.Data.List.Nodup
import Circuitry.Circuit.Listing
import Circuitry.Proofs.Bits.Number
import Circuitry.Proofs.Draft.Payloads

namespace Circuitry

/-! ## Runs of characters -/

/-- The text does not go on with a character of the class. -/
def Stops (p : Char → Bool) (s : List Char) : Prop := ∀ c ∈ s.head?, p c = false

theorem Stops.of_head? {p : Char → Bool} {c : Char} {s : List Char} (hs : s.head? = some c)
    (hc : p c = false) : Stops p s := by
  intro d hd
  obtain rfl : c = d := Option.some.inj (hs.symm.trans hd)
  exact hc

theorem Stops.cons {p : Char → Bool} {c : Char} (h : p c = false) (s : List Char) :
    Stops p (c :: s) :=
  .of_head? rfl h

/-- A run of characters of one class ends where the class does. -/
theorem span_inj {p : Char → Bool} {a b s t : List Char} (ha : ∀ c ∈ a, p c = true)
    (hb : ∀ c ∈ b, p c = true) (hs : Stops p s) (ht : Stops p t) (h : a ++ s = b ++ t) :
    a = b ∧ s = t := by
  induction a generalizing b with
  | nil =>
    cases b with
    | nil => exact ⟨rfl, h⟩
    | cons c b =>
      obtain rfl : s = c :: (b ++ t) := h
      have hc := hs c rfl
      rw [hb c (List.mem_cons_self ..)] at hc
      cases hc
  | cons c a ih =>
    cases b with
    | nil =>
      obtain rfl : c :: (a ++ s) = t := h
      have hc := ht c rfl
      rw [ha c (List.mem_cons_self ..)] at hc
      cases hc
    | cons d b =>
      obtain ⟨rfl, hrest⟩ := List.cons_eq_cons.1 h
      rw [List.forall_mem_cons] at ha hb
      obtain ⟨rfl, rfl⟩ := ih ha.2 hb.2 hrest
      exact ⟨rfl, rfl⟩

/-- What does not have a character ends where it stands. -/
theorem until_inj {c : Char} {a b s t : List Char} (ha : c ∉ a) (hb : c ∉ b)
    (h : a ++ c :: s = b ++ c :: t) : a = b ∧ s = t := by
  have hother : ∀ {x : List Char}, c ∉ x → ∀ d ∈ x, (d != c) = true := by
    intro x hx d hd
    rw [bne_iff_ne]
    rintro rfl
    exact hx hd
  have hstops (u : List Char) : Stops (· != c) (c :: u) := .cons (by simp) u
  obtain ⟨rfl, hrest⟩ := span_inj (hother ha) (hother hb) (hstops s) (hstops t) h
  exact ⟨rfl, (List.cons_eq_cons.1 hrest).2⟩

/-- The text does not go on with a digit. -/
abbrev NoDigit : List Char → Prop := Stops Char.isDigit

theorem toList_number (n : UInt32) : (toString n).toList = Nat.toDigits 10 n.toNat := by
  simp [toString]

theorem isDigit_of_mem_number {n : UInt32} {c : Char} (h : c ∈ (toString n).toList) :
    c.isDigit = true := by
  rw [toList_number] at h
  exact Nat.isDigit_of_mem_toDigits (by decide) (by decide) h

/-- A number ends with its last digit. -/
theorem number_inj {m n : UInt32} {s t : List Char} (hs : NoDigit s) (ht : NoDigit t)
    (h : (toString m).toList ++ s = (toString n).toList ++ t) : m = n ∧ s = t := by
  obtain ⟨hdigits, rfl⟩ := span_inj (fun _ => isDigit_of_mem_number) (fun _ => isDigit_of_mem_number)
    hs ht h
  rw [toList_number, toList_number] at hdigits
  refine ⟨UInt32.toNat_inj.1 ?_, rfl⟩
  calc
    m.toNat = Nat.ofDigitChars 10 (Nat.toDigits 10 m.toNat) 0 := Nat.ofDigitChars_ten_toDigits.symm
    _ = Nat.ofDigitChars 10 (Nat.toDigits 10 n.toNat) 0 := by rw [hdigits]
    _ = n.toNat := Nat.ofDigitChars_ten_toDigits

/-- A number begins with a digit. -/
theorem number_head (n : UInt32) : ∃ c, (toString n).toList.head? = some c ∧ c.isDigit = true := by
  have hne : (toString n).toList ≠ [] := by
    rw [toList_number]
    exact Nat.toDigits_ne_nil
  exact ⟨_, List.head?_eq_some_head hne, isDigit_of_mem_number (List.head_mem hne)⟩

/-- What follows a text does not change how it begins. -/
theorem head?_append_of_some {a : List Char} {c : Char} (h : a.head? = some c) (s : List Char) :
    (a ++ s).head? = some c := by
  rw [List.head?_append, h, Option.some_or]

/-- Texts that go on to the same begin with one character. -/
theorem head_eq {a b s t : List Char} {c d : Char} (ha : a.head? = some c) (hb : b.head? = some d)
    (h : a ++ s = b ++ t) : c = d := by
  have hhead := congrArg List.head? h
  rw [head?_append_of_some ha, head?_append_of_some hb] at hhead
  exact Option.some.inj hhead

theorem NodeId.legible {i j : NodeId} {s t : List Char} (hs : NoDigit s) (ht : NoDigit t)
    (h : i.text.toList ++ s = j.text.toList ++ t) : i = j ∧ s = t := by
  simp only [text, String.toList_append, List.append_assoc, List.append_cancel_left_eq] at h
  obtain ⟨hindex, rfl⟩ := number_inj hs ht h
  exact ⟨congrArg NodeId.mk hindex, rfl⟩

/-! ## Constants -/

theorem Width.toList_text_known (n : UInt32) (s : List Char) :
    (Width.known n).text.toList ++ s = '<' :: ((toString n).toList ++ '>' :: s) := by
  simp [text]

theorem Width.toList_text_unknown (s : List Char) :
    Width.unknown.text.toList ++ s = '<' :: '?' :: '>' :: s := by
  simp [text]

/-- An open width does not begin like a number. -/
theorem Width.text_unknown_ne {n : UInt32} {s t : List Char} :
    Width.unknown.text.toList ++ s ≠ (Width.known n).text.toList ++ t := by
  intro h
  rw [toList_text_known, toList_text_unknown] at h
  obtain ⟨c, hhead, hdigit⟩ := number_head n
  have hnumber : ['?'] ++ '>' :: s = (toString n).toList ++ '>' :: t := (List.cons_eq_cons.1 h).2
  obtain rfl : '?' = c := head_eq rfl hhead hnumber
  exact absurd hdigit (by decide)

theorem Width.legible {v w : Width} {s t : List Char}
    (h : v.text.toList ++ s = w.text.toList ++ t) : v = w ∧ s = t := by
  cases v with
  | unknown =>
    cases w with
    | unknown => exact ⟨rfl, List.append_cancel_left h⟩
    | known n => exact absurd h text_unknown_ne
  | known m =>
    cases w with
    | unknown => exact absurd h.symm text_unknown_ne
    | known n =>
      rw [toList_text_known, toList_text_known] at h
      obtain ⟨rfl, hrest⟩ := number_inj (.cons (by decide) _) (.cons (by decide) _)
        (List.cons_eq_cons.1 h).2
      exact ⟨rfl, (List.cons_eq_cons.1 hrest).2⟩

namespace Bits

variable {a b : Bits}

/-- The text of a string has one character for each of its bits, and no other. -/
theorem WellFormed.text_inj (ha : a.WellFormed) (hb : b.WellFormed) (h : a.text = b.text) :
    a = b := by
  have hbits := String.ofList_injective h
  rw [List.map_reverse, List.map_reverse, List.reverse_inj] at hbits
  have hwidth : a.width.toNat = b.width.toNat := by simpa using congrArg List.length hbits
  refine ha.ext_get hb (UInt32.toNat_inj.1 hwidth) fun i => ?_
  by_cases hi : i < a.width.toNat
  · rw [← hwidth, List.map_inj_left] at hbits
    have hbit := hbits i (List.mem_range.2 hi)
    rw [get, get]
    cases hai : a.value.testBit i <;> cases hbi : b.value.testBit i <;> simp_all
  · rw [get_of_le a (Nat.le_of_not_lt hi), get_of_le b (hwidth ▸ Nat.le_of_not_lt hi)]

theorem not_mem_text {c : Char} (h0 : c ≠ '0') (h1 : c ≠ '1') : c ∉ a.text.toList := by
  intro hc
  simp only [text, String.toList_ofList, List.mem_map] at hc
  obtain ⟨i, -, rfl⟩ := hc
  split at h0 <;> simp_all

/-- One bit is known by whether it is zero. -/
theorem WellFormed.eq_of_isZero (ha : a.WellFormed) (hb : b.WellFormed) (hwa : a.width = 1)
    (hwb : b.width = 1) (h : a.isZero = b.isZero) : a = b := by
  have hlt : ∀ x : Bits, x.width = 1 → x.value < 2 := by
    intro x hx
    have hvalue := x.value_lt
    rwa [hx] at hvalue
  have hzero : a.value = 0 ↔ b.value = 0 := by
    rw [← ha.val_eq_value, ← hb.val_eq_value, ← isZero_iff, ← isZero_iff, h]
  refine (ha.eq_iff hb).2 ⟨hwa.trans hwb.symm, ?_⟩
  have halt := hlt a hwa
  have hblt := hlt b hwb
  omega

end Bits

/-- Kinds have names of one length. -/
theorem Kind.legible {k l : Kind} {s t : List Char}
    (h : k.text.toList ++ s = l.text.toList ++ t) : k = l ∧ s = t := by
  cases k <;> cases l <;> simp_all [text]

namespace Constant

variable {kind : Kind} {v w : Width} {a b : Bits} {s t : List Char}

/-- What stands behind the kind of a constant. -/
def shown (k : Constant) : String :=
  match k.kind with
  | .bool => "(" ++ (if k.value.isZero then "false" else "true") ++ ")"
  | _ => k.width.text ++ "(0b" ++ k.value.text ++ ")"

theorem text_eq (k : Constant) : k.text = k.kind.text ++ k.shown := by
  obtain ⟨kind, width, value⟩ := k
  cases kind with
  | bool => exact String.toList_inj.1 (by simp [text, shown, Kind.text])
  | uint | sint => simp [text, shown, groundText, String.append_assoc]

theorem shown_inj_of_number (hkind : kind ≠ .bool) (ha : a.WellFormed) (hb : b.WellFormed)
    (h : (shown ⟨kind, v, a⟩).toList ++ s = (shown ⟨kind, w, b⟩).toList ++ t) :
    v = w ∧ a = b ∧ s = t := by
  have hshown (u : Width) (x : Bits) (rest : List Char) : (shown ⟨kind, u, x⟩).toList ++ rest =
      u.text.toList ++ ("(0b".toList ++ (x.text.toList ++ ')' :: rest)) := by
    cases kind with
    | bool => exact absurd rfl hkind
    | uint | sint => simp [shown]
  rw [hshown, hshown] at h
  obtain ⟨rfl, hbits⟩ := Width.legible h
  obtain ⟨htext, rfl⟩ := until_inj (Bits.not_mem_text (by decide) (by decide))
    (Bits.not_mem_text (by decide) (by decide)) (List.append_cancel_left hbits)
  exact ⟨rfl, ha.text_inj hb (String.toList_inj.1 htext), rfl⟩

theorem shown_inj_of_bool (h : (shown ⟨.bool, v, a⟩).toList ++ s = (shown ⟨.bool, w, b⟩).toList ++ t) :
    a.isZero = b.isZero ∧ s = t := by
  cases ha : a.isZero <;> cases hb : b.isZero <;> simp_all [shown]

/-- A constant shows its kind, its width and its payload. -/
theorem legible {k l : Constant} (hk : k.Suits) (hl : l.Suits)
    (h : k.text.toList ++ s = l.text.toList ++ t) : k = l ∧ s = t := by
  obtain ⟨kind, v, a⟩ := k
  obtain ⟨kind', w, b⟩ := l
  rw [text_eq, text_eq, String.toList_append, String.toList_append, List.append_assoc,
    List.append_assoc] at h
  obtain ⟨rfl, hshown⟩ := Kind.legible h
  have ha : a.WellFormed := hk.payload.wellFormed
  have hb : b.WellFormed := hl.payload.wellFormed
  by_cases hkind : kind = .bool
  · subst hkind
    obtain ⟨hzero, rfl⟩ := shown_inj_of_bool hshown
    obtain rfl : .known 1 = v := hk.grounded
    obtain rfl : .known 1 = w := hl.grounded
    obtain rfl : a = b :=
      ha.eq_of_isZero hb hk.payload.width_eq_one hl.payload.width_eq_one hzero
    exact ⟨rfl, rfl⟩
  · obtain ⟨rfl, rfl, rfl⟩ := shown_inj_of_number hkind ha hb hshown
    exact ⟨rfl, rfl⟩

end Constant

/-! ## Items between commas -/

section Items

variable {α : Type} {f : α → List Char} {close : Char} {s t : List Char}

theorem intercalate_cons (sep x : List α) (xs : List (List α)) :
    List.intercalate sep (x :: xs) = x ++ xs.flatMap fun y => sep ++ y := by
  induction xs generalizing x with
  | nil => simp
  | cons y xs ih => simp [List.intercalate_cons_cons, ih]

/-- Items separated by commas. -/
def listed (f : α → List Char) (xs : List α) : List Char := List.intercalate ", ".toList (xs.map f)

theorem listed_cons (x : α) (xs : List α) :
    listed f (x :: xs) = f x ++ xs.flatMap fun y => ", ".toList ++ f y := by
  rw [listed, List.map_cons, intercalate_cons, List.flatMap_map]

/-- The text of an item shows which of the two it is, and where it ends. -/
def TellsApart (f : α → List Char) (x y : α) : Prop :=
  ∀ ⦃s t⦄, NoDigit s → NoDigit t → f x ++ s = f y ++ t → x = y ∧ s = t

/-- Behind an item stands a comma or the closing bracket. -/
theorem noDigit_rest (hclose : close.isDigit = false) (xs : List α) (s : List Char) :
    NoDigit ((xs.flatMap fun y => ", ".toList ++ f y) ++ close :: s) := by
  cases xs with
  | nil => exact .cons hclose s
  | cons x xs => exact .cons (by decide) _

theorem rest_inj (hclose : close.isDigit = false) (hcomma : close ≠ ',') {xs ys : List α}
    (htells : ∀ x ∈ xs, ∀ y ∈ ys, TellsApart f x y)
    (h : (xs.flatMap fun y => ", ".toList ++ f y) ++ close :: s =
      (ys.flatMap fun y => ", ".toList ++ f y) ++ close :: t) : xs = ys ∧ s = t := by
  induction xs generalizing ys with
  | nil =>
    cases ys with
    | nil => exact ⟨rfl, (List.cons_eq_cons.1 h).2⟩
    | cons y ys => exact absurd (List.cons_eq_cons.1 h).1 hcomma
  | cons x xs ih =>
    cases ys with
    | nil => exact absurd (List.cons_eq_cons.1 h).1.symm hcomma
    | cons y ys =>
      simp only [List.flatMap_cons, List.append_assoc, List.append_cancel_left_eq] at h
      obtain ⟨rfl, hrest⟩ := htells x (List.mem_cons_self ..) y (List.mem_cons_self ..)
        (noDigit_rest hclose xs s) (noDigit_rest hclose ys t) h
      obtain ⟨rfl, rfl⟩ := ih (fun x hx y hy =>
        htells x (List.mem_cons_of_mem _ hx) y (List.mem_cons_of_mem _ hy)) hrest
      exact ⟨rfl, rfl⟩

/-- Items in brackets are known from their text, if none of them begins with the closing bracket. -/
theorem listed_inj (hclose : close.isDigit = false) (hcomma : close ≠ ',') {xs ys : List α}
    (hopens : ∀ x, ∃ c, (f x).head? = some c ∧ c ≠ close)
    (htells : ∀ x ∈ xs, ∀ y ∈ ys, TellsApart f x y)
    (h : listed f xs ++ close :: s = listed f ys ++ close :: t) : xs = ys ∧ s = t := by
  have hempty : ∀ {u v : List Char} (x : α) (zs : List α),
      close :: u ≠ listed f (x :: zs) ++ v := by
    intro u v x zs heq
    obtain ⟨c, hhead, hc⟩ := hopens x
    rw [listed_cons, List.append_assoc] at heq
    have hitem : [close] ++ u = f x ++ ((zs.flatMap fun y => ", ".toList ++ f y) ++ v) := heq
    exact hc (head_eq rfl hhead hitem).symm
  cases xs with
  | nil =>
    cases ys with
    | nil => exact ⟨rfl, (List.cons_eq_cons.1 h).2⟩
    | cons y ys => exact absurd h (hempty y ys)
  | cons x xs =>
    cases ys with
    | nil => exact absurd h.symm (hempty x xs)
    | cons y ys =>
      rw [listed_cons, listed_cons, List.append_assoc, List.append_assoc] at h
      obtain ⟨rfl, hrest⟩ := htells x (List.mem_cons_self ..) y (List.mem_cons_self ..)
        (noDigit_rest hclose xs s) (noDigit_rest hclose ys t) h
      obtain ⟨rfl, rfl⟩ := rest_inj hclose hcomma (fun x hx y hy =>
        htells x (List.mem_cons_of_mem _ hx) y (List.mem_cons_of_mem _ hy)) hrest
      exact ⟨rfl, rfl⟩

end Items

/-! ## Operands -/

namespace Operand

theorem toList_texts (xs : List Operand) :
    (texts xs).toList = listed (fun a => a.text.toList) xs := by
  induction xs with
  | nil => rfl
  | cons x xs ih =>
    cases xs with
    | nil => simp [texts, listed]
    | cons y ys =>
      rw [texts, String.toList_append, String.toList_append, ih, listed_cons, listed_cons]
      · simp
      · exact List.cons_ne_nil y ys

/-- The letter of a node or of a kind, or a bracket. -/
def initial : Operand → Char
  | .node _ => 'n'
  | .constant k =>
    match k.kind with
    | .uint => 'U'
    | .sint => 'S'
    | .bool => 'B'
  | .aggregate _ => '['

theorem head?_text (a : Operand) : a.text.toList.head? = some a.initial := by
  cases a with
  | node id => simp [text, NodeId.text, initial]
  | constant k =>
    obtain ⟨kind, width, value⟩ := k
    cases kind <;> simp [text, Constant.text_eq, Kind.text, initial]
  | aggregate xs => simp [text, initial]

theorem initial_mem (a : Operand) : a.initial ∈ "nUSB[".toList := by
  rcases a with _ | ⟨_ | _ | _, _, _⟩ | _ <;> simp [initial]

theorem isDigit_initial (a : Operand) : a.initial.isDigit = false := by
  rcases a with _ | ⟨_ | _ | _, _, _⟩ | _ <;> rfl

/-- No operand begins with a character that is none of these. -/
theorem initial_ne {close : Char} (h : close ∉ "nUSB[".toList) (a : Operand) :
    ∃ c, a.text.toList.head? = some c ∧ c ≠ close := by
  refine ⟨_, a.head?_text, ?_⟩
  rintro rfl
  exact h a.initial_mem

/-- The constants of the operand are ones that literals can be. -/
def Suits (a : Operand) : Prop := ∀ k ∈ a.constants, k.Suits

theorem suits_of_mem {xs : List Operand} (h : ∀ k ∈ operandsConstants xs, k.Suits) :
    ∀ a ∈ xs, a.Suits := by
  induction xs with
  | nil => exact List.forall_mem_nil _
  | cons x xs ih =>
    simp only [operandsConstants, List.mem_append, or_imp, forall_and] at h
    exact List.forall_mem_cons.2 ⟨h.1, ih h.2⟩

mutual

/-- An operand is known from its text. -/
theorem legible (a : Operand) (ha : a.Suits) (b : Operand) (hb : b.Suits) :
    TellsApart (fun x : Operand => x.text.toList) a b := by
  intro s t hs ht h
  -- the first character tells the sorts of operands apart
  have hinitial : a.initial = b.initial := head_eq a.head?_text b.head?_text h
  cases a with
  | node i =>
    cases b with
    | node j =>
      obtain ⟨rfl, rfl⟩ := NodeId.legible hs ht h
      exact ⟨rfl, rfl⟩
    | constant l => rcases l with ⟨_ | _ | _, _, _⟩ <;> simp [initial] at hinitial
    | aggregate ys => simp [initial] at hinitial
  | constant k =>
    cases b with
    | constant l =>
      obtain ⟨rfl, rfl⟩ := Constant.legible (ha k (List.mem_singleton_self k))
        (hb l (List.mem_singleton_self l)) h
      exact ⟨rfl, rfl⟩
    | _ => rcases k with ⟨_ | _ | _, _, _⟩ <;> simp [initial] at hinitial
  | aggregate xs =>
    cases b with
    | node j => simp [initial] at hinitial
    | constant l => rcases l with ⟨_ | _ | _, _, _⟩ <;> simp [initial] at hinitial
    | aggregate ys =>
      simp only [text, String.toList_append, List.append_assoc, List.append_cancel_left_eq,
        toList_texts] at h
      obtain ⟨rfl, rfl⟩ := listed_inj (by decide) (by decide) (initial_ne (by decide))
        (fun x hx y hy => legible_of_mem xs (suits_of_mem ha) x hx y (suits_of_mem hb y hy)) h
      exact ⟨rfl, rfl⟩

theorem legible_of_mem (xs : List Operand) (hxs : ∀ x ∈ xs, x.Suits) (a : Operand) (ha : a ∈ xs)
    (b : Operand) (hb : b.Suits) : TellsApart (fun x : Operand => x.text.toList) a b := by
  cases xs with
  | nil => cases ha
  | cons x xs =>
    rw [List.forall_mem_cons] at hxs
    rcases List.mem_cons.1 ha with rfl | ha
    · exact legible a hxs.1 b hb
    · exact legible_of_mem xs hxs.2 a ha b hb

end

end Operand

/-! ## Operators -/

namespace Operator

/-- All operators, with the parameters from the list. -/
def candidates (params : List UInt32) : List Operator :=
  let p (i : Nat) : UInt32 := params.getD i 0
  [.add, .sub, .tail (p 0), .mul, .div, .rem, .and, .or, .xor, .not, .shl (p 0), .shr (p 0), .dshl,
    .dshr, .cat, .eq, .neq, .lt, .leq, .gt, .geq, .bits (p 0) (p 1), .asSInt, .asUInt, .asBool, .mux,
    .andReduce, .orReduce, .xorReduce, .pad (p 0)]

theorem mem_candidates (op : Operator) : op ∈ candidates op.params := by
  cases op <;> simp [candidates, params]

/-- Every operator has a name of its own. -/
theorem nodup_mnemonics (params : List UInt32) : ((candidates params).map mnemonic).Nodup := by
  simp only [candidates, List.map_cons, List.map_nil, mnemonic]
  decide

theorem eq_of_mnemonic {op op' : Operator} (hname : op.mnemonic = op'.mnemonic)
    (hparams : op.params = op'.params) : op = op' :=
  List.inj_on_of_nodup_map (nodup_mnemonics op.params) op.mem_candidates
    (hparams ▸ op'.mem_candidates) hname

theorem not_mem_mnemonic (op : Operator) : '(' ∉ op.mnemonic.toList := by
  cases op <;> simp [mnemonic]

end Operator

/-! ## Commands -/

namespace Command

variable {op op' : Operator} {args args' : List Operand} {s t : List Char}

/-- An operand or a parameter. -/
def itemText : Operand ⊕ UInt32 → List Char
  | .inl a => a.text.toList
  | .inr n => (toString n).toList

/-- The operands of an operator, and its parameters behind them. -/
def items (op : Operator) (args : List Operand) : List (Operand ⊕ UInt32) :=
  args.map .inl ++ op.params.map .inr

theorem toList_argumentsText (op : Operator) (args : List Operand) :
    (argumentsText op args).toList = listed itemText (items op args) := by
  simp [argumentsText, listed, items, itemText, Function.comp_def]

/-- A parameter begins with a digit, and no operand does. -/
theorem operand_ne_param (a : Operand) (n : UInt32) :
    a.text.toList ++ s ≠ (toString n).toList ++ t := by
  intro h
  obtain ⟨c, hc, hdigit⟩ := number_head n
  obtain rfl : a.initial = c := head_eq a.head?_text hc h
  rw [a.isDigit_initial] at hdigit
  cases hdigit

theorem tellsApart_items {x y : Operand ⊕ UInt32} (hx : ∀ a, x = .inl a → a.Suits)
    (hy : ∀ a, y = .inl a → a.Suits) : TellsApart itemText x y := by
  intro s t hs ht h
  cases x with
  | inl a =>
    cases y with
    | inl b =>
      obtain ⟨rfl, rfl⟩ := a.legible (hx a rfl) b (hy b rfl) hs ht h
      exact ⟨rfl, rfl⟩
    | inr n => exact absurd h (operand_ne_param a n)
  | inr m =>
    cases y with
    | inl b => exact absurd h.symm (operand_ne_param b m)
    | inr n =>
      obtain ⟨rfl, rfl⟩ := number_inj hs ht h
      exact ⟨rfl, rfl⟩

theorem head?_itemText (x : Operand ⊕ UInt32) : ∃ c, (itemText x).head? = some c ∧ c ≠ ')' := by
  cases x with
  | inl a => exact Operand.initial_ne (by decide) a
  | inr n =>
    obtain ⟨c, hc, hdigit⟩ := number_head n
    refine ⟨c, hc, ?_⟩
    rintro rfl
    exact absurd hdigit (by decide)

/-- An operator is known from its name, its operands and its parameters. -/
theorem operation_inj (hargs : ∀ a ∈ args, a.Suits) (hargs' : ∀ a ∈ args', a.Suits)
    (h : op.mnemonic.toList ++ '(' :: ((argumentsText op args).toList ++ ')' :: s) =
      op'.mnemonic.toList ++ '(' :: ((argumentsText op' args').toList ++ ')' :: t)) :
    op = op' ∧ args = args' ∧ s = t := by
  have hsuits : ∀ {op : Operator} {args : List Operand}, (∀ a ∈ args, a.Suits) →
      ∀ x ∈ items op args, ∀ a, x = .inl a → a.Suits := by
    rintro op args hargs _ hx a rfl
    exact hargs a (by simpa [items] using hx)
  obtain ⟨hname, harguments⟩ := until_inj op.not_mem_mnemonic op'.not_mem_mnemonic h
  rw [toList_argumentsText, toList_argumentsText] at harguments
  obtain ⟨hitems, rfl⟩ := listed_inj (by decide) (by decide) head?_itemText
    (fun x hx y hy => tellsApart_items (hsuits hargs x hx) (hsuits hargs' y hy)) harguments
  have hoperands : args = args' := by
    simpa [items, Function.comp_def] using congrArg (List.filterMap Sum.getLeft?) hitems
  have hparams : op.params = op'.params := by
    simpa [items, Function.comp_def] using congrArg (List.filterMap Sum.getRight?) hitems
  exact ⟨Operator.eq_of_mnemonic (String.toList_inj.1 hname) hparams, hoperands, rfl⟩

/-- What a command line begins with, up to the first blank. -/
def word : Command → String
  | .defPort _ direction _ => direction.text
  | .defWire _ => "wire"
  | .defReg _ => "reg"
  | .defPrim result _ _ => result.text
  | .connect target _ => target.text
  | .whenBegin _ _ => "when"
  | .whenEnd _ => "end"
  | .altBegin _ => "else"
  | .otherwiseEnd _ => "end-else"

/-- What stands behind the first blank of a command line. -/
def behind : Command → String
  | .defPort node _ name => node.text ++ " " ++ name
  | .defWire node | .defReg node => node.text
  | .defPrim _ op args => "= " ++ op.mnemonic ++ "(" ++ argumentsText op args ++ ")"
  | .connect _ source => "<= " ++ source.text
  | .whenBegin pred depth => pred.text ++ " [" ++ toString depth ++ "]"
  | .whenEnd depth | .altBegin depth | .otherwiseEnd depth => "[" ++ toString depth ++ "]"

theorem toList_text (cmd : Command) (s : List Char) :
    cmd.text.toList ++ s = cmd.word.toList ++ ' ' :: (cmd.behind.toList ++ s) := by
  cases cmd <;> simp [text, word, behind]

theorem not_mem_word (cmd : Command) : ' ' ∉ cmd.word.toList := by
  have hnode (id : NodeId) : ' ' ∉ id.text.toList := by
    intro h
    simp only [NodeId.text, String.toList_append, List.mem_append] at h
    rcases h with h | h
    · exact absurd h (by decide)
    · exact absurd (isDigit_of_mem_number h) (by decide)
  cases cmd with
  | defPort node direction name => cases direction <;> simp [word, Direction.text]
  | defPrim result op args => exact hnode result
  | connect target source => exact hnode target
  | _ => simp [word]

/-- Commands of one sort, and ports of one direction. -/
inductive Alike : Command → Command → Prop
  | port (i j : NodeId) (direction : Direction) (m n : String) :
      Alike (.defPort i direction m) (.defPort j direction n)
  | wire (i j : NodeId) : Alike (.defWire i) (.defWire j)
  | register (i j : NodeId) : Alike (.defReg i) (.defReg j)
  | result (i j : NodeId) (op op' : Operator) (args args' : List Operand) :
      Alike (.defPrim i op args) (.defPrim j op' args')
  | connection (i j : NodeId) (a b : Operand) : Alike (.connect i a) (.connect j b)
  | whenBegin (a b : Operand) (m n : UInt32) : Alike (.whenBegin a m) (.whenBegin b n)
  | whenEnd (m n : UInt32) : Alike (.whenEnd m) (.whenEnd n)
  | altBegin (m n : UInt32) : Alike (.altBegin m) (.altBegin n)
  | otherwiseEnd (m n : UInt32) : Alike (.otherwiseEnd m) (.otherwiseEnd n)

/-- The first word shows the sort, but for results and connections; they differ in the sign behind. -/
theorem alike {c d : Command} (hword : c.word.toList = d.word.toList)
    (hbehind : c.behind.toList ++ s = d.behind.toList ++ t) : Alike c d := by
  rcases c with ⟨i, _ | _, m⟩ | _ | _ | _ | _ | _ | _ | _ | _ <;>
  rcases d with ⟨j, _ | _, n⟩ | _ | _ | _ | _ | _ | _ | _ | _ <;>
  first
  | constructor
  | simp [word, behind, Direction.text, NodeId.text] at hword hbehind

theorem depth_inj {m n : UInt32}
    (h : '[' :: ((toString m).toList ++ ']' :: s) = '[' :: ((toString n).toList ++ ']' :: t)) :
    m = n ∧ s = t := by
  obtain ⟨rfl, hrest⟩ := number_inj (.cons (by decide) _) (.cons (by decide) _)
    (List.cons_eq_cons.1 h).2
  exact ⟨rfl, (List.cons_eq_cons.1 hrest).2⟩

/-- **A command is known from its line**, but for the name of a port, which does not show where it
    ends. -/
theorem legible {c d : Command} (hc : ∀ k ∈ c.constants, k.Suits) (hd : ∀ k ∈ d.constants, k.Suits)
    (hs : NoDigit s) (ht : NoDigit t) (h : c.text.toList ++ s = d.text.toList ++ t) :
    c = d ∧ s = t ∨ ∃ id direction m n, c = .defPort id direction m ∧ d = .defPort id direction n ∧
      m.toList ++ s = n.toList ++ t := by
  rw [toList_text, toList_text] at h
  obtain ⟨hword, hbehind⟩ := until_inj c.not_mem_word d.not_mem_word h
  have hcs := Operand.suits_of_mem hc
  have hds := Operand.suits_of_mem hd
  have hnode : ∀ {i j : NodeId}, i.text.toList = j.text.toList → i = j := by
    intro i j h
    exact (@NodeId.legible i j [] [] nofun nofun (congrArg (· ++ []) h)).1
  cases alike hword hbehind with
  | port i j direction m n =>
    have hline : i.text.toList ++ ' ' :: (m.toList ++ s) = j.text.toList ++ ' ' :: (n.toList ++ t) := by
      simpa [behind] using hbehind
    obtain ⟨rfl, hname⟩ := NodeId.legible (.cons (by decide) _) (.cons (by decide) _) hline
    exact .inr ⟨i, direction, m, n, rfl, rfl, (List.cons_eq_cons.1 hname).2⟩
  | wire i j | register i j =>
    obtain ⟨rfl, rfl⟩ := NodeId.legible hs ht hbehind
    exact .inl ⟨rfl, rfl⟩
  | result i j op op' args args' =>
    obtain rfl := hnode hword
    have hline : op.mnemonic.toList ++ '(' :: ((argumentsText op args).toList ++ ')' :: s) =
        op'.mnemonic.toList ++ '(' :: ((argumentsText op' args').toList ++ ')' :: t) := by
      simpa [behind] using hbehind
    obtain ⟨rfl, rfl, rfl⟩ := operation_inj hcs hds hline
    exact .inl ⟨rfl, rfl⟩
  | connection i j a b =>
    obtain rfl := hnode hword
    have hline : a.text.toList ++ s = b.text.toList ++ t := by simpa [behind] using hbehind
    obtain ⟨rfl, rfl⟩ := a.legible (hcs a (List.mem_singleton_self a)) b
      (hds b (List.mem_singleton_self b)) hs ht hline
    exact .inl ⟨rfl, rfl⟩
  | whenBegin a b m n =>
    have hline : a.text.toList ++ ' ' :: '[' :: ((toString m).toList ++ ']' :: s) =
        b.text.toList ++ ' ' :: '[' :: ((toString n).toList ++ ']' :: t) := by
      simpa [behind] using hbehind
    obtain ⟨rfl, hdepth⟩ := a.legible (hcs a (List.mem_singleton_self a)) b
      (hds b (List.mem_singleton_self b)) (.cons (by decide) _) (.cons (by decide) _) hline
    obtain ⟨rfl, rfl⟩ := depth_inj (List.cons_eq_cons.1 hdepth).2
    exact .inl ⟨rfl, rfl⟩
  | whenEnd m n | altBegin m n | otherwiseEnd m n =>
    obtain ⟨rfl, rfl⟩ := depth_inj (by simpa [behind] using hbehind)
    exact .inl ⟨rfl, rfl⟩

end Command

end Circuitry
