/-
  Artifacts that end too early.

  1. A reader that reads some bytes reads them in front of more bytes too, and leaves those as well
     (`Steady`).  No piece of the stored form asks whether anything follows: numbers, texts and
     sequences say beforehand how much they take.  Only nested data looks at the number of bytes, and
     more of them allow more nesting, which is why the law is about two readers (`Extends`).
  2. So where bytes are read to their end, nothing shorter is read (`Reads.eq_none`): a reader that
     took a shorter front would leave the missing bytes over.
  3. A front of an artifact without its whole header is rejected for that.  Any longer one has a proper
     front of the stored circuit behind the header.  The digest may or may not notice; if it does not,
     then the reader of the circuit does (`cutFault`, `Circuit.Sized.truncated`).

  Nothing is asked of the digest: two payloads with one digest are not ruled out.
-/
import Circuitry.Proofs.Stored.RoundTrip

namespace Circuitry

namespace Binary

variable {α β : Type}

/-- What `r` reads, `r'` reads in front of more, and leaves that too. -/
def Extends (r r' : Reader α) : Prop :=
  ∀ bytes a rest more, r bytes = some (a, rest) → r' (bytes ++ more) = some (a, rest ++ more)

/-- What is read does not depend on what comes after it. -/
abbrev Steady (r : Reader α) : Prop := Extends r r

/-- **Nothing shorter is read.**  Bytes that are read to their end are not read before it. -/
theorem Reads.eq_none {r : Reader α} {bytes front : List UInt8} {a : α} (h : Reads r bytes a)
    (hr : Steady r) (hfront : front <+: bytes) (hne : front ≠ bytes) : r front = none := by
  obtain ⟨more, rfl⟩ := hfront
  have hmore : more ≠ [] := by
    rintro rfl
    exact hne (List.append_nil front).symm
  cases hread : r front with
  | none => rfl
  | some p =>
    obtain ⟨b, rest⟩ := p
    -- read in front of `more`, it would leave all of `more`, and `h` says that nothing is left
    have hlong := hr front b rest more hread
    have hall := h []
    rw [List.append_nil, hlong, Option.some.injEq, Prod.mk.injEq] at hall
    exact absurd (List.append_eq_nil_iff.1 hall.2).2 hmore

/-! ## Pieces -/

namespace Extends

theorem ret (a : α) : Steady (pure a) := by
  rintro bytes b rest more ⟨⟩
  rfl

theorem failure {r : Reader α} : Extends failure r := nofun

/-- One part after the other. -/
theorem bind {r r' : Reader α} {f f' : α → Reader β} (h : Extends r r')
    (hf : ∀ a, Extends (f a) (f' a)) : Extends (r >>= f) (r' >>= f') := by
  intro bytes b rest more hread
  obtain ⟨⟨a, left⟩, hfirst, hsecond⟩ := Option.bind_eq_some_iff.1 hread
  rw [Reader.bind_apply (h bytes a left more hfirst)]
  exact hf a left b rest more hsecond

theorem map {r r' : Reader α} {g : α → β} (h : Extends r r') : Extends (g <$> r) (g <$> r') := by
  intro bytes b rest more hread
  obtain ⟨⟨a, left⟩, hfirst, hlast⟩ := Option.bind_eq_some_iff.1 hread
  cases hlast
  show (r' (bytes ++ more) >>= fun p => some (g p.1, p.2)) = _
  rw [h bytes a rest more hfirst]
  rfl

end Extends

theorem steady_byte : Steady readByte := by
  rintro (_ | ⟨b, bytes⟩) a rest more ⟨⟩
  rfl

theorem steady_bytes (count : Nat) : Steady (readBytes count) := by
  intro bytes a rest more hread
  obtain ⟨hcount, heq⟩ := Option.ite_none_right_eq_some.1 hread
  obtain ⟨rfl, rfl⟩ := Prod.mk.inj (Option.some.inj heq)
  have hlong : count ≤ (bytes ++ more).length := by
    rw [List.length_append]
    omega
  rw [readBytes, if_pos hlong, List.take_append_of_le_length hcount,
    List.drop_append_of_le_length hcount]

theorem steady_number (room : Nat) : Steady (readNumber room) := by
  refine .bind steady_byte fun b => ?_
  split
  · exact .ret _
  · split
    · exact .failure
    · split
      · exact .bind (steady_bytes _) fun _ => .ret _
      · exact .failure

theorem steady_tag : Steady readTag := steady_number 4

theorem steady_uint32 : Steady readUInt32 := (steady_number 4).map

theorem steady_uint64 : Steady readUInt64 := (steady_number 8).map

theorem steady_text : Steady readText := by
  refine .bind (steady_number 8) fun count => .bind (steady_bytes count) fun bytes => ?_
  split
  · exact .ret _
  · exact .failure

section Sequences

variable {item item' : Reader α}

theorem extends_items (h : Extends item item') :
    ∀ count, Extends (readItems item count) (readItems item' count)
  | 0 => .ret []
  | count + 1 => .bind h fun _ => .bind (extends_items h count) fun _ => .ret _

theorem extends_list (h : Extends item item') : Extends (readList item) (readList item') :=
  .bind (steady_number 8) (extends_items h)

theorem steady_opt (h : Steady item) : Steady (readOpt item) := by
  refine .bind steady_byte fun b => ?_
  split
  · exact .ret _
  · split
    · exact .bind h fun _ => .ret _
    · exact .failure

end Sequences

/-- With more bytes left, the bound on the nesting is higher. -/
theorem steady_within {r : Nat → Reader α} (h : ∀ n m, n ≤ m → Extends (r n) (r m)) :
    Steady (do r (← get).length) := by
  intro bytes a rest more hread
  have hle : bytes.length ≤ (bytes ++ more).length := by
    rw [List.length_append]
    omega
  exact h _ _ hle bytes a rest more hread

end Binary

open Binary

/-! ## Data -/

theorem Bits.steady : Steady Bits.ofBinary :=
  .bind steady_uint32 fun _ => .bind (extends_list steady_uint64) fun _ => .ret _

theorem Width.steady : Steady Width.ofBinary := by
  refine .bind steady_tag fun tag => ?_
  split
  · exact .ret _
  · exact .bind steady_uint32 fun _ => .ret _
  · exact .failure

theorem NodeId.steady : Steady NodeId.ofBinary := steady_uint32.map

theorem Kind.steady : Steady Kind.ofBinary := by
  refine .bind steady_tag fun tag => ?_
  split
  all_goals first | exact .ret _ | exact .failure

theorem Direction.steady : Steady Direction.ofBinary := by
  refine .bind steady_tag fun tag => ?_
  split
  all_goals first | exact .ret _ | exact .failure

theorem Role.steady : Steady Role.ofBinary := by
  refine .bind steady_tag fun tag => ?_
  split
  case h_2 => exact .bind Direction.steady fun _ => .ret _
  all_goals first | exact .ret _ | exact .failure

theorem Operator.steady : Steady Operator.ofBinary := by
  refine .bind steady_tag fun tag => ?_
  split
  case h_3 | h_11 | h_12 | h_30 => exact .bind steady_uint32 fun _ => .ret _
  case h_22 => exact .bind steady_uint32 fun _ => .bind steady_uint32 fun _ => .ret _
  all_goals first | exact .ret _ | exact .failure

theorem Constant.steady : Steady Constant.ofBinary :=
  .bind Kind.steady fun _ => .bind Width.steady fun _ => .bind Bits.steady fun _ => .ret _

/-! ## Types and operands -/

/-- What is read with a bound on the nesting is read with any higher one. -/
theorem Ty.extends_within : ∀ n m, n ≤ m → Extends (ofBinaryWithin n) (ofBinaryWithin m)
  | 0, _, _ => .failure
  | n + 1, m + 1, h => by
    refine .bind steady_tag fun tag => ?_
    have hfield : Extends (readField n) (readField m) :=
      .bind steady_text fun _ =>
        .bind (extends_within n m (Nat.le_of_succ_le_succ h)) fun _ => .ret _
    split
    · exact .bind Kind.steady fun _ => .bind Width.steady fun _ => .ret _
    · exact .bind (extends_list hfield) fun _ => .ret _
    · exact .failure

theorem Ty.steady : Steady Ty.ofBinary := steady_within Ty.extends_within

theorem Operand.extends_within : ∀ n m, n ≤ m → Extends (ofBinaryWithin n) (ofBinaryWithin m)
  | 0, _, _ => .failure
  | n + 1, m + 1, h => by
    refine .bind steady_tag fun tag => ?_
    have hinner := extends_within n m (Nat.le_of_succ_le_succ h)
    split
    · exact .bind NodeId.steady fun _ => .ret _
    · exact .bind Constant.steady fun _ => .ret _
    · exact .bind (extends_list hinner) fun _ => .ret _
    · exact .failure

theorem Operand.steady : Steady Operand.ofBinary := steady_within Operand.extends_within

/-! ## Commands, nodes and circuits -/

theorem Command.steady : Steady Command.ofBinary := by
  refine .bind steady_tag fun tag => ?_
  split
  case h_1 =>
    exact .bind NodeId.steady fun _ => .bind Direction.steady fun _ =>
      .bind steady_text fun _ => .ret _
  case h_2 | h_3 => exact .bind NodeId.steady fun _ => .ret _
  case h_4 =>
    exact .bind NodeId.steady fun _ => .bind Operator.steady fun _ =>
      .bind (extends_list Operand.steady) fun _ => .ret _
  case h_5 => exact .bind NodeId.steady fun _ => .bind Operand.steady fun _ => .ret _
  case h_6 => exact .bind Operand.steady fun _ => .bind steady_uint32 fun _ => .ret _
  case h_7 | h_8 | h_9 => exact .bind steady_uint32 fun _ => .ret _
  case h_10 => exact .failure

theorem Location.steady : Steady Location.ofBinary :=
  .bind steady_text fun _ => .bind steady_uint32 fun _ => .bind steady_uint32 fun _ => .ret _

theorem Origin.steady : Steady Origin.ofBinary := by
  refine .bind steady_tag fun tag => ?_
  split
  · exact .ret _
  · exact .bind NodeId.steady fun _ => .bind steady_uint32 fun _ => .ret _
  · exact .failure

theorem Node.steady : Steady Node.ofBinary :=
  .bind Ty.steady fun _ => .bind Role.steady fun _ => .bind (steady_opt steady_text) fun _ =>
    .bind Origin.steady fun _ => .bind Location.steady fun _ => .ret _

theorem Port.steady : Steady Port.ofBinary :=
  .bind steady_text fun _ => .bind Direction.steady fun _ => .bind NodeId.steady fun _ => .ret _

theorem Circuit.steady : Steady Circuit.ofBinary :=
  .bind steady_text fun _ => .bind (extends_list Node.steady) fun _ =>
    .bind (extends_list Port.steady) fun _ => .bind (extends_list Command.steady) fun _ => .ret _

/-- No proper front of a stored circuit is a stored circuit, with anything left over or not. -/
theorem Circuit.Sized.ofBinary_eq_none {c : Circuit} (h : c.Sized) {front : List UInt8}
    (hfront : front <+: c.toBinary) (hne : front ≠ c.toBinary) : Circuit.ofBinary front = none :=
  (Circuit.restored h).eq_none Circuit.steady hfront hne

/-! ## Artifacts -/

namespace Artifact

variable (digest : List UInt8 → Digest)

/-- The fault of a front of the circuit's artifact. -/
def cutFault (c : Circuit) (front : List UInt8) : Fault :=
  if front.length < (opening digest c).length then .truncated
  else
    let payload := front.drop (opening digest c).length
    if digest payload = digest c.toBinary then .malformed
    else .checksumMismatch (digest c.toBinary) (digest payload)

/-- An opening takes 31 bytes, whatever the circuit is. -/
theorem length_opening (c : Circuit) : (opening digest c).length = 31 := by
  rw [opening, List.length_append, LittleEndian.length_write, length_header]

/-- Without a complete header there is nothing to split. -/
theorem split?_eq_none {c : Circuit} {front : List UInt8} (hfront : front <+: opening digest c)
    (hne : front ≠ opening digest c) : split? front = none := by
  -- `split?` takes bytes from the front like a reader, and an opening alone is read to its end
  have hreads : Reads (fun bytes => split? bytes) (opening digest c)
      (Header.of digest c.toBinary).toBinary := split?_opening digest c
  refine hreads.eq_none ?_ hfront hne
  exact .bind (steady_bytes 4) fun sizeBytes => steady_bytes (LittleEndian.read sizeBytes)

theorem readFront_eq_malformed {α : Type} {r : Reader α} {bytes : List UInt8}
    (h : r bytes = none) : readFront r bytes = .error .malformed := by
  have hrun : r.run bytes = none := h
  rw [readFront, hrun]

variable {digest}

theorem decodeWith_front {c : Circuit} (h : c.Sized) {front : List UInt8}
    (hfront : front <+: encodeWith digest c) (hne : front ≠ encodeWith digest c) :
    decodeWith digest front = .error (cutFault digest c front) := by
  rw [encodeWith_eq] at hfront hne
  unfold cutFault
  split
  · next hshort =>
    have hopening : front <+: opening digest c :=
      List.prefix_of_prefix_length_le hfront (List.prefix_append ..) (Nat.le_of_lt hshort)
    have hnot : front ≠ opening digest c := by
      rintro rfl
      exact absurd hshort (Nat.lt_irrefl _)
    rw [decodeWith, split?_eq_none digest hopening hnot]
  · next hlong =>
    obtain ⟨payload, rfl⟩ : opening digest c <+: front :=
      List.prefix_of_prefix_length_le (List.prefix_append ..) hfront (Nat.le_of_not_lt hlong)
    have hpayload : payload <+: c.toBinary := (List.prefix_append_right_inj _).1 hfront
    have hnot : payload ≠ c.toBinary := fun heq => hne (heq ▸ rfl)
    rw [decodeWith_opening, readFront_eq_malformed (h.ofBinary_eq_none hpayload hnot),
      List.drop_left]
    dsimp only
    split <;> rfl

end Artifact

/-- **Artifacts that end too early.**  A stored circuit is read to its last byte and no proper front of
    it is read at all.  So a proper front of an artifact is rejected, however digests are taken: for its
    header if the cut is before the header's end, and else for its digest or, should that be the same,
    for its payload. -/
theorem Circuit.Sized.truncated {c : Circuit} (h : c.Sized) :
    Circuit.ofBinary c.toBinary = some (c, []) ∧
    (∀ payload, payload <+: c.toBinary → payload ≠ c.toBinary → Circuit.ofBinary payload = none) ∧
    ∀ (digest : List UInt8 → Digest) (front : List UInt8),
      front <+: Artifact.encodeWith digest c → front ≠ Artifact.encodeWith digest c →
      Artifact.decodeWith digest front = .error (Artifact.cutFault digest c front) := by
  refine ⟨?_, fun payload => h.ofBinary_eq_none, fun digest front => Artifact.decodeWith_front h⟩
  have hall := Circuit.restored h []
  rwa [List.append_nil] at hall

/-- Cut inside its header, and cut before its last byte where all digests are the same. -/
theorem stored_truncated :
    Artifact.decode ((Artifact.encode stored).take 30) = .error .truncated ∧
    ∀ d : Digest, Artifact.decodeWith (fun _ => d) (Artifact.encodeWith (fun _ => d) stored).dropLast =
      .error .malformed := by
  obtain ⟨-, -, hcut⟩ := Circuit.Sized.truncated stored_sized
  have hlength (digest : List UInt8 → Digest) :
      31 < (Artifact.encodeWith digest stored).length := by
    have hpayload : 0 < stored.toBinary.length := by decide +kernel
    rw [Artifact.encodeWith_eq, List.length_append, Artifact.length_opening]
    omega
  constructor
  · have hall : 31 < (Artifact.encode stored).length := hlength Digest.ofBytes
    have hshort := List.length_take_le 30 (Artifact.encode stored)
    have hne : (Artifact.encode stored).take 30 ≠ Artifact.encode stored :=
      ne_of_apply_ne List.length (by omega)
    refine (hcut Digest.ofBytes _ (List.take_prefix ..) hne).trans ?_
    rw [Artifact.cutFault, Artifact.length_opening]
    exact congrArg _ (if_pos (Nat.lt_succ_of_le hshort))
  · intro d
    have hall := hlength fun _ => d
    have hdrop : (Artifact.encodeWith (fun _ => d) stored).dropLast.length =
        (Artifact.encodeWith (fun _ => d) stored).length - 1 := List.length_dropLast
    have hne : (Artifact.encodeWith (fun _ => d) stored).dropLast ≠
        Artifact.encodeWith (fun _ => d) stored :=
      ne_of_apply_ne List.length (by omega)
    refine (hcut _ _ (List.dropLast_prefix _) hne).trans ?_
    rw [Artifact.cutFault, Artifact.length_opening, if_neg (by omega)]
    exact congrArg _ (if_pos rfl)

end Circuitry
