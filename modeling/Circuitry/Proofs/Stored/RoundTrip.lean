/-
  Stored circuits come back.

  `Sized` says of each kind of data in a circuit that its lengths can be stored: the bytes of every
  text, the items of every sequence, at any depth of the types and operands in it.  Nothing else is
  asked: ids may name nothing, words need not suit a width, names may repeat.

  1. Every kind of data is read from its stored form, in front of anything (`restored`).  Records go
     field by field; a variant is one case for each of its numbers; nested data is an induction along
     the recursion of `toBinary`, with its length as the bound on the nesting.
  2. The header of an artifact is read from its stored form, and it names this format; the digest in
     it is that of the bytes that follow, however digests are taken.
  3. So the circuit of an artifact is the circuit that it was made from (`Circuit.Sized.round_trip`).
-/
import Circuitry.Artifact
import Circuitry.Proofs.Stored.Reading

namespace Circuitry

open Binary

/-! ## Lengths that can be stored -/

/-- The length of a text. -/
def SizedText (s : String) : Prop := s.utf8ByteSize < 2 ^ 64

instance (s : String) : Decidable (SizedText s) := inferInstanceAs (Decidable (_ < _))

def Bits.Sized (a : Bits) : Prop := a.words.length < 2 ^ 64

namespace Ty

mutual

def Sized : Ty → Prop
  | .element _ _ => True
  | .aggregate fs => fs.length < 2 ^ 64 ∧ SizedFields fs

def SizedFields : List (String × Ty) → Prop
  | [] => True
  | (n, t) :: fs => SizedText n ∧ t.Sized ∧ SizedFields fs

end

end Ty

namespace Operand

mutual

def Sized : Operand → Prop
  | .node _ => True
  | .constant c => c.value.Sized
  | .aggregate xs => xs.length < 2 ^ 64 ∧ SizedList xs

def SizedList : List Operand → Prop
  | [] => True
  | x :: xs => x.Sized ∧ SizedList xs

end

end Operand

def Command.Sized : Command → Prop
  | .defPort _ _ name => SizedText name
  | .defPrim _ _ args => args.length < 2 ^ 64 ∧ ∀ x ∈ args, x.Sized
  | .connect _ source => source.Sized
  | .whenBegin pred _ => pred.Sized
  | _ => True

structure Node.Sized (n : Node) : Prop where
  ty : n.ty.Sized
  name : ∀ s, n.name = some s → SizedText s
  file : SizedText n.loc.file

structure Circuit.Sized (c : Circuit) : Prop where
  name : SizedText c.name
  nodeCount : c.nodes.length < 2 ^ 64
  nodes : ∀ n ∈ c.nodes, n.Sized
  portCount : c.ports.length < 2 ^ 64
  ports : ∀ p ∈ c.ports, SizedText p.name
  commandCount : c.commands.length < 2 ^ 64
  commands : ∀ cmd ∈ c.commands, cmd.Sized

/-! ## Plain data -/

theorem Bits.restored {a : Bits} (h : a.Sized) : Reads Bits.ofBinary a.toBinary a :=
  (reads_uint32 a.width).bind
    ((reads_list h fun w _ => reads_uint64 w).last (.ret _))

theorem Width.restored (w : Width) : Reads Width.ofBinary w.toBinary w := by
  cases w with
  | unknown => exact (reads_tag (by decide)).last (.ret _)
  | known n => exact (reads_tag (by decide)).bind ((reads_uint32 n).last (.ret _))

theorem NodeId.restored (id : NodeId) : Reads NodeId.ofBinary id.toBinary id :=
  (reads_uint32 id.index).map

theorem Kind.restored (k : Kind) : Reads Kind.ofBinary k.toBinary k := by
  cases k <;> exact (reads_tag (by decide)).last (.ret _)

theorem Direction.restored (d : Direction) : Reads Direction.ofBinary d.toBinary d := by
  cases d <;> exact (reads_tag (by decide)).last (.ret _)

theorem Role.restored (r : Role) : Reads Role.ofBinary r.toBinary r := by
  cases r with
  | port d => exact (reads_tag (by decide)).bind (d.restored.last (.ret _))
  | _ => exact (reads_tag (by decide)).last (.ret _)

theorem Operator.restored (op : Operator) : Reads Operator.ofBinary op.toBinary op := by
  cases op with
  | tail n | shl n | shr n | pad n =>
    exact (reads_tag (by decide)).bind ((reads_uint32 n).last (.ret _))
  | bits hi lo =>
    rw [toBinary, List.append_assoc]
    exact (reads_tag (by decide)).bind ((reads_uint32 hi).bind ((reads_uint32 lo).last (.ret _)))
  | _ => exact (reads_tag (by decide)).last (.ret _)

theorem Constant.restored {c : Constant} (h : c.value.Sized) :
    Reads Constant.ofBinary c.toBinary c := by
  rw [toBinary, List.append_assoc]
  exact c.kind.restored.bind (c.width.restored.bind ((Bits.restored h).last (.ret _)))

/-! ## Types and operands -/

theorem number_ne_nil (n : Nat) : 1 ≤ (number n).length := by
  unfold number
  split
  · exact Nat.le_refl 1
  · split
    · exact Nat.succ_le_succ (Nat.zero_le _)
    · split <;> exact Nat.succ_le_succ (Nat.zero_le _)

namespace Ty

/-- A field: a name and a type. -/
def readField (fuel : Nat) : Reader (String × Ty) := do return (← readText, ← ofBinaryWithin fuel)

mutual

/-- A type is read if the bound on the nesting is at least the length of its stored form. -/
theorem restored_within : ∀ (t : Ty) (fuel : Nat), t.Sized → t.toBinary.length ≤ fuel →
    Reads (ofBinaryWithin fuel) t.toBinary t
  | .element k w, fuel, _, hfuel => by
    rw [toBinary, List.append_assoc] at hfuel ⊢
    have htag := number_ne_nil 0
    obtain ⟨fuel, rfl⟩ : ∃ m, fuel = m + 1 :=
      Nat.exists_eq_succ_of_ne_zero (by rw [List.length_append] at hfuel; omega)
    exact (reads_tag (by decide)).bind (k.restored.bind (w.restored.last (.ret _)))
  | .aggregate fs, fuel, h, hfuel => by
    obtain ⟨hlen, hfields⟩ := h
    rw [toBinary, List.append_assoc] at hfuel ⊢
    have htag := number_ne_nil 1
    rw [List.length_append, List.length_append] at hfuel
    -- the tag takes a byte, so with one level less there is still enough for the fields
    obtain ⟨fuel, rfl⟩ : ∃ m, fuel = m + 1 := Nat.exists_eq_succ_of_ne_zero (by omega)
    have hread := restoredFields fs fuel hfields (by omega)
    exact (reads_tag (by decide)).bind (((reads_length hlen).bind hread).last (.ret _))

theorem restoredFields : ∀ (fs : List (String × Ty)) (fuel : Nat), SizedFields fs →
    (fieldsToBinary fs).length ≤ fuel →
    Reads (readItems (readField fuel) fs.length) (fieldsToBinary fs) fs
  | [], fuel, _, _ => .ret []
  | (n, t) :: fs, fuel, h, hfuel => by
    obtain ⟨hn, ht, hfs⟩ := h
    rw [fieldsToBinary] at hfuel ⊢
    rw [List.length_append, List.length_append] at hfuel
    have htype := restored_within t fuel ht (by omega)
    have hrest := restoredFields fs fuel hfs (by omega)
    have hfield : Reads (readField fuel) (Binary.text n ++ t.toBinary) (n, t) :=
      (reads_text hn).bind (htype.last (.ret _))
    exact hfield.bind (hrest.last (.ret _))

end

theorem restored {t : Ty} (h : t.Sized) : Reads ofBinary t.toBinary t :=
  Binary.reads_within fun fuel => restored_within t fuel h

end Ty

namespace Operand

mutual

/-- An operand is read if the bound on the nesting is at least the length of its stored form. -/
theorem restored_within : ∀ (x : Operand) (fuel : Nat), x.Sized → x.toBinary.length ≤ fuel →
    Reads (ofBinaryWithin fuel) x.toBinary x
  | .node id, fuel, _, hfuel => by
    rw [toBinary] at hfuel ⊢
    have htag := number_ne_nil 0
    obtain ⟨fuel, rfl⟩ : ∃ m, fuel = m + 1 :=
      Nat.exists_eq_succ_of_ne_zero (by rw [List.length_append] at hfuel; omega)
    exact (reads_tag (by decide)).bind (id.restored.last (.ret _))
  | .constant c, fuel, h, hfuel => by
    rw [toBinary] at hfuel ⊢
    have htag := number_ne_nil 1
    obtain ⟨fuel, rfl⟩ : ∃ m, fuel = m + 1 :=
      Nat.exists_eq_succ_of_ne_zero (by rw [List.length_append] at hfuel; omega)
    exact (reads_tag (by decide)).bind ((Constant.restored h).last (.ret _))
  | .aggregate xs, fuel, h, hfuel => by
    obtain ⟨hlen, hxs⟩ := h
    rw [toBinary, List.append_assoc] at hfuel ⊢
    have htag := number_ne_nil 2
    rw [List.length_append, List.length_append] at hfuel
    obtain ⟨fuel, rfl⟩ : ∃ m, fuel = m + 1 := Nat.exists_eq_succ_of_ne_zero (by omega)
    have hread := restoredList xs fuel hxs (by omega)
    exact (reads_tag (by decide)).bind (((reads_length hlen).bind hread).last (.ret _))

theorem restoredList : ∀ (xs : List Operand) (fuel : Nat), SizedList xs →
    (listToBinary xs).length ≤ fuel →
    Reads (readItems (ofBinaryWithin fuel) xs.length) (listToBinary xs) xs
  | [], fuel, _, _ => .ret []
  | x :: xs, fuel, h, hfuel => by
    obtain ⟨hx, hxs⟩ := h
    rw [listToBinary] at hfuel ⊢
    rw [List.length_append] at hfuel
    have hhead := restored_within x fuel hx (by omega)
    have hrest := restoredList xs fuel hxs (by omega)
    exact hhead.bind (hrest.last (.ret _))

end

theorem restored {x : Operand} (h : x.Sized) : Reads ofBinary x.toBinary x :=
  Binary.reads_within fun fuel => restored_within x fuel h

end Operand

/-! ## Commands, nodes and ports -/

theorem Command.restored {cmd : Command} (h : cmd.Sized) :
    Reads Command.ofBinary cmd.toBinary cmd := by
  cases cmd with
  | defPort node direction name =>
    rw [toBinary, List.append_assoc, List.append_assoc]
    exact (reads_tag (by decide)).bind
      (node.restored.bind (direction.restored.bind ((reads_text h).last (.ret _))))
  | defWire node | defReg node =>
    exact (reads_tag (by decide)).bind (node.restored.last (.ret _))
  | defPrim result op args =>
    obtain ⟨hlen, hargs⟩ := h
    rw [toBinary, List.append_assoc, List.append_assoc]
    exact (reads_tag (by decide)).bind (result.restored.bind (op.restored.bind
      ((reads_list hlen fun x hx => Operand.restored (hargs x hx)).last (.ret _))))
  | connect target source =>
    rw [toBinary, List.append_assoc]
    exact (reads_tag (by decide)).bind (target.restored.bind ((Operand.restored h).last (.ret _)))
  | whenBegin pred depth =>
    rw [toBinary, List.append_assoc]
    exact (reads_tag (by decide)).bind
      ((Operand.restored h).bind ((reads_uint32 depth).last (.ret _)))
  | whenEnd depth | altBegin depth | otherwiseEnd depth =>
    exact (reads_tag (by decide)).bind ((reads_uint32 depth).last (.ret _))

theorem Location.restored {l : Location} (h : SizedText l.file) :
    Reads Location.ofBinary l.toBinary l := by
  rw [toBinary, List.append_assoc]
  exact (reads_text h).bind ((reads_uint32 l.line).bind ((reads_uint32 l.column).last (.ret _)))

theorem Origin.restored (o : Origin) : Reads Origin.ofBinary o.toBinary o := by
  cases o with
  | defined => exact (reads_tag (by decide)).last (.ret _)
  | field parent index =>
    rw [toBinary, List.append_assoc]
    exact (reads_tag (by decide)).bind (parent.restored.bind ((reads_uint32 index).last (.ret _)))

theorem Node.restored {n : Node} (h : n.Sized) : Reads Node.ofBinary n.toBinary n := by
  rw [toBinary, List.append_assoc, List.append_assoc, List.append_assoc]
  exact (Ty.restored h.ty).bind (n.role.restored.bind
    ((reads_opt fun s hs => reads_text (h.name s hs)).bind
      (n.origin.restored.bind ((Location.restored h.file).last (.ret _)))))

theorem Port.restored {p : Port} (h : SizedText p.name) : Reads Port.ofBinary p.toBinary p := by
  rw [toBinary, List.append_assoc]
  exact (reads_text h).bind (p.direction.restored.bind (p.node.restored.last (.ret _)))

theorem Circuit.restored {c : Circuit} (h : c.Sized) : Reads Circuit.ofBinary c.toBinary c := by
  rw [toBinary, List.append_assoc, List.append_assoc]
  exact (reads_text h.name).bind
    ((reads_list h.nodeCount fun n hn => Node.restored (h.nodes n hn)).bind
      ((reads_list h.portCount fun p hp => Port.restored (h.ports p hp)).bind
        ((reads_list h.commandCount fun cmd hcmd => Command.restored (h.commands cmd hcmd)).last
          (.ret _))))

/-! ## Artifacts -/

namespace Artifact

theorem reads_digest (d : Digest) : Reads readDigest d.bytes d := by
  intro rest
  have htake : (d.bytes ++ rest).take 16 = d.bytes := List.take_left' d.length_eq
  have hdrop : (d.bytes ++ rest).drop 16 = rest := List.drop_left' d.length_eq
  have hlen : ((d.bytes ++ rest).take 16).length = 16 := by rw [htake, d.length_eq]
  rw [readDigest, dif_pos hlen, hdrop]
  simp only [htake]

theorem reads_header (digest : List UInt8 → Digest) (payload : List UInt8) :
    Reads Header.ofBinary (Header.of digest payload).toBinary (Header.of digest payload) := by
  have hmagic : magic.length = 4 := by decide +kernel
  have hproducer : producer.utf8ByteSize < 2 ^ 64 := by decide +kernel
  rw [Header.toBinary, List.append_assoc, List.append_assoc]
  exact (reads_bytes hmagic).bind ((reads_uint32 version).bind
    ((reads_text hproducer).bind ((reads_digest (digest payload)).last (.ret _))))

/-- A header takes 27 bytes. -/
theorem length_header (digest : List UInt8 → Digest) (payload : List UInt8) :
    (Header.of digest payload).toBinary.length = 27 := by
  have hfront : (magic ++ number version.toNat ++ Binary.text producer).length = 11 := by
    decide +kernel
  show (magic ++ number version.toNat ++ Binary.text producer ++ (digest payload).bytes).length = 27
  rw [List.length_append, hfront, (digest payload).length_eq]

/-- What an artifact of the circuit begins with: the length of the header, and the header. -/
def opening (digest : List UInt8 → Digest) (c : Circuit) : List UInt8 :=
  let header := (Header.of digest c.toBinary).toBinary
  LittleEndian.write 4 header.length ++ header

theorem encodeWith_eq (digest : List UInt8 → Digest) (c : Circuit) :
    encodeWith digest c = opening digest c ++ c.toBinary := rfl

/-- Whatever stands behind the header is the payload. -/
theorem split?_opening (digest : List UInt8 → Digest) (c : Circuit) (payload : List UInt8) :
    split? (opening digest c ++ payload) =
      some ((Header.of digest c.toBinary).toBinary, payload) := by
  have hsize := readBytes_append (LittleEndian.length_write 4 27)
    ((Header.of digest c.toBinary).toBinary ++ payload)
  have hheader := readBytes_append (length_header digest c.toBinary) payload
  have hback : LittleEndian.read (LittleEndian.write 4 27) = 27 := by decide
  unfold split? opening
  dsimp only
  rw [List.append_assoc, length_header, hsize]
  show readBytes (LittleEndian.read (LittleEndian.write 4 27)) _ = _
  rw [hback, hheader]

theorem readFront_of_reads {α : Type} {r : Reader α} {bytes : List UInt8} {a : α}
    (h : Reads r bytes a) : readFront r bytes = .ok a := by
  have hall : r.run bytes = some (a, []) := by
    have hread := h []
    rwa [List.append_nil] at hread
  rw [readFront, hall]

/-- The header is in order, so the digest decides whether the payload is read. -/
theorem decodeWith_opening (digest : List UInt8 → Digest) (c : Circuit) (payload : List UInt8) :
    decodeWith digest (opening digest c ++ payload) =
      if digest payload = digest c.toBinary then readFront Circuit.ofBinary payload
      else .error (.checksumMismatch (digest c.toBinary) (digest payload)) := by
  unfold decodeWith
  rw [split?_opening]
  dsimp only
  rw [readFront_of_reads (reads_header digest c.toBinary)]
  by_cases hdigest : digest payload = digest c.toBinary <;>
    simp [Header.of, hdigest, bind, Except.bind, throw, throwThe, MonadExceptOf.throw]

theorem decodeWith_encodeWith {c : Circuit} (h : c.Sized) (digest : List UInt8 → Digest) :
    decodeWith digest (encodeWith digest c) = .ok c := by
  rw [encodeWith_eq, decodeWith_opening, if_pos rfl]
  exact readFront_of_reads (Circuit.restored h)

end Artifact

/-- **Round trip.**  The circuit of an artifact is the circuit that it was made from, field for field:
    with the digest of this toolkit, and with digests taken in any other way. -/
theorem Circuit.Sized.round_trip {c : Circuit} (h : c.Sized) :
    Artifact.decode (Artifact.encode c) = .ok c ∧
      ∀ digest : List UInt8 → Digest,
        Artifact.decodeWith digest (Artifact.encodeWith digest c) = .ok c :=
  ⟨Artifact.decodeWith_encodeWith h Digest.ofBytes, Artifact.decodeWith_encodeWith h⟩

/-- A circuit with a nested aggregate, and an operator on a constant and on an aggregate. -/
def stored : Circuit where
  name := "stored"
  nodes :=
    [⟨.aggregate [("a", .aggregate [("b", .element .uint (.known 300))])], .port .input, some "in",
      .defined, ⟨"top", 7, 70000⟩⟩]
  ports := [⟨"in", .input, ⟨0⟩⟩]
  commands :=
    [.defPrim ⟨1⟩ (.bits 251 3)
      [.constant ⟨.sint, .known 65, ⟨65, [0xffffffffffffffff, 1]⟩⟩, .aggregate [.node ⟨0⟩]]]

theorem stored_sized : stored.Sized where
  name := by decide +kernel
  nodeCount := by decide
  nodes := by
    rintro n (_ | ⟨_, ⟨⟩⟩)
    exact
      { ty := ⟨by decide, by decide +kernel, ⟨by decide, by decide +kernel, trivial, trivial⟩, trivial⟩
        name := by
          rintro s ⟨⟩
          decide +kernel
        file := by decide +kernel }
  portCount := by decide
  ports := by
    rintro p (_ | ⟨_, ⟨⟩⟩)
    decide +kernel
  commandCount := by decide
  commands := by
    rintro cmd (_ | ⟨_, ⟨⟩⟩)
    refine ⟨by decide, ?_⟩
    rintro x (_ | ⟨_, _ | ⟨_, ⟨⟩⟩⟩)
    · show 2 < 2 ^ 64
      decide
    · exact ⟨by decide, trivial, trivial⟩

theorem stored_round_trip : stored.Sized ∧ Artifact.decode (Artifact.encode stored) = .ok stored :=
  ⟨stored_sized, stored_sized.round_trip.1⟩

end Circuitry
