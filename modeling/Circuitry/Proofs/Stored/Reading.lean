/-
  Readers that take back what was written.

  `Reads r bytes a` says that in front of anything the bytes are read as `a`, and nothing more is
  taken.  A form made of parts is read by the readers of its parts one after the other
  (`Reads.bind`), so there is one law for each piece of the stored form: numbers, variants, texts,
  sequences, optional values.

  Lengths have to be below 2^64, which is all that the stored form can hold.  Nested data is read
  with the number of bytes left as a bound on the nesting; `reads_within` says that it is enough.
-/
import Circuitry.Binary

namespace Circuitry

/-! ## Bytes of a text -/

theorem toList_loop (bytes : ByteArray) (i : Nat) (front : List UInt8) :
    ByteArray.toList.loop bytes i front = front.reverse ++ bytes.data.toList.drop i := by
  induction h : bytes.size - i generalizing i front with
  | zero =>
    rw [ByteArray.toList.loop, if_neg (by omega)]
    have hend : bytes.data.toList.length ≤ i := by
      show bytes.size ≤ i
      omega
    rw [List.drop_eq_nil_of_le hend, List.append_nil]
  | succ n ih =>
    have hi : i < bytes.size := by omega
    have hlist : i < bytes.data.toList.length := hi
    have hget : bytes.get! i = bytes.data.toList[i] := by
      show bytes.data[i]! = _
      rw [getElem!_pos bytes.data i hi]
      rfl
    rw [ByteArray.toList.loop, if_pos hi, ih (i + 1) _ (by omega), List.reverse_cons, hget,
      List.append_assoc, List.drop_eq_getElem_cons hlist]
    rfl

/-- The bytes of an array, listed and put together again. -/
theorem toByteArray_toList (bytes : ByteArray) : bytes.toList.toByteArray = bytes := by
  have hlist : bytes.toList = bytes.data.toList := toList_loop bytes 0 []
  rw [hlist]
  apply ByteArray.ext
  rw [List.data_toByteArray]

theorem length_toUTF8 (s : String) : s.toUTF8.toList.length = s.utf8ByteSize := by
  have hlist : s.toUTF8.toList = s.toUTF8.data.toList := toList_loop _ 0 []
  rw [hlist]
  rfl

namespace Binary

/-- In front of anything, the reader takes the bytes as `a`. -/
def Reads {α : Type} (r : Reader α) (bytes : List UInt8) (a : α) : Prop :=
  ∀ rest, r (bytes ++ rest) = some (a, rest)

namespace Reads

variable {α β : Type} {r : Reader α} {f : α → Reader β} {xs ys : List UInt8} {a : α} {b : β}

theorem ret (a : α) : Reads (pure a) [] a := fun _ => rfl

/-- One part after the other. -/
theorem bind (h : Reads r xs a) (hf : Reads (f a) ys b) : Reads (r >>= f) (xs ++ ys) b := by
  intro rest
  rw [List.append_assoc, Reader.bind_apply (h (ys ++ rest))]
  exact hf rest

/-- The last part. -/
theorem last (h : Reads r xs a) (hf : Reads (f a) [] b) : Reads (r >>= f) xs b := by
  have hboth := h.bind hf
  rwa [List.append_nil] at hboth

theorem map {g : α → β} (h : Reads r xs a) : Reads (g <$> r) xs (g a) := by
  intro rest
  show (r (xs ++ rest) >>= fun p => some (g p.1, p.2)) = _
  rw [h rest]
  rfl

end Reads

/-! ## Numbers and variants -/

theorem reads_number {n room : Nat} (hn : n < 2 ^ 64) (hroom : 4 ≤ room)
    (hwide : 2 ^ 32 ≤ n → 8 ≤ room) : Reads (readNumber room) (number n) n :=
  readNumber_number hn hroom hwide

theorem reads_length {n : Nat} (hn : n < 2 ^ 64) : Reads (readNumber 8) (number n) n :=
  reads_number hn (by omega) fun _ => Nat.le_refl 8

/-- The number of a variant. -/
theorem reads_tag {n : Nat} (hn : n < 2 ^ 32) : Reads readTag (number n) n :=
  reads_number (by omega) (Nat.le_refl 4) (by omega)

theorem reads_uint32 (n : UInt32) : Reads readUInt32 (number n.toNat) n := by
  have hread : Reads readUInt32 (number n.toNat) (UInt32.ofNat n.toNat) :=
    (reads_tag n.toNat_lt).map
  rwa [UInt32.ofNat_toNat] at hread

theorem reads_uint64 (n : UInt64) : Reads readUInt64 (number n.toNat) n := by
  have hread : Reads readUInt64 (number n.toNat) (UInt64.ofNat n.toNat) :=
    (reads_length n.toNat_lt).map
  rwa [UInt64.ofNat_toNat] at hread

/-! ## Compound data -/

theorem reads_bytes {count : Nat} {bytes : List UInt8} (h : bytes.length = count) :
    Reads (readBytes count) bytes bytes :=
  readBytes_append h

theorem reads_text {s : String} (hs : s.utf8ByteSize < 2 ^ 64) : Reads readText (text s) s := by
  have hlen : s.toUTF8.toList.length < 2 ^ 64 := by rwa [length_toUTF8]
  have hback : String.fromUTF8? s.toUTF8.toList.toByteArray = some s := by
    rw [toByteArray_toList]
    exact dif_pos s.isValidUTF8
  refine (reads_length hlen).bind ((reads_bytes rfl).last ?_)
  rw [hback]
  exact .ret s

section Sequences

variable {α : Type} {item : Reader α} {f : α → List UInt8}

theorem reads_items {xs : List α} (h : ∀ x ∈ xs, Reads item (f x) x) :
    Reads (readItems item xs.length) (xs.flatMap f) xs := by
  induction xs with
  | nil => exact .ret []
  | cons x xs ih =>
    have hrest := ih fun y hy => h y (List.mem_cons_of_mem x hy)
    exact (h x (List.mem_cons_self ..)).bind (hrest.last (.ret (x :: xs)))

theorem reads_list {xs : List α} (hlen : xs.length < 2 ^ 64) (h : ∀ x ∈ xs, Reads item (f x) x) :
    Reads (readList item) (list f xs) xs :=
  (reads_length hlen).bind (reads_items h)

theorem reads_opt {o : Option α} (h : ∀ x, o = some x → Reads item (f x) x) :
    Reads (readOpt item) (opt f o) o := by
  cases o with
  | none => exact fun rest => rfl
  | some x =>
    have hbyte : Reads readByte [1] (1 : UInt8) := fun rest => rfl
    exact hbyte.bind ((h x rfl).last (.ret (some x)))

end Sequences

/-- The number of bytes left bounds the nesting. -/
theorem reads_within {α : Type} {r : Nat → Reader α} {xs : List UInt8} {a : α}
    (h : ∀ fuel, xs.length ≤ fuel → Reads (r fuel) xs a) :
    Reads (do r (← get).length) xs a := by
  intro rest
  have hget : (get : Reader (List UInt8)) (xs ++ rest) = some (xs ++ rest, xs ++ rest) := rfl
  rw [Reader.bind_apply hget]
  exact h _ (by rw [List.length_append]; omega) rest

end Binary

end Circuitry
