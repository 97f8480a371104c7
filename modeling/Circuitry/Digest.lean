/-
  128-bit digests of byte strings.

  A digest identifies a listing or a stored payload.  It is the 128-bit XXH3 hash with seed zero and
  the standard secret, kept as sixteen bytes, low half first, each half little-endian.

  The hash treats five ranges of lengths apart, because short inputs can be mixed in one step and
  long ones need a state of eight lanes:

  1. up to 16 bytes: the input fits two words, which overlap when it is shorter;
  2. 17 to 128 bytes: pairs of 16-byte chunks from both ends towards the middle;
  3. 129 to 240 bytes: 32-byte chunks in order, with a finish of the first four halfway;
  4. longer: stripes of 64 bytes into eight lanes, sixteen stripes to a block, the lanes scrambled
     after each block.

  All arithmetic is modulo 2^64.  No property of the hash is used anywhere else: to the rest of the
  library it is some function of the bytes.
-/
import Circuitry.LittleEndian

namespace Circuitry

/-- Sixteen bytes. -/
structure Digest where
  bytes : List UInt8
  length_eq : bytes.length = 16
  deriving DecidableEq

namespace Digest

/-! ## Words of an input -/

/-- The 32-bit word that starts at a byte position. -/
def word32 (d : Array UInt8) (i : Nat) : UInt64 :=
  (d.getD i 0).toUInt64 ||| (d.getD (i + 1) 0).toUInt64 <<< 8 |||
    (d.getD (i + 2) 0).toUInt64 <<< 16 ||| (d.getD (i + 3) 0).toUInt64 <<< 24

/-- The 64-bit word that starts at a byte position. -/
def word64 (d : Array UInt8) (i : Nat) : UInt64 := word32 d i ||| word32 d (i + 4) <<< 32

/-- The low 32 bits of a word. -/
def lowWord (x : UInt64) : UInt64 := x &&& 0xFFFFFFFF

/-- The high 32 bits of a word. -/
def highWord (x : UInt64) : UInt64 := x >>> 32

/-- The bytes of a 32-bit word in the other order. -/
def swap32 (x : UInt64) : UInt64 :=
  (x &&& 0xFF) <<< 24 ||| (x >>> 8 &&& 0xFF) <<< 16 ||| (x >>> 16 &&& 0xFF) <<< 8 |||
    (x >>> 24 &&& 0xFF)

/-- The bytes of a 64-bit word in the other order. -/
def swap64 (x : UInt64) : UInt64 := swap32 (lowWord x) <<< 32 ||| swap32 (highWord x)

/-! ## Constants of the standard -/

def prime32₁ : UInt64 := 0x9E3779B1
def prime32₂ : UInt64 := 0x85EBCA77
def prime32₃ : UInt64 := 0xC2B2AE3D
def prime64₁ : UInt64 := 0x9E3779B185EBCA87
def prime64₂ : UInt64 := 0xC2B2AE3D27D4EB4F
def prime64₃ : UInt64 := 0x165667B19E3779F9
def prime64₄ : UInt64 := 0x85EBCA77C2B2AE63
def prime64₅ : UInt64 := 0x27D4EB2F165667C5
def mixer₁ : UInt64 := 0x165667919E3779F9
def mixer₂ : UInt64 := 0x9FB21C651E98DF25

/-- The standard secret of 192 bytes. -/
def secret : Array UInt8 := #[
  0xb8, 0xfe, 0x6c, 0x39, 0x23, 0xa4, 0x4b, 0xbe, 0x7c, 0x01, 0x81, 0x2c, 0xf7, 0x21, 0xad, 0x1c,
  0xde, 0xd4, 0x6d, 0xe9, 0x83, 0x90, 0x97, 0xdb, 0x72, 0x40, 0xa4, 0xa4, 0xb7, 0xb3, 0x67, 0x1f,
  0xcb, 0x79, 0xe6, 0x4e, 0xcc, 0xc0, 0xe5, 0x78, 0x82, 0x5a, 0xd0, 0x7d, 0xcc, 0xff, 0x72, 0x21,
  0xb8, 0x08, 0x46, 0x74, 0xf7, 0x43, 0x24, 0x8e, 0xe0, 0x35, 0x90, 0xe6, 0x81, 0x3a, 0x26, 0x4c,
  0x3c, 0x28, 0x52, 0xbb, 0x91, 0xc3, 0x00, 0xcb, 0x88, 0xd0, 0x65, 0x8b, 0x1b, 0x53, 0x2e, 0xa3,
  0x71, 0x64, 0x48, 0x97, 0xa2, 0x0d, 0xf9, 0x4e, 0x38, 0x19, 0xef, 0x46, 0xa9, 0xde, 0xac, 0xd8,
  0xa8, 0xfa, 0x76, 0x3f, 0xe3, 0x9c, 0x34, 0x3f, 0xf9, 0xdc, 0xbb, 0xc7, 0xc7, 0x0b, 0x4f, 0x1d,
  0x8a, 0x51, 0xe0, 0x4b, 0xcd, 0xb4, 0x59, 0x31, 0xc8, 0x9f, 0x7e, 0xc9, 0xd9, 0x78, 0x73, 0x64,
  0xea, 0xc5, 0xac, 0x83, 0x34, 0xd3, 0xeb, 0xc3, 0xc5, 0x81, 0xa0, 0xff, 0xfa, 0x13, 0x63, 0xeb,
  0x17, 0x0d, 0xdd, 0x51, 0xb7, 0xf0, 0xda, 0x49, 0xd3, 0x16, 0x55, 0x26, 0x29, 0xd4, 0x68, 0x9e,
  0x2b, 0x16, 0xbe, 0x58, 0x7d, 0x47, 0xa1, 0xfc, 0x8f, 0xf8, 0xb8, 0xd1, 0x7a, 0xd0, 0x31, 0xce,
  0x45, 0xcb, 0x3a, 0x8f, 0x95, 0x16, 0x04, 0x28, 0xaf, 0xd7, 0xfb, 0xca, 0xbb, 0x4b, 0x40, 0x7e]

/-- The word of the secret at a byte position. -/
def key (i : Nat) : UInt64 := word64 secret i

/-! ## Mixing -/

/-- Two 64-bit halves. -/
structure Halves where
  low : UInt64
  high : UInt64

/-- The full product of two words. -/
def product (a b : UInt64) : Halves :=
  let p := a.toNat * b.toNat
  ⟨UInt64.ofNat p, UInt64.ofNat (p / 2 ^ 64)⟩

/-- The two halves of a product folded together. -/
def folded (a b : UInt64) : UInt64 := let p := product a b; p.low ^^^ p.high

def avalanche (h : UInt64) : UInt64 :=
  let h := (h ^^^ h >>> 37) * mixer₁
  h ^^^ h >>> 32

def strongAvalanche (h : UInt64) : UInt64 :=
  let h := (h ^^^ h >>> 33) * prime64₂
  let h := (h ^^^ h >>> 29) * prime64₃
  h ^^^ h >>> 32

/-- Mixes the 16 bytes at a position with 16 bytes of the secret. -/
def mix16 (d : Array UInt8) (i k : Nat) : UInt64 :=
  folded (word64 d i ^^^ key k) (word64 d (i + 8) ^^^ key (k + 8))

/-- Mixes two chunks of 16 bytes into both halves. -/
def mix32 (d : Array UInt8) (acc : Halves) (i j k : Nat) : Halves :=
  ⟨(acc.low + mix16 d i k) ^^^ (word64 d j + word64 d (j + 8)),
   (acc.high + mix16 d j (k + 16)) ^^^ (word64 d i + word64 d (i + 8))⟩

/-! ## Lengths up to 240 -/

def hashEmpty : Halves :=
  ⟨strongAvalanche (key 64 ^^^ key 72), strongAvalanche (key 80 ^^^ key 88)⟩

def hashUpTo3 (d : Array UInt8) : Halves :=
  let byte (i : Nat) : UInt64 := (d.getD i 0).toUInt64
  let n := d.size
  let low := byte 0 <<< 16 ||| byte (n / 2) <<< 24 ||| byte (n - 1) ||| UInt64.ofNat n <<< 8
  let swapped := swap32 low
  let high := lowWord (swapped <<< 13 ||| swapped >>> 19)
  ⟨strongAvalanche (low ^^^ (word32 secret 0 ^^^ word32 secret 4)),
   strongAvalanche (high ^^^ (word32 secret 8 ^^^ word32 secret 12))⟩

def hashUpTo8 (d : Array UInt8) : Halves :=
  let n := d.size
  let input := word32 d 0 + word32 d (n - 4) <<< 32
  let m := product (input ^^^ (key 16 ^^^ key 24)) (prime64₁ + UInt64.ofNat n <<< 2)
  let high := m.high + m.low <<< 1
  let low := m.low ^^^ high >>> 3
  let low := (low ^^^ low >>> 35) * mixer₂
  ⟨low ^^^ low >>> 28, avalanche high⟩

def hashUpTo16 (d : Array UInt8) : Halves :=
  let n := d.size
  let first := word64 d 0
  let last := word64 d (n - 8)
  let m := product (first ^^^ last ^^^ (key 32 ^^^ key 40)) prime64₁
  let low := m.low + UInt64.ofNat (n - 1) <<< 54
  let last := last ^^^ (key 48 ^^^ key 56)
  let high := m.high + last + lowWord last * (prime32₂ - 1)
  let low := low ^^^ swap64 high
  let h := product low prime64₂
  ⟨avalanche h.low, avalanche (h.high + high * prime64₂)⟩

/-- The finish of the middle lengths. -/
def finishMiddle (n : Nat) (acc : Halves) : Halves :=
  ⟨avalanche (acc.low + acc.high),
   0 - avalanche (acc.low * prime64₁ + acc.high * prime64₄ + UInt64.ofNat n * prime64₂)⟩

def hashUpTo128 (d : Array UInt8) : Halves :=
  let n := d.size
  let acc : Halves := ⟨UInt64.ofNat n * prime64₁, 0⟩
  let acc := if 96 < n then mix32 d acc 48 (n - 64) 96 else acc
  let acc := if 64 < n then mix32 d acc 32 (n - 48) 64 else acc
  let acc := if 32 < n then mix32 d acc 16 (n - 32) 32 else acc
  finishMiddle n (mix32 d acc 0 (n - 16) 0)

def hashUpTo240 (d : Array UInt8) : Halves :=
  let n := d.size
  let chunk (k : Nat → Nat) (acc : Halves) (i : Nat) : Halves :=
    mix32 d acc (32 * i) (32 * i + 16) (k i)
  let acc := (List.range 4).foldl (chunk fun i => 32 * i) ⟨UInt64.ofNat n * prime64₁, 0⟩
  let acc : Halves := ⟨avalanche acc.low, avalanche acc.high⟩
  let acc := ((List.range (n / 32)).drop 4).foldl (chunk fun i => 32 * i - 125) acc
  finishMiddle n (mix32 d acc (n - 16) (n - 32) 103)

/-! ## Longer inputs -/

/-- The eight lanes at the start. -/
def initialLanes : Array UInt64 :=
  #[prime32₃, prime64₁, prime64₂, prime64₃, prime64₄, prime32₂, prime64₅, prime32₁]

/-- Adds the stripe of 64 bytes at position `i` to the lanes, keyed by the secret at `k`: each lane
    gets a product of its own word, and its neighbour gets the word itself. -/
def addStripe (d : Array UInt8) (i k : Nat) (lanes : Array UInt64) : Array UInt64 :=
  (List.range 8).foldl (fun (lanes : Array UInt64) (lane : Nat) =>
    let value := word64 d (i + 8 * lane)
    let keyed := value ^^^ key (k + 8 * lane)
    let lanes := lanes.modify (if lane % 2 = 0 then lane + 1 else lane - 1) (· + value)
    lanes.modify lane (· + lowWord keyed * highWord keyed)) lanes

/-- Adds `count` stripes from position `i` on. -/
def addStripes (d : Array UInt8) (i count : Nat) (lanes : Array UInt64) : Array UInt64 :=
  (List.range count).foldl (fun lanes s => addStripe d (i + 64 * s) (8 * s) lanes) lanes

/-- What happens to the lanes at the end of a block. -/
def scramble (lanes : Array UInt64) : Array UInt64 :=
  lanes.mapIdx fun (lane : Nat) (x : UInt64) =>
    ((x ^^^ x >>> 47) ^^^ key (128 + 8 * lane)) * prime32₁

/-- Folds the lanes into one word. -/
def mergeLanes (lanes : Array UInt64) (k : Nat) (start : UInt64) : UInt64 :=
  avalanche <| (List.range 4).foldl (fun sum p =>
    sum + folded (lanes.getD (2 * p) 0 ^^^ key (k + 16 * p))
      (lanes.getD (2 * p + 1) 0 ^^^ key (k + 16 * p + 8))) start

def hashLong (d : Array UInt8) : Halves :=
  let n := d.size
  let blocks := (n - 1) / 1024
  let lanes := (List.range blocks).foldl
    (fun lanes b => scramble (addStripes d (1024 * b) 16 lanes)) initialLanes
  let lanes := addStripes d (1024 * blocks) ((n - 1 - 1024 * blocks) / 64) lanes
  let lanes := addStripe d (n - 64) 121 lanes
  ⟨mergeLanes lanes 11 (UInt64.ofNat n * prime64₁),
   mergeLanes lanes 117 (~~~(UInt64.ofNat n * prime64₂))⟩

/-! ## The digest -/

/-- The hash of a byte array, by length. -/
def hash (d : Array UInt8) : Halves :=
  if d.size = 0 then hashEmpty
  else if d.size ≤ 3 then hashUpTo3 d
  else if d.size ≤ 8 then hashUpTo8 d
  else if d.size ≤ 16 then hashUpTo16 d
  else if d.size ≤ 128 then hashUpTo128 d
  else if d.size ≤ 240 then hashUpTo240 d
  else hashLong d

/-- The digest of a byte string. -/
def ofBytes (bytes : List UInt8) : Digest :=
  let h := hash bytes.toArray
  ⟨LittleEndian.write 8 h.low.toNat ++ LittleEndian.write 8 h.high.toNat, by simp⟩

/-- The digest of the UTF-8 bytes of a text. -/
def ofText (s : String) : Digest := ofBytes s.toUTF8.toList

/-- Two lower-case hexadecimal digits. -/
def hexByte (b : UInt8) : List Char := [Nat.digitChar (b.toNat / 16), Nat.digitChar (b.toNat % 16)]

/-- All bytes in hexadecimal, in order. -/
def text (d : Digest) : String := String.ofList (d.bytes.flatMap hexByte)

/-- The first two bytes, enough to tell digests apart in a log. -/
def debugText (d : Digest) : String :=
  "ContentHash(" ++ String.ofList ((d.bytes.take 2).flatMap hexByte) ++ "..)"

end Digest

end Circuitry
