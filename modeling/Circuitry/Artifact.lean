/-
  Stored circuits.

  An artifact is the length of a header in four bytes, the header, and the circuit in its stored form.
  The header carries four magic bytes, the version of the format, the version of the toolkit that
  wrote it, and the digest of the circuit's bytes.

  Reading checks from the front: the header must be there, then be readable, then name this format and
  version, then the digest must fit, and only then is the circuit read.  Bytes behind a complete
  header or a complete circuit are passed over.

  Nothing here depends on how a digest is computed, so the way is a parameter (`encodeWith`,
  `decodeWith`).
-/
import Circuitry.Binary.CircuitForm
import Circuitry.Digest

namespace Circuitry

/-- Four magic bytes and three facts about the circuit that follows. -/
structure Artifact.Header where
  magic : List UInt8
  version : UInt32
  producer : String
  checksum : Digest
  deriving DecidableEq

namespace Artifact

/-- The bytes that begin every header. -/
def magic : List UInt8 := "LOOM".toUTF8.toList

/-- The version of the format. -/
def version : UInt32 := 1

/-- The version of this toolkit. -/
def producer : String := "0.1.0"

/-! ## Faults -/

/-- What makes bytes unfit to be read. -/
inductive Fault where
  /-- The bytes end inside the header. -/
  | truncated
  | badMagic (found : List UInt8)
  | versionMismatch (found : UInt32)
  | checksumMismatch (expected actual : Digest)
  /-- The header or the circuit is not in its stored form. -/
  | malformed
  deriving DecidableEq

def Fault.message : Fault → String
  | .truncated => "invalid artifact header: truncated header"
  | .badMagic found =>
    "invalid artifact header: bad magic bytes [" ++
      String.intercalate ", " (found.map fun b => toString b.toNat) ++ "]"
  | .versionMismatch found =>
    "artifact format version mismatch: expected " ++ toString version ++ ", got " ++ toString found
  | .checksumMismatch expected actual =>
    "artifact checksum mismatch: expected " ++ expected.text ++ ", got " ++ actual.text
  | .malformed => "artifact serialization failed"

/-! ## Headers -/

def Header.toBinary (h : Header) : List UInt8 :=
  h.magic ++ Binary.number h.version.toNat ++ Binary.text h.producer ++ h.checksum.bytes

/-- Reads sixteen bytes as a digest. -/
def readDigest : Binary.Reader Digest := fun bytes =>
  if h : (bytes.take 16).length = 16 then some (⟨bytes.take 16, h⟩, bytes.drop 16) else none

def Header.ofBinary : Binary.Reader Header :=
  return ⟨← Binary.readBytes 4, ← Binary.readUInt32, ← Binary.readText, ← readDigest⟩

/-- The header of a circuit with the given stored form. -/
def Header.of (digest : List UInt8 → Digest) (payload : List UInt8) : Header :=
  ⟨Artifact.magic, Artifact.version, Artifact.producer, digest payload⟩

/-! ## Writing and reading -/

/-- The artifact of a circuit, with digests taken in the given way. -/
def encodeWith (digest : List UInt8 → Digest) (c : Circuit) : List UInt8 :=
  let payload := c.toBinary
  let header := (Header.of digest payload).toBinary
  LittleEndian.write 4 header.length ++ header ++ payload

/-- The artifact of a circuit. -/
def encode (c : Circuit) : List UInt8 := encodeWith Digest.ofBytes c

/-- Splits bytes into the header's and the circuit's. -/
def split? (bytes : List UInt8) : Option (List UInt8 × List UInt8) := do
  let (sizeBytes, rest) ← Binary.readBytes 4 bytes
  Binary.readBytes (LittleEndian.read sizeBytes) rest

/-- Reads a value from the front of bytes and passes over the rest. -/
def readFront (r : Binary.Reader α) (bytes : List UInt8) : Except Fault α :=
  match r.run bytes with
  | some (a, _) => .ok a
  | none => .error .malformed

/-- The circuit of an artifact, or the first fault, with digests taken in the given way. -/
def decodeWith (digest : List UInt8 → Digest) (bytes : List UInt8) : Except Fault Circuit :=
  match split? bytes with
  | none => .error .truncated
  | some (head, payload) => do
    let header ← readFront Header.ofBinary head
    if header.magic ≠ magic then throw (.badMagic header.magic)
    if header.version ≠ version then throw (.versionMismatch header.version)
    let actual := digest payload
    if actual ≠ header.checksum then throw (.checksumMismatch header.checksum actual)
    readFront Circuit.ofBinary payload

/-- The circuit of an artifact, or the first fault. -/
def decode (bytes : List UInt8) : Except Fault Circuit := decodeWith Digest.ofBytes bytes

end Artifact

end Circuitry
