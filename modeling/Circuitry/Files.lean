/-
  Files.

  What commands need of the world outside: the bytes of a file by its path.

  * `Files` is a pair of operations in a monad of the caller's choice, so that a command can be run on
    real files as well as on a folder in memory;
  * `Folder` is such a folder, with what a path can say of the places around it.

  A path is walked from left to right, one name after the other.  What it leads to is a folder, or a
  name in a folder under which there may be a file.
-/

namespace Circuitry

/-! ## Operations -/

/-- Why a file cannot be read or written. -/
inductive Files.Fault where
  /-- There is no such file, or no such folder on the way to it. -/
  | absent
  /-- The path names a folder. -/
  | folder
  /-- The path goes on behind a file. -/
  | behindFile
  /-- The path or a name in it is too long. -/
  | tooLong
  | other (number : Nat) (details : String)
  deriving DecidableEq, Repr

def Files.Fault.message (f : Files.Fault) : String :=
  let (number, details) := match f with
    | .absent => (2, "No such file or directory")
    | .behindFile => (20, "Not a directory")
    | .folder => (21, "Is a directory")
    | .tooLong => (36, "File name too long")
    | .other number details => (number, details)
  details ++ " (os error " ++ toString number ++ ")"

/-- The operations on files, each with its own fault. -/
structure Files (m : Type → Type) where
  read : String → m (Except Files.Fault (List UInt8))
  /-- Puts bytes into a file, in place of what it held before. -/
  write : String → List UInt8 → m (Except Files.Fault Unit)

/-! ## A folder in memory -/

namespace Folder

/-- A folder that a path can lead to from inside the folder at hand. -/
inductive Site where
  /-- The folder so many levels above the one at hand. -/
  | above (levels : Nat)
  /-- The folder above all others. -/
  | root
  /-- A folder that every system has in its root. -/
  | standard (name : String)
  deriving DecidableEq, Repr

/-- The folder at hand. -/
def Site.here : Site := .above 0

def Site.parent : Site → Site
  | .above levels => .above (levels + 1)
  | .root | .standard _ => .root

/-- The names of the standard folders. -/
def standardNames : List String :=
  ["bin", "dev", "etc", "home", "lib", "media", "mnt", "opt", "proc", "root", "run", "sbin", "srv",
   "sys", "tmp", "usr", "var"]

/-- The folder that a name means in another one. -/
def Site.enter? (s : Site) (name : String) : Option Site :=
  if name = "." then some s
  else if name = ".." then some s.parent
  else if s = .root ∧ name ∈ standardNames then some (.standard name)
  else none

/-- The device that holds nothing and keeps nothing. -/
def nullDevice : Site × String := (.standard "dev", "null")

/-- The number of bytes that a name may have. -/
def nameLimit : Nat := 255

/-- The number of bytes from which on a path is too long. -/
def pathLimit : Nat := 4096

end Folder

/-- Files by folder and name. -/
structure Folder where
  files : List ((Folder.Site × String) × List UInt8)
  deriving DecidableEq, Repr

namespace Folder

/-- The bytes of a file. -/
def find? (f : Folder) (place : Site × String) : Option (List UInt8) :=
  if place = nullDevice then some [] else f.files.lookup place

/-- Puts bytes in a place. -/
def put (f : Folder) (place : Site × String) (bytes : List UInt8) : Folder :=
  if place = nullDevice then f
  else ⟨(place, bytes) :: f.files.filter (·.1 ≠ place)⟩

/-- The folder that holds the given files. -/
def ofFiles (files : List (String × List UInt8)) : Folder :=
  files.foldl (fun f (name, bytes) => f.put (.here, name) bytes) ⟨[]⟩

@[simp]
theorem find?_put (f : Folder) {place : Site × String} (bytes : List UInt8)
    (h : place ≠ nullDevice) : (f.put place bytes).find? place = some bytes := by
  simp [find?, put, h]

/-- Files in other places stay as they were. -/
theorem find?_put_of_ne (f : Folder) {place other : Site × String} (bytes : List UInt8)
    (h : other ≠ place) : (f.put place bytes).find? other = f.find? other := by
  have hother : (other == place) = false := beq_false_of_ne h
  unfold put
  split
  · rfl
  · simp only [find?, List.lookup_cons, hother]
    split
    · rfl
    · induction f.files with
      | nil => rfl
      | cons p files ih =>
        obtain ⟨key, stored⟩ := p
        by_cases hkey : key = place
        · simpa [hkey, List.lookup_cons, hother] using ih
        · cases hsame : other == key <;> simp_all [List.lookup_cons]

/-! ## Paths -/

/-- Why a name cannot be entered as a folder, or read as a file that is not there. -/
def obstacle (f : Folder) (place : Site × String) : Files.Fault :=
  if nameLimit < place.2.utf8ByteSize then .tooLong
  else if (f.find? place).isSome then .behindFile
  else .absent

/-- The folder at the end of some names. -/
def walk (f : Folder) : Site → List String → Except Files.Fault Site
  | s, [] => .ok s
  | s, name :: rest =>
    match s.enter? name with
    | some t => f.walk t rest
    | none => .error (f.obstacle (s, name))

/-- Whether a path ends in a slash, and so asks for a folder. -/
def endsInSlash (path : String) : Bool := path.toList.getLast? = some '/'

/-- Where the last name of a path stands; a path without names leads to a folder. -/
def locate (f : Folder) (path : String) : Except Files.Fault (Option (Site × String)) :=
  if path = "" then .error .absent
  else if pathLimit ≤ path.utf8ByteSize then .error .tooLong
  else
    let start := if path.startsWith "/" then .root else .here
    let names := (path.splitOn "/").filter (· ≠ "")
    match names.getLast? with
    | none => .ok none
    | some name => (f.walk start names.dropLast).map fun s => some (s, name)

/-! ## Operations on a folder -/

/-- Reads the file at a path. -/
def read (f : Folder) (path : String) : Except Files.Fault (List UInt8) :=
  match f.locate path with
  | .error fault => .error fault
  | .ok none => .error .folder
  | .ok (some place) =>
    if (place.1.enter? place.2).isSome then .error .folder
    else
      match f.find? place with
      | some bytes => if endsInSlash path then .error .behindFile else .ok bytes
      | none => .error (f.obstacle place)

/-- Writes the file at a path. -/
def write (f : Folder) (path : String) (bytes : List UInt8) : Except Files.Fault Folder :=
  match f.locate path with
  | .error fault => .error fault
  | .ok none => .error .folder
  | .ok (some place) =>
    if (place.1.enter? place.2).isSome ∨ endsInSlash path then .error .folder
    else if nameLimit < place.2.utf8ByteSize then .error .tooLong
    else .ok (f.put place bytes)

/-- A way through folders does not depend on the files in them. -/
theorem walk_eq_ok {f : Folder} (g : Folder) {s t : Site} {names : List String}
    (h : f.walk s names = .ok t) : g.walk s names = .ok t := by
  induction names generalizing s with
  | nil => exact h
  | cons name rest ih =>
    unfold walk at h ⊢
    split at h
    · exact ih h
    · cases h

/-- Where a path leads does not depend on the files in the folders. -/
theorem locate_eq_ok {f : Folder} (g : Folder) {path : String} {place : Option (Site × String)}
    (h : f.locate path = .ok place) : g.locate path = .ok place := by
  unfold locate at h ⊢
  split at h
  · cases h
  · split at h
    · cases h
    · next hempty hlong =>
      rw [if_neg hempty, if_neg hlong]
      dsimp only at h ⊢
      split at h
      · exact h
      · cases hwalk : f.walk (if path.startsWith "/" then .root else .here)
            ((path.splitOn "/").filter (· ≠ "")).dropLast with
        | error fault => rw [hwalk] at h; cases h
        | ok s => rw [hwalk] at h; rw [walk_eq_ok g hwalk]; exact h

/-- What was written is what is read at the same path, unless it was thrown away. -/
theorem read_of_write {f g : Folder} {path : String} {bytes : List UInt8}
    (h : f.write path bytes = .ok g) (hkept : f.locate path ≠ .ok (some nullDevice)) :
    g.read path = .ok bytes := by
  unfold write at h
  split at h
  · cases h
  · cases h
  · next place hplace =>
    split at h
    · cases h
    · next hfile =>
      split at h
      · cases h
      · cases h
        have hne : place ≠ nullDevice := fun e => hkept (e ▸ hplace)
        simp only [not_or] at hfile
        rw [read, locate_eq_ok _ hplace]
        simp [hfile, find?_put f bytes hne]

/-- The operations on a folder that is the state of a computation. -/
def operations : Files (StateM Folder) where
  read path := fun f => (f.read path, f)
  write path bytes := fun f =>
    match f.write path bytes with
    | .ok f => (.ok (), f)
    | .error fault => (.error fault, f)

end Folder

end Circuitry
