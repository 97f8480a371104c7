/-
  Loading settings.

  Settings come from a text, which is read and then checked, or from a file with such a text.  A
  folder may have a settings file; without one the defaults apply.
-/
import Circuitry.Files
import Circuitry.Toml.Reader
import Circuitry.Toml.SettingsForm

namespace Circuitry.Settings

/-! ## Faults -/

/-- What keeps settings from being used. -/
inductive Fault where
  | unreadable (cause : Files.Fault)
  /-- The bytes of the file are no text. -/
  | notText
  /-- The text is not TOML, or not of the form of settings. -/
  | malformed
  | shiftLimit (found : UInt32)
  deriving DecidableEq, Repr

def Fault.message : Fault → String
  | .unreadable cause => "failed to read configuration: " ++ cause.message
  | .notText => "failed to read configuration: stream did not contain valid UTF-8"
  | .malformed => "failed to parse configuration: no table of settings"
  | .shiftLimit found =>
    "validation error: elaboration.dynamic_shift_limit must be in 1..=31, got " ++ toString found

/-! ## Texts -/

/-- The largest limit for the amounts of dynamic left shifts.  An amount of 31 bits already makes
    room for nearly as many bits as the largest width. -/
def greatestShiftLimit : UInt32 := 31

/-- Settings that may be used as they are. -/
def Admissible (s : Settings) : Prop :=
  1 ≤ s.elaboration.dynamicShiftLimit ∧ s.elaboration.dynamicShiftLimit ≤ greatestShiftLimit

instance (s : Settings) : Decidable s.Admissible :=
  inferInstanceAs (Decidable (_ ∧ _))

theorem default_admissible : default.Admissible := by decide

/-- The settings themselves if they may be used. -/
def checked (s : Settings) : Except Fault Settings :=
  if s.Admissible then .ok s else .error (.shiftLimit s.elaboration.dynamicShiftLimit)

/-- The settings that a text spells. -/
def ofText (text : String) : Except Fault Settings :=
  match (Toml.parse? text).bind ofToml? with
  | none => .error .malformed
  | some s => s.checked

/-- Settings from a text are admissible. -/
theorem admissible_of_ofText {text : String} {s : Settings} (h : ofText text = .ok s) :
    s.Admissible := by
  unfold ofText at h
  split at h
  · cases h
  · unfold checked at h
    split at h
    · next hs => cases h; exact hs
    · cases h

/-! ## Files -/

/-- The settings in the bytes of a file. -/
def ofBytes (bytes : List UInt8) : Except Fault Settings :=
  match String.fromUTF8? bytes.toByteArray with
  | none => .error .notText
  | some text => ofText text

/-- The settings in a file, from the outcome of reading it. -/
def ofRead : Except Files.Fault (List UInt8) → Except Fault Settings
  | .error cause => .error (.unreadable cause)
  | .ok bytes => ofBytes bytes

/-- The same, for a file that need not be there. -/
def ofReadIfThere : Except Files.Fault (List UInt8) → Except Fault Settings
  | .error .absent => .ok .default
  | outcome => ofRead outcome

/-- The settings file of a folder. -/
def fileName : String := "loom.toml"

/-- The settings at a given path, or else those of the folder at hand. -/
def load [Monad m] (files : Files m) : (path : Option String) → m (Except Fault Settings)
  | some path => return ofRead (← files.read path)
  | none => return ofReadIfThere (← files.read fileName)

end Circuitry.Settings
