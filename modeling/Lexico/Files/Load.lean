import Lexico.Event
import Lexico.Files.Error

/-!
# Loading source text

A source file has to be readable and to hold UTF-8. That it was read is logged before its bytes
are looked at. The text of a file is the one that its bytes encode (`fromUTF8?_eq_some_iff`), and it
is empty only where there are no bytes.
-/

namespace Lexico

/-- Why a file gives no source text. -/
inductive LoadError where
  | unreadable (path : String) (cause : FileError)
  | notUtf8 (path : String)
  deriving DecidableEq, Repr

namespace LoadError

/-- The file that gives no text. -/
def path : LoadError → String
  | unreadable path _ => path
  | notUtf8 path => path

/-- The text for a load error. -/
def message : LoadError → String
  | unreadable path cause => s!"cannot read '{path}': {cause.message}"
  | notUtf8 path => s!"'{path}' is not valid UTF-8"

end LoadError

/-- The text of a file, given what reading it answered, and what is logged. -/
def loadText (path : String) : Except FileError ByteArray → List Event × Except LoadError String
  | .error cause => ([], .error (.unreadable path cause))
  | .ok content =>
    ([.loadedSource path content.size],
      match String.fromUTF8? content with
      | some text => .ok text
      | none => .error (.notUtf8 path))

/-! ### Texts of bytes -/

/-- Bytes have a text just when they are what it is encoded as. -/
theorem fromUTF8?_eq_some_iff {content : ByteArray} {text : String} :
    String.fromUTF8? content = some text ↔ text.toUTF8 = content := by
  constructor
  · intro h
    rw [String.fromUTF8?] at h
    split at h
    · obtain rfl := Option.some.inj h
      rfl
    · cases h
  · rintro rfl
    rw [String.fromUTF8?, String.toUTF8_eq_toByteArray, dif_pos text.isValidUTF8]
    rfl

theorem fromUTF8?_eq_none_iff {content : ByteArray} :
    String.fromUTF8? content = none ↔ ¬ content.IsValidUTF8 := by
  grind [String.fromUTF8?]

theorem fromUTF8?_eq_empty_iff {content : ByteArray} :
    String.fromUTF8? content = some "" ↔ content.size = 0 := by
  rw [fromUTF8?_eq_some_iff, String.toUTF8_eq_toByteArray, String.toByteArray_empty,
    ByteArray.size_eq_zero_iff, eq_comm]

end Lexico
