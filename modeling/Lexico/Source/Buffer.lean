import Lexico.Source.Basic
import Lexico.Source.Fault
import Lexico.Text.Decode

/-!
# Buffers

A **buffer** holds the bytes that are kept of a text, followed by zeros up to the next multiple of
64 above their number, so at least one zero byte, the sentinel, follows the text
(`sourceLen_lt_size_ofSource`). Reading is checked: a read past the padding is a `Fault`, never a
default value.

Searches return least offsets. Their bounds (`le_find`, `find_le`, `bounds_of_findPair?`,
`le_of_skipWhile`) are what the functions over cursors need to terminate.
-/

namespace Lexico

/-- The bytes of a text, then zeros. -/
structure Buffer where
  bytes : ByteArray
  sourceLen : Nat

namespace Buffer

/-- The length of a buffer is a multiple of this. -/
def alignment : Nat := 64

/-- The least multiple of the alignment above `n`. -/
def paddedSize (n : Nat) : Nat := (n / alignment + 1) * alignment

/-- The given number of zero bytes. -/
def zeros (n : Nat) : ByteArray := ⟨Array.replicate n 0⟩

/-- The buffer of a text: the bytes kept of it, then zeros up to the padded size. -/
def ofText (text : String) : Buffer :=
  let content := Source.kept text
  ⟨content ++ zeros (paddedSize content.size - content.size), content.size⟩

/-- The buffer of a source, which holds all of its bytes. -/
def ofSource (s : Source) : Buffer := ofText s.text

/-- The bytes of the text, without sentinel and padding. -/
def content (b : Buffer) : ByteArray := b.bytes.extract 0 b.sourceLen

/-- The byte at an offset below the padded size. -/
def read (b : Buffer) (i : Nat) : Except Fault UInt8 :=
  if h : i < b.bytes.size then .ok b.bytes[i] else .error (.readPastPadding i)

/-- The byte at an offset, zero past the end. -/
def byteAt (b : Buffer) (i : Nat) : UInt8 :=
  if h : i < b.bytes.size then b.bytes[i] else 0

/-- The text between two offsets, which have to be character boundaries. -/
def slice (b : Buffer) (start stop : Nat) : Except Fault String :=
  match String.fromUTF8? (b.bytes.extract start stop) with
  | some text => .ok text
  | none => .error (.splitCharacter start stop)

/-- What is shown of the text between two offsets, be they character boundaries or not. There is
nothing to show behind the end of the text. -/
def shown (b : Buffer) (start stop : Nat) : String :=
  if stop ≤ b.sourceLen then Text.decode (b.bytes.extract start stop) else ""

/-! ### Searches -/

/-- The least offset from `i` on, and below `stop`, at which `p` holds; `stop` if there is none. -/
def find (b : Buffer) (p : UInt8 → Bool) (i stop : Nat) : Nat :=
  if i < stop then
    if p (b.byteAt i) then i else b.find p (i + 1) stop
  else stop
termination_by stop - i

/-- The least offset from `i` on at which the bytes `x` and `y` follow each other below `stop`. -/
def findPair? (b : Buffer) (x y : UInt8) (i stop : Nat) : Option Nat :=
  if i + 1 < stop then
    if b.byteAt i == x && b.byteAt (i + 1) == y then some i else b.findPair? x y (i + 1) stop
  else none
termination_by stop - i

/-- The first offset from `i` on at which `p` fails; a read past the padding on the way faults. -/
def skipWhile (b : Buffer) (p : UInt8 → Bool) (i : Nat) : Except Fault Nat :=
  if h : i < b.bytes.size then
    if p b.bytes[i] then b.skipWhile p (i + 1) else .ok i
  else .error (.readPastPadding i)
termination_by b.bytes.size - i

/-! ### The layout -/

theorem lt_paddedSize (n : Nat) : n < paddedSize n := by
  simp only [paddedSize, alignment]
  omega

theorem size_zeros (n : Nat) : (zeros n).size = n := Array.size_replicate

/-- The buffer of a source has all of its bytes. -/
theorem ofSource_eq (s : Source) :
    ofSource s = ⟨s.text.toUTF8 ++ zeros (paddedSize s.text.toUTF8.size - s.text.toUTF8.size),
      s.text.toUTF8.size⟩ := by
  rw [ofSource, ofText, Source.kept_text]

/-- The text of a source takes as many bytes as its UTF-8 encoding. -/
theorem sourceLen_ofSource (s : Source) : (ofSource s).sourceLen = s.text.utf8ByteSize := by
  rw [ofSource_eq]
  rfl

/-- Sentinel and padding are no part of the text. -/
theorem content_ofSource (s : Source) : (ofSource s).content = s.text.toUTF8 := by
  rw [ofSource_eq]
  exact ByteArray.extract_append_eq_left rfl

/-- A buffer ends at the least multiple of the alignment above its text. -/
theorem size_ofSource (s : Source) :
    (ofSource s).bytes.size = paddedSize s.text.utf8ByteSize := by
  have hlt := lt_paddedSize s.text.utf8ByteSize
  rw [ofSource_eq, ByteArray.size_append, size_zeros]
  exact Nat.add_sub_cancel' (Nat.le_of_lt hlt)

/-- The sentinel has a byte of its own. -/
theorem sourceLen_lt_size_ofSource (s : Source) :
    (ofSource s).sourceLen < (ofSource s).bytes.size := by
  rw [sourceLen_ofSource, size_ofSource]
  exact lt_paddedSize _

/-! ### Bounds -/

/-- A successful read is below the padded size. -/
theorem lt_size_of_read {b : Buffer} {i : Nat} {x : UInt8} (h : b.read i = .ok x) :
    i < b.bytes.size := by
  unfold read at h
  split at h
  · assumption
  · cases h

/-- A search does not go back. -/
theorem le_find {b : Buffer} {p : UInt8 → Bool} {i stop : Nat} (h : i ≤ stop) :
    i ≤ b.find p i stop := by
  fun_induction b.find p i stop with
  | case1 => exact Nat.le_refl _
  | case2 i hlt _ ih => have := ih hlt; omega
  | case3 => exact h

/-- A search does not pass its end. -/
theorem find_le {b : Buffer} {p : UInt8 → Bool} {i stop : Nat} (h : i ≤ stop) :
    b.find p i stop ≤ stop := by
  fun_induction b.find p i stop with
  | case1 => exact h
  | case2 i hlt _ ih => exact ih hlt
  | case3 => exact Nat.le_refl _

/-- A pair is found between the start and the end of the search. -/
theorem bounds_of_findPair? {b : Buffer} {x y : UInt8} {i stop j : Nat}
    (h : b.findPair? x y i stop = some j) : i ≤ j ∧ j + 1 < stop := by
  fun_induction b.findPair? x y i stop with
  | case1 i hlt _ => cases h; exact ⟨Nat.le_refl _, hlt⟩
  | case2 i hlt _ ih => have := ih h; omega
  | case3 => cases h

/-- Skipping does not go back. -/
theorem le_of_skipWhile {b : Buffer} {p : UInt8 → Bool} {i j : Nat}
    (h : b.skipWhile p i = .ok j) : i ≤ j := by
  fun_induction b.skipWhile p i with
  | case1 i _ _ ih => have := ih h; omega
  | case2 => cases h; exact Nat.le_refl _
  | case3 => cases h

/-- Skipping goes on after the first byte if `p` holds of that. -/
theorem lt_of_skipWhile {b : Buffer} {p : UInt8 → Bool} {i j : Nat} {x : UInt8}
    (hr : b.read i = .ok x) (hp : p x = true) (h : b.skipWhile p i = .ok j) : i < j := by
  have hi := lt_size_of_read hr
  have hx : b.bytes[i] = x := by simpa [read, hi] using hr
  rw [skipWhile, dif_pos hi, hx, if_pos hp] at h
  exact le_of_skipWhile h

end Buffer
end Lexico
