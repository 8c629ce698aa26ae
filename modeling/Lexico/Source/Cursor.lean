import Lexico.Source.Buffer
import Lexico.Source.Byte

/-!
# Cursors

A **cursor** is a buffer and an offset into it. Looking at a byte is checked against the padding,
a search is checked to start inside the text, and a move by a count is checked against the 32 bits
of an offset; it may leave the buffer, where only looking is refused.

Cursors in one buffer are ordered by offset (`c ≤ c'`, `c < c'`). Each operation goes forward in
this order; a scanner built from them terminates for that reason.
-/

namespace Lexico

/-- A position in a buffer. -/
structure Cursor where
  buffer : Buffer
  offset : Nat

/-- The cursor at the start of the text. -/
def Buffer.cursor (b : Buffer) : Cursor := ⟨b, 0⟩

/-- The cursor at a byte offset, or at the end of the text if that comes first. -/
def Buffer.cursorAt (b : Buffer) (offset : Nat) : Cursor := ⟨b, min offset b.sourceLen⟩

/-- A cursor goes no farther than to the end of the text. -/
theorem Buffer.offset_cursorAt (s : Source) (k : Nat) :
    ((ofSource s).cursorAt k).offset = min k s.text.utf8ByteSize := by
  rw [cursorAt, sourceLen_ofSource]

namespace Cursor

open Fault (bind_eq_ok_iff pure_eq_ok_iff)

/-- One cursor is at or after the other in the same buffer. -/
instance : LE Cursor := ⟨fun c d => d.buffer = c.buffer ∧ c.offset ≤ d.offset⟩

/-- One cursor is after the other in the same buffer. -/
instance : LT Cursor := ⟨fun c d => d.buffer = c.buffer ∧ c.offset < d.offset⟩

theorem le_refl (c : Cursor) : c ≤ c := ⟨rfl, Nat.le_refl _⟩

theorem le_of_lt {c d : Cursor} (h : c < d) : c ≤ d := ⟨h.1, Nat.le_of_lt h.2⟩

theorem lt_of_lt_of_le {c d e : Cursor} (h : c < d) (h' : d ≤ e) : c < e :=
  ⟨h'.1.trans h.1, Nat.lt_of_lt_of_le h.2 h'.2⟩

theorem lt_of_le_of_lt {c d e : Cursor} (h : c ≤ d) (h' : d < e) : c < e :=
  ⟨h'.1.trans h.1, Nat.lt_of_le_of_lt h.2 h'.2⟩

/-! ### Looking -/

/-- The length of the text. -/
def sourceLen (c : Cursor) : Nat := c.buffer.sourceLen

/-- The byte at the cursor. -/
def current (c : Cursor) : Except Fault UInt8 := c.buffer.read c.offset

/-- The byte after the one at the cursor. -/
def peek (c : Cursor) : Except Fault UInt8 := c.buffer.read (c.offset + 1)

/-- The cursor stands on the sentinel or beyond it, and not on a zero byte of the text. -/
def isEof (c : Cursor) : Except Fault Bool := do
  return (← c.current) == Byte.nul && c.sourceLen ≤ c.offset

/-! ### Moving -/

/-- The cursor `n` bytes on, at an offset that still fits. -/
def advance (c : Cursor) (n : Nat) : Except Fault Cursor :=
  if c.offset + n < offsetLimit then .ok { c with offset := c.offset + n }
  else .error (.offsetOverflow (c.offset + n))

/-- The cursor after the character that starts with the byte at the cursor. -/
def advanceChar (c : Cursor) : Except Fault Cursor := do
  c.advance (Byte.charWidth (← c.current))

/-- The cursor at the first byte for which `p` fails. -/
def eatWhile (c : Cursor) (p : UInt8 → Bool) : Except Fault Cursor := do
  return { c with offset := ← c.buffer.skipWhile p c.offset }

/-- The cursor after the spaces and tabs at it. -/
def eatBlanks (c : Cursor) : Except Fault Cursor := c.eatWhile Byte.isBlank

/-- The cursor at the next line feed, or at the end of the text. -/
def eatLine (c : Cursor) : Except Fault Cursor :=
  if c.offset ≤ c.sourceLen then
    .ok { c with offset := c.buffer.find (· == Byte.lineFeed) c.offset c.sourceLen }
  else .error (.searchPastEnd c.offset)

/-- The next byte with a meaning inside a string literal and the cursor at it; zero and the cursor
at the end of the text if there is none. -/
def toStringDelimiter (c : Cursor) : Except Fault (UInt8 × Cursor) :=
  if c.offset ≤ c.sourceLen then
    let stop := c.buffer.find Byte.isStringDelimiter c.offset c.sourceLen
    .ok (if stop < c.sourceLen then c.buffer.byteAt stop else Byte.nul, { c with offset := stop })
  else .error (.searchPastEnd c.offset)

/-- The cursor just after the next star and slash, and whether there are any; if not, the cursor is
at the end of the text. -/
def pastCommentEnd (c : Cursor) : Except Fault (Bool × Cursor) :=
  if c.offset ≤ c.sourceLen then
    match c.buffer.findPair? Byte.star Byte.slash c.offset c.sourceLen with
    | some i => .ok (true, { c with offset := i + 2 })
    | none => .ok (false, { c with offset := c.sourceLen })
  else .error (.searchPastEnd c.offset)

/-! ### Moving goes forward -/

/-- A byte can be seen only below the padded size. -/
theorem lt_size_of_current {c : Cursor} {b : UInt8} (h : c.current = .ok b) :
    c.offset < c.buffer.bytes.size :=
  Buffer.lt_size_of_read h

theorem advance_eq_ok_iff {c d : Cursor} {n : Nat} :
    c.advance n = .ok d ↔ c.offset + n < offsetLimit ∧ d = { c with offset := c.offset + n } := by
  unfold advance
  split
  · next h => simp [h, eq_comm]
  · next h => simp [h]

theorem le_of_advance {c d : Cursor} {n : Nat} (h : c.advance n = .ok d) : c ≤ d := by
  obtain ⟨-, rfl⟩ := advance_eq_ok_iff.1 h
  exact ⟨rfl, Nat.le_add_right _ _⟩

theorem lt_of_advance {c d : Cursor} {n : Nat} (h : c.advance (n + 1) = .ok d) : c < d := by
  obtain ⟨-, rfl⟩ := advance_eq_ok_iff.1 h
  exact ⟨rfl, by simp only; omega⟩

theorem lt_of_advanceChar {c d : Cursor} (h : c.advanceChar = .ok d) : c < d := by
  obtain ⟨b, -, h⟩ := bind_eq_ok_iff.1 h
  obtain ⟨-, rfl⟩ := advance_eq_ok_iff.1 h
  exact ⟨rfl, Nat.lt_add_of_pos_right (Byte.charWidth_pos b)⟩

theorem eatWhile_eq_ok_iff {c d : Cursor} {p : UInt8 → Bool} :
    c.eatWhile p = .ok d ↔
      ∃ i, c.buffer.skipWhile p c.offset = .ok i ∧ { c with offset := i } = d := by
  simp only [eatWhile, bind_eq_ok_iff, pure_eq_ok_iff]

theorem le_of_eatWhile {c d : Cursor} {p : UInt8 → Bool} (h : c.eatWhile p = .ok d) : c ≤ d := by
  obtain ⟨i, hi, rfl⟩ := eatWhile_eq_ok_iff.1 h
  exact ⟨rfl, Buffer.le_of_skipWhile hi⟩

theorem lt_of_eatWhile {c d : Cursor} {p : UInt8 → Bool} {b : UInt8} (hb : c.current = .ok b)
    (hp : p b = true) (h : c.eatWhile p = .ok d) : c < d := by
  obtain ⟨i, hi, rfl⟩ := eatWhile_eq_ok_iff.1 h
  exact ⟨rfl, Buffer.lt_of_skipWhile hb hp hi⟩

theorem le_of_eatLine {c d : Cursor} (h : c.eatLine = .ok d) : c ≤ d := by
  unfold eatLine at h
  split at h
  · next hle => cases h; exact ⟨rfl, Buffer.le_find hle⟩
  · cases h

theorem le_of_toStringDelimiter {c d : Cursor} {b : UInt8}
    (h : c.toStringDelimiter = .ok (b, d)) : c ≤ d := by
  unfold toStringDelimiter at h
  split at h
  · next hle => cases h; exact ⟨rfl, Buffer.le_find hle⟩
  · cases h

/-- A delimiter is found inside the text. -/
theorem lt_of_toStringDelimiter {c d : Cursor} {b : UInt8}
    (h : c.toStringDelimiter = .ok (b, d)) (hb : b ≠ Byte.nul) : d.offset < c.sourceLen := by
  unfold toStringDelimiter at h
  split at h
  · cases h
    by_cases hlt : c.buffer.find Byte.isStringDelimiter c.offset c.sourceLen < c.sourceLen
    · exact hlt
    · rw [if_neg hlt] at hb; exact absurd rfl hb
  · cases h

theorem le_of_pastCommentEnd {c d : Cursor} {closed : Bool}
    (h : c.pastCommentEnd = .ok (closed, d)) : c ≤ d := by
  unfold pastCommentEnd at h
  split at h
  · next hle =>
    split at h
    · next i hi =>
      cases h
      have := Buffer.bounds_of_findPair? hi
      exact ⟨rfl, by simp only; omega⟩
    · cases h; exact ⟨rfl, hle⟩
  · cases h

end Cursor
end Lexico
