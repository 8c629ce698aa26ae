import Lexico.Proofs.Source.Audit
import Lexico.Proofs.Source.Layout

/-!
# Looking around in a text

From any offset into a text, be it inside a character, a cursor sees the byte that stands there, and
at the end the sentinel. It is at the end just there: a zero byte of the text is not taken for it.

One byte ahead the cursor sees the next byte, or a zero from the last byte on. From the end of the
text this is a look behind the sentinel, and there has to be padding for it. There is none if the
sentinel is the last byte that fits the alignment:

    peek_cursorAt : c.peek = if c.offset = n ∧ n % 64 = 63 then .error (.readPastPadding (n + 1))
      else .ok (bs[c.offset + 1]?.getD 0)
-/

namespace Lexico

theorem Source.length_encode (s : Source) :
    (encode s.text.toList).length = s.text.utf8ByteSize := by
  rw [Lexico.length_encode, utf8ByteSize_eq]

namespace Buffer

/-- The sentinel is the last byte of the buffer just when the text leaves room for it alone. -/
theorem paddedSize_eq_succ_iff {n : Nat} : paddedSize n = n + 1 ↔ n % 64 = 63 := by
  simp only [paddedSize, alignment]
  omega

/-- Reading in the buffer of a source gives a byte of the text, or zero up to the padded size. -/
theorem read_ofSource (s : Source) (i : Nat) :
    (ofSource s).read i =
      if i < paddedSize s.text.utf8ByteSize then .ok ((encode s.text.toList)[i]?.getD 0)
      else .error (.readPastPadding i) := by
  rw [← size_ofSource, ← byteAt_ofSource]
  split
  · next hi => exact read_eq_byteAt hi
  · next hi => rw [read, dif_neg hi]

end Buffer

namespace Cursor

variable {s : Source} {c : Cursor}

theorem inside_cursorAt (s : Source) (k : Nat) : ((Buffer.ofSource s).cursorAt k).Inside s :=
  ⟨rfl, Buffer.offset_cursorAt s k ▸ Nat.min_le_right ..⟩

theorem Inside.current_eq (h : c.Inside s) :
    c.current = .ok ((encode s.text.toList)[c.offset]?.getD 0) := by
  rw [current, h.buffer, Buffer.read_eq_byteAt h.lt_size, Buffer.byteAt_ofSource]

/-- **The end of a text** is seen at its end, and nowhere before, whatever bytes it has. -/
theorem Inside.isEof_eq (h : c.Inside s) :
    c.isEof = .ok (decide (c.offset = s.text.utf8ByteSize)) := by
  have hle := h.le
  have hend : s.text.utf8ByteSize ≤ c.offset ↔ c.offset = s.text.utf8ByteSize := by omega
  have heof := (h.buffer ▸ Buffer.laidOut_ofSource s : c.buffer.LaidOut s).isEof_eq c.offset
  rw [if_pos (h.buffer ▸ h.lt_size)] at heof
  simpa only [hend] using heof

theorem Inside.isEof_eq_false_iff (h : c.Inside s) : c.isEof = .ok false ↔ c.On s := by
  have hle := h.le
  rw [h.isEof_eq, Except.ok.injEq, decide_eq_false_iff_not]
  constructor
  · intro hne
    exact ⟨h.buffer, Nat.lt_of_le_of_ne hle hne⟩
  · intro hon
    exact Nat.ne_of_lt hon.lt

/-- One byte ahead there is something to see, but for the end of a text without padding. -/
theorem Inside.peek_eq (h : c.Inside s) :
    c.peek = if c.offset = s.text.utf8ByteSize ∧ s.text.utf8ByteSize % 64 = 63 then
        .error (.readPastPadding (s.text.utf8ByteSize + 1))
      else .ok ((encode s.text.toList)[c.offset + 1]?.getD 0) := by
  have hle := h.le
  have hlt := Buffer.lt_paddedSize s.text.utf8ByteSize
  have hfull := Buffer.paddedSize_eq_succ_iff (n := s.text.utf8ByteSize)
  rw [peek, h.buffer, Buffer.read_ofSource]
  by_cases hend : c.offset = s.text.utf8ByteSize ∧ s.text.utf8ByteSize % 64 = 63
  · have hpast : ¬ c.offset + 1 < Buffer.paddedSize s.text.utf8ByteSize := by omega
    rw [if_neg hpast, if_pos hend, hend.1]
  · have hin : c.offset + 1 < Buffer.paddedSize s.text.utf8ByteSize := by omega
    rw [if_pos hin, if_neg hend]

end Cursor

/-- **Looking one byte ahead** from any offset into a text shows the next byte of it, or a zero
where there is none. Only from the end of a text with 63 bytes in its last line of 64 it is refused,
since it would be a look behind the buffer. -/
theorem Source.peek_cursorAt (s : Source) (k : Nat) :
    let bs := encode s.text.toList
    let n := s.text.utf8ByteSize
    let c := (Buffer.ofSource s).cursorAt k
    bs.length = n ∧ c.offset = min k n ∧
      c.peek = if c.offset = n ∧ n % 64 = 63 then .error (.readPastPadding (n + 1))
        else .ok (bs[c.offset + 1]?.getD 0) := by
  intro bs n c
  exact ⟨s.length_encode, Buffer.offset_cursorAt s k, (Cursor.inside_cursorAt s k).peek_eq⟩

/-- From the end of a text of 63 bytes there is nothing to look at. -/
theorem Source.peek_at_full_line :
    ¬ ∀ (s : Source) (k : Nat), ((Buffer.ofSource s).cursorAt k).peek =
      .ok ((encode s.text.toList)[min k s.text.utf8ByteSize + 1]?.getD 0) := by
  intro hall
  let s : Source := ⟨String.ofList (List.replicate 63 'a'), by decide +kernel⟩
  have hsize : s.text.utf8ByteSize = 63 := by decide +kernel
  have hpeek := (Cursor.inside_cursorAt s 63).peek_eq
  have hend : ((Buffer.ofSource s).cursorAt 63).offset = s.text.utf8ByteSize := by
    rw [Buffer.offset_cursorAt, hsize, Nat.min_self]
  rw [if_pos ⟨hend, by rw [hsize]⟩, hall s 63] at hpeek
  cases hpeek

end Lexico
