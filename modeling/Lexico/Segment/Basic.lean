import Lexico.Segment.Scan

/-!
# Segments

A **segment** is a tag and a number of bytes. Cutting segments off a text until its end visits
every byte once; each segment but the one for the end has at least one byte
(`Cursor.len_pos_of_nextSegment`), so this terminates.
-/

namespace Lexico

/-- A tag and the number of bytes cut. -/
structure Segment where
  tag : Tag
  len : Nat
  deriving DecidableEq, Repr

namespace Cursor

open Fault (bind_eq_ok_iff pure_eq_ok_iff)

/-- The segment at a cursor and the cursor after it; at the end of the text, an empty segment and
the same cursor. -/
def nextSegment (c : Cursor) : Except Fault (Segment × Cursor) := do
  let (tag, d) ← c.scan
  return (⟨tag, d.offset - c.offset⟩, d)

theorem nextSegment_eq_ok_iff {c d : Cursor} {s : Segment} :
    c.nextSegment = .ok (s, d) ↔ c.scan = .ok (s.tag, d) ∧ s.len = d.offset - c.offset := by
  simp only [nextSegment, bind_eq_ok_iff, pure_eq_ok_iff, Prod.exists, Prod.mk.injEq]
  constructor
  · rintro ⟨_, _, h, rfl, rfl⟩; exact ⟨h, rfl⟩
  · rintro ⟨h, hlen⟩; exact ⟨_, _, h, by cases s; simp_all, rfl⟩

/-- A segment is cut only where a byte can be seen, and ends after its start. -/
theorem lt_of_nextSegment {c d : Cursor} {s : Segment} (h : c.nextSegment = .ok (s, d))
    (hs : s.tag ≠ .eof) : c < d ∧ c.offset < c.buffer.bytes.size := by
  obtain ⟨hscan, -⟩ := nextSegment_eq_ok_iff.1 h
  obtain ⟨b, hb, -⟩ := bind_eq_ok_iff.1 hscan
  exact ⟨lt_of_scan hscan hs, lt_size_of_current hb⟩

/-- A segment other than the end of the text is not empty. -/
theorem len_pos_of_nextSegment {c d : Cursor} {s : Segment} (h : c.nextSegment = .ok (s, d))
    (hs : s.tag ≠ .eof) : 0 < s.len := by
  obtain ⟨hscan, hlen⟩ := nextSegment_eq_ok_iff.1 h
  have := (lt_of_scan hscan hs).2
  omega

/-- The segments `done`, latest first, and those from a cursor up to the end of the text. -/
def segmentsAfter (done : List Segment) (c : Cursor) : Except Fault (List Segment) :=
  match h : c.nextSegment with
  | .error fault => .error fault
  | .ok (s, d) =>
    if hs : s.tag = .eof then .ok done.reverse
    else
      have := lt_of_nextSegment h hs
      segmentsAfter (s :: done) d
termination_by c.buffer.bytes.size - c.offset
decreasing_by
  obtain ⟨⟨hbuf, hlt⟩, hsize⟩ := this
  rw [hbuf]
  omega

/-- The segments from a cursor up to the end of the text. -/
def segments (c : Cursor) : Except Fault (List Segment) := c.segmentsAfter []

end Cursor

/-- The segments of a text. -/
def Source.segments (s : Source) : Except Fault (List Segment) := (Buffer.ofSource s).cursor.segments

end Lexico
