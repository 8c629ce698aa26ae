import Lexico.Proofs.Segment.Scan
import Lexico.Proofs.Segment.Shape
import Mathlib.Algebra.GroupWithZero.Nat

/-!
# Segmentations

`Segmented cs ps` says that the pieces `ps` follow each other in the text `cs`, each one cut where
the one before it ends. A text has exactly one segmentation, and in numbers of bytes that is what
`Source.segments` computes:

    segments_of_segmented : Segmented s.text.toList ps → s.segments = .ok (ps.map Piece.segment)
-/

namespace Lexico

open Piece (Cuts)

/-- The pieces of a text, from its start to its end. -/
inductive Segmented : List Char → List Piece → Prop
  | nil : Segmented [] []
  | cons {t w r ps} : Cuts t w r → Segmented r ps → Segmented (w ++ r) (⟨t, w⟩ :: ps)

/-- Every text has a segmentation. -/
theorem exists_segmented (cs : List Char) : ∃ ps, Segmented cs ps := by
  -- A piece is not empty, so what is left behind it is shorter.
  induction hn : cs.length using Nat.strongRecOn generalizing cs with
  | ind n ih =>
    by_cases hcs : cs = []
    · exact ⟨[], hcs ▸ .nil⟩
    · obtain ⟨t, w, r, rfl, hcuts⟩ := Piece.exists_cuts hcs
      have hpos : 0 < w.length := List.length_pos_iff.mpr hcuts.1.ne_nil
      obtain ⟨ps, hps⟩ := ih r.length (by rw [← hn, List.length_append]; omega) r rfl
      exact ⟨⟨t, w⟩ :: ps, .cons hcuts hps⟩

/-- A text has one segmentation. -/
theorem Segmented.unique {cs : List Char} {ps qs : List Piece} (h : Segmented cs ps)
    (h' : Segmented cs qs) : ps = qs := by
  induction h generalizing qs with
  | nil =>
    generalize hcs : ([] : List Char) = cs at h'
    cases h' with
    | nil => rfl
    | cons hcuts _ => exact absurd (List.append_eq_nil_iff.mp hcs.symm).1 hcuts.1.ne_nil
  | @cons t w r ps hcuts _ ih =>
    generalize hcs : w ++ r = cs at h'
    cases h' with
    | nil => exact absurd (List.append_eq_nil_iff.mp hcs).1 hcuts.1.ne_nil
    | cons hcuts' hps' =>
      obtain ⟨rfl, rfl, rfl⟩ := hcuts.unique hcuts' hcs
      rw [ih hps']

/-- The pieces put together are the text. -/
theorem Segmented.flatten {cs : List Char} {ps : List Piece} (h : Segmented cs ps) :
    ps.flatMap Piece.text = cs := by
  induction h with
  | nil => rfl
  | cons _ _ ih => rw [List.flatMap_cons, ih]

/-- The lengths of segments add up to the length of their text. -/
theorem sum_len_segments (ps : List Piece) :
    ((ps.map Piece.segment).map Segment.len).sum = byteLength (ps.flatMap Piece.text) := by
  induction ps with
  | nil => rfl
  | cons p ps ih => rw [List.map_cons, List.map_cons, List.sum_cons, ih, List.flatMap_cons,
      byteLength_append, Piece.segment]

namespace Cursor

variable {s : Source} {u w r : List Char} {t : Tag}

theorem nextSegment_nil (h : s.text.toList = u) :
    (s.after u).nextSegment = .ok (⟨.eof, 0⟩, s.after u) := by
  have hscan : (s.after u).scan = .ok (.eof, s.after u) :=
    scan_after (r := []) (by rw [h, List.append_nil])
  rw [nextSegment, hscan, Fault.ok_bind]
  simp

/-- The next segment is the next piece. -/
theorem nextSegment_of_cuts (h : s.text.toList = u ++ (w ++ r)) (hcuts : Cuts t w r) :
    (s.after u).nextSegment = .ok (Piece.segment ⟨t, w⟩, s.after (u ++ w)) := by
  have hscan := scan_after h
  rw [scanned, Piece.cut?_of_cuts hcuts] at hscan
  rw [nextSegment, hscan, Fault.ok_bind]
  simp [passed, Source.after, Piece.segment]

theorem segmentsAfter_of_eof {c d : Cursor} {x : Segment} (done : List Segment)
    (h : c.nextSegment = .ok (x, d)) (hx : x.tag = .eof) :
    c.segmentsAfter done = .ok done.reverse := by
  rw [segmentsAfter]
  split
  · next h' => rw [h] at h'; cases h'
  · next h' => rw [h] at h'; cases h'; rw [dif_pos hx]

theorem segmentsAfter_of_ne_eof {c d : Cursor} {x : Segment} (done : List Segment)
    (h : c.nextSegment = .ok (x, d)) (hx : x.tag ≠ .eof) :
    c.segmentsAfter done = d.segmentsAfter (x :: done) := by
  rw [segmentsAfter]
  split
  · next h' => rw [h] at h'; cases h'
  · next h' => rw [h] at h'; cases h'; rw [dif_neg hx]

theorem segmentsAfter_of_segmented {ps : List Piece} (h : s.text.toList = u ++ r)
    (hr : Segmented r ps) (done : List Segment) :
    (s.after u).segmentsAfter done = .ok (done.reverse ++ ps.map Piece.segment) := by
  induction hr generalizing u done with
  | nil =>
    rw [segmentsAfter_of_eof done (nextSegment_nil (by rw [h, List.append_nil])) rfl]
    simp
  | cons hcuts _ ih =>
    rw [segmentsAfter_of_ne_eof done (nextSegment_of_cuts h hcuts) hcuts.1.ne_eof,
      ih (by rw [h, List.append_assoc])]
    simp

end Cursor

/-- The segments of a text are its pieces in numbers of bytes. -/
theorem Source.segments_of_segmented {s : Source} {ps : List Piece}
    (h : Segmented s.text.toList ps) : s.segments = .ok (ps.map Piece.segment) := by
  rw [Source.segments, cursor_eq, Cursor.segments, Cursor.segmentsAfter_of_segmented rfl h]
  rfl

end Lexico
