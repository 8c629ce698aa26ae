import Lexico.Proofs.Segment.Audit
import Lexico.Proofs.Segment.Segmented
import Lexico.Proofs.Source.Boundary

/-!
# Cutting from any offset

A cursor may be put at any byte offset, inside a character as well. What is left of that character
is cut byte by byte, each one a character that nothing accepts, and from the next boundary on the
segments are those of the text that begins there (`segments_cursorAt`). What is cut from an offset
on depends on no byte in front of it, and cutting may go on from the end of any segment.
-/

namespace Lexico

/-! ### Inside a character -/

/-- A byte that starts no character starts nothing else. -/
theorem Lead.ofByte_of_inner {b : UInt8} (hb : ¬ b.IsUTF8FirstByte) : ofByte b = .other :=
  forall_byte (P := fun b => ¬ b.IsUTF8FirstByte → ofByte b = .other) (by decide +kernel) b hb

theorem Byte.charWidth_of_inner {b : UInt8} (hb : ¬ b.IsUTF8FirstByte) : charWidth b = 1 :=
  forall_byte (P := fun b => ¬ b.IsUTF8FirstByte → charWidth b = 1) (by decide +kernel) b hb

namespace Cursor

variable {s : Source} {n : Nat}

/-- Inside a character one byte is cut. -/
theorem nextSegment_of_inner {b : UInt8} (hbyte : (encode s.text.toList)[n]? = some b)
    (hb : ¬ b.IsUTF8FirstByte) :
    (⟨.ofSource s, n⟩ : Cursor).nextSegment =
      .ok (⟨.unrecognizedChar, 1⟩, ⟨.ofSource s, n + 1⟩) := by
  have hlt : n < s.text.utf8ByteSize := by
    rw [utf8ByteSize_eq, ← length_encode]
    exact (List.getElem?_eq_some_iff.mp hbyte).1
  have hlook : (⟨.ofSource s, n⟩ : Cursor).current = .ok b := by
    have hinside : Inside s ⟨.ofSource s, n⟩ := ⟨rfl, Nat.le_of_lt hlt⟩
    have hsize := hinside.lt_size
    rw [current, Buffer.read_eq_byteAt hsize, Buffer.byteAt_ofSource, hbyte, Option.getD_some]
  have hmove : (⟨.ofSource s, n⟩ : Cursor).advance 1 = .ok ⟨.ofSource s, n + 1⟩ :=
    advance_eq_ok_iff.mpr ⟨Nat.lt_of_le_of_lt hlt s.size_lt, rfl⟩
  rw [nextSegment, scan, hlook, Fault.ok_bind, Lead.ofByte_of_inner hb]
  simp [advanceChar, hlook, Byte.charWidth_of_inner hb, hmove]

/-- What is left of a character is cut byte by byte. -/
theorem segmentsAfter_of_torn {torn : List UInt8} {u r : List Char}
    (htorn : Torn ((encode s.text.toList).drop n) torn r) (hu : byteLength u = n + torn.length)
    (done : List Segment) :
    (⟨.ofSource s, n⟩ : Cursor).segmentsAfter done =
      (s.after u).segmentsAfter (List.replicate torn.length ⟨.unrecognizedChar, 1⟩ ++ done) := by
  induction torn generalizing n done with
  | nil =>
    rw [List.length_nil, Nat.add_zero] at hu
    rw [List.length_nil, List.replicate_zero, List.nil_append, Source.after, hu]
  | cons b torn ih =>
    have hbyte : (encode s.text.toList)[n]? = some b := by
      rw [← List.head?_drop, htorn.eq]
      rfl
    have hnext : Torn ((encode s.text.toList).drop (n + 1)) torn r := by
      refine ⟨?_, fun b hb => htorn.inner b (List.mem_cons_of_mem _ hb)⟩
      rw [← List.tail_drop, htorn.eq]
      rfl
    rw [segmentsAfter_of_ne_eof done
        (nextSegment_of_inner hbyte (htorn.inner b List.mem_cons_self)) (by decide),
      ih hnext (by rw [hu, List.length_cons]; omega), List.length_cons, List.replicate_succ',
      List.append_assoc]
    rfl

theorem segments_of_torn {torn : List UInt8} {u r : List Char} {ps : List Piece}
    (htext : s.text.toList = u ++ r)
    (hu : byteLength u = min n s.text.utf8ByteSize + torn.length)
    (htorn : Torn ((encode s.text.toList).drop n) torn r) (hps : Segmented r ps) :
    ((Buffer.ofSource s).cursorAt n).segments =
      .ok (List.replicate torn.length ⟨.unrecognizedChar, 1⟩ ++ ps.map Piece.segment) := by
  rw [← drop_min_byteLength, ← utf8ByteSize_eq] at htorn
  rw [Buffer.cursorAt, Buffer.sourceLen_ofSource, segments, segmentsAfter_of_torn htorn hu,
    segmentsAfter_of_segmented htext hps, List.append_nil, List.reverse_replicate]

/-- **Only the bytes from an offset on** decide what is cut there. -/
theorem segments_eq_of_drop_eq {s' : Source} {n' : Nat}
    (h : (encode s'.text.toList).drop n' = (encode s.text.toList).drop n) :
    ((Buffer.ofSource s').cursorAt n').segments = ((Buffer.ofSource s).cursorAt n).segments := by
  obtain ⟨torn, u, r, htext, hu, htorn⟩ := exists_torn s.text.toList n
  obtain ⟨torn', u', r', htext', hu', htorn'⟩ := exists_torn s'.text.toList n'
  obtain ⟨ps, hps⟩ := exists_segmented r
  obtain ⟨rfl, rfl⟩ := htorn.unique (h ▸ htorn')
  rw [← utf8ByteSize_eq] at hu hu'
  rw [segments_of_torn htext hu htorn hps, segments_of_torn htext' hu' htorn' hps]

end Cursor

/-! ### Where the segments end -/

/-- The offset at which the first `i` of the segments `xs` end when they start at `start`. -/
def Segment.stop (start : Nat) (xs : List Segment) (i : Nat) : Nat :=
  start + ((xs.take i).map Segment.len).sum

theorem Segment.stop_le (start : Nat) (xs : List Segment) (i : Nat) :
    stop start xs i ≤ start + (xs.map Segment.len).sum := by
  have hsplit : (xs.map Segment.len).sum =
      ((xs.take i).map Segment.len).sum + ((xs.drop i).map Segment.len).sum := by
    rw [← List.sum_append, ← List.map_append, List.take_append_drop]
  rw [stop, hsplit]
  omega

/-- The bytes of a torn character add one each, pieces the length of their text. -/
theorem Segment.sum_len_of_torn (m : Nat) (ps : List Piece) :
    ((List.replicate m (⟨.unrecognizedChar, 1⟩ : Segment) ++ ps.map Piece.segment).map len).sum =
      m + byteLength (ps.flatMap Piece.text) := by
  rw [List.map_append, List.sum_append, List.map_replicate, List.sum_replicate_nat, Nat.mul_one,
    sum_len_segments]

/-- The bytes of a torn character end one after the other, and then the pieces do. -/
theorem Segment.stop_of_torn (n m : Nat) (ps : List Piece) (i : Nat) :
    stop n (List.replicate m ⟨.unrecognizedChar, 1⟩ ++ ps.map Piece.segment) i =
      n + min i m + byteLength ((ps.take (i - m)).flatMap Piece.text) := by
  rw [stop, List.take_append, List.take_replicate, List.length_replicate, ← List.map_take,
    sum_len_of_torn, Nat.add_assoc]

/-- Behind the torn character, all segments end at boundaries. -/
theorem Source.isBoundary_stop {s : Source} {n m : Nat} {u r : List Char} {ps : List Piece}
    (htext : s.text.toList = u ++ r) (hps : Segmented r ps)
    (hu : byteLength u = n + m) (i : Nat) :
    let stop := Segment.stop n
      (List.replicate m ⟨.unrecognizedChar, 1⟩ ++ ps.map Piece.segment) i
    byteLength u ≤ stop → s.IsBoundary stop := by
  intro stop hle
  have hstop : stop = _ := Segment.stop_of_torn n m ps i
  have hi : m ≤ i := by
    apply Nat.le_of_not_lt
    intro hlt
    rw [Nat.sub_eq_zero_of_le (Nat.le_of_lt hlt), List.take_zero, List.flatMap_nil,
      byteLength_nil] at hstop
    omega
  rw [hstop, Nat.min_eq_right hi, ← hu, ← byteLength_append]
  refine isBoundary_iff.mpr ⟨_, (ps.drop (i - m)).flatMap Piece.text, ?_, rfl⟩
  rw [htext, List.append_assoc, ← List.flatMap_append, List.take_append_drop, hps.flatten]

/-! ### Going on from the end of a segment -/

namespace Cursor

/-- What is cut already only stands in front. -/
theorem segmentsAfter_eq {c : Cursor} {done xs : List Segment} (h : c.segmentsAfter done = .ok xs) :
    ∃ ys, xs = done.reverse ++ ys ∧
      ∀ done' : List Segment, c.segmentsAfter done' = .ok (done'.reverse ++ ys) := by
  fun_induction segmentsAfter done c with
  | case1 => cases h
  | case2 done c x d hnext hx =>
    cases h
    refine ⟨[], (List.append_nil _).symm, ?_⟩
    intro done'
    rw [segmentsAfter_of_eof done' hnext hx, List.append_nil]
  | case3 done c x d hnext hx _ ih =>
    obtain ⟨ys, rfl, hall⟩ := ih h
    refine ⟨x :: ys, by simp, ?_⟩
    intro done'
    rw [segmentsAfter_of_ne_eof done' hnext hx, hall]
    simp

/-- The first segment is not empty, and behind it the others are cut. -/
theorem segments_eq_cons {c : Cursor} {x : Segment} {xs : List Segment}
    (h : c.segments = .ok (x :: xs)) :
    0 < x.len ∧ (⟨c.buffer, c.offset + x.len⟩ : Cursor).segments = .ok xs := by
  rw [segments, segmentsAfter] at h
  split at h
  · cases h
  · next y d hnext =>
    split at h
    · cases h
    · next hy =>
      obtain ⟨ys, hys, hall⟩ := segmentsAfter_eq h
      cases hys
      obtain ⟨hscan, hlen⟩ := nextSegment_eq_ok_iff.mp hnext
      obtain ⟨hbuf, hlt⟩ := lt_of_scan hscan hy
      have hd : (⟨c.buffer, c.offset + x.len⟩ : Cursor) = d := by
        rw [hlen, Nat.add_sub_cancel' (Nat.le_of_lt hlt), ← hbuf]
      refine ⟨len_pos_of_nextSegment hnext hy, ?_⟩
      rw [hd]
      exact hall []

theorem len_pos_of_segments {c : Cursor} {xs : List Segment} (h : c.segments = .ok xs) :
    ∀ x ∈ xs, 0 < x.len := by
  induction xs generalizing c with
  | nil => exact nofun
  | cons x xs ih =>
    obtain ⟨hpos, hrest⟩ := segments_eq_cons h
    exact List.forall_mem_cons.mpr ⟨hpos, ih hrest⟩

/-- **Cutting goes on** from the end of any segment. -/
theorem segments_stop {c : Cursor} {xs : List Segment} (h : c.segments = .ok xs) (i : Nat) :
    (⟨c.buffer, Segment.stop c.offset xs i⟩ : Cursor).segments = .ok (xs.drop i) := by
  induction i generalizing c xs with
  | zero => exact h
  | succ i ih =>
    cases xs with
    | nil => exact h
    | cons x xs =>
      have hrest := ih (segments_eq_cons h).2
      rwa [Segment.stop, Nat.add_assoc, ← List.sum_cons, ← List.map_cons,
        ← List.take_succ_cons] at hrest

end Cursor

/-! ### From any offset -/

namespace Audit

/-- The segments from a byte offset up to the end of the text, audited. -/
def segmentsAt (s : Source) (k : Nat) : Audited (List Segment) := do
  segmentsAfter [] (← cursorAt (.ofSource s) k)

theorem result_segmentsAt (s : Source) (k : Nat) :
    (segmentsAt s k).result = ((Buffer.ofSource s).cursorAt k).segments := by
  simp [segmentsAt, Cursor.segments]

theorem safe_segmentsAt (s : Source) (k : Nat) :
    (segmentsAt s k).Safe (.ofSource s) fun _ => True := by
  apply (safe_cursorAt s k).bind
  rintro c ⟨hc, -⟩
  exact safe_segmentsAfter [] hc

end Audit

/-- **Cutting from any byte offset.** From the offset up to the next boundary there are single bytes
that nothing accepts, and then the segments of the text that begins there. All accesses on the way
are safe. The segments are not empty, reach to the end of the text, and from the boundary on end at
boundaries. From the end of each one the others are cut in every text that goes on with the same
bytes, whatever stands in front. -/
theorem Source.segments_cursorAt (s : Source) (k : Nat) :
    let p := min k s.text.utf8ByteSize
    ∃ (q : Nat) (front : String) (back : Source) (xs ys : List Segment),
      IsLeast {n | p ≤ n ∧ s.IsBoundary n} q ∧
      s.text = front ++ back.text ∧ front.utf8ByteSize = q ∧ back.segments = .ok xs ∧
      ys = List.replicate (q - p) ⟨.unrecognizedChar, 1⟩ ++ xs ∧
      ((Buffer.ofSource s).cursorAt k).segments = .ok ys ∧
      (Audit.segmentsAt s k).result = .ok ys ∧
      (∀ y ∈ (Audit.segmentsAt s k).accesses, y.Safe (.ofSource s)) ∧
      (∀ y ∈ ys, 0 < y.len) ∧ (ys.map Segment.len).sum = s.text.utf8ByteSize - p ∧
      (∀ i, q ≤ Segment.stop p ys i → s.IsBoundary (Segment.stop p ys i)) ∧
      ∀ i s' k', (encode s'.text.toList).drop k' =
          (encode s.text.toList).drop (Segment.stop p ys i) →
        ((Buffer.ofSource s').cursorAt k').segments = .ok (ys.drop i) := by
  intro p
  obtain ⟨torn, u, r, htext, hu, htorn⟩ := exists_torn s.text.toList k
  obtain ⟨ps, hps⟩ := exists_segmented r
  rw [← utf8ByteSize_eq] at hu
  have hsize : s.text.utf8ByteSize = byteLength u + byteLength r := by
    rw [utf8ByteSize_eq, htext, byteLength_append]
  obtain ⟨back, hback⟩ : ∃ back : Source, back.text = String.ofList r :=
    exists_stretch (r := []) (by rw [htext, List.append_nil])
  have htorn' : Torn ((encode s.text.toList).drop p) torn r := by
    rwa [← drop_min_byteLength, ← utf8ByteSize_eq] at htorn
  have hq : byteLength u - p = torn.length := by omega
  let ys := List.replicate torn.length ⟨.unrecognizedChar, 1⟩ ++ ps.map Piece.segment
  have hcut : ((Buffer.ofSource s).cursorAt k).segments = .ok ys :=
    Cursor.segments_of_torn htext hu htorn hps
  have hsum : (ys.map Segment.len).sum = s.text.utf8ByteSize - p := by
    rw [Segment.sum_len_of_torn, hps.flatten]
    omega
  refine ⟨byteLength u, String.ofList u, back, ps.map Piece.segment, ys,
    isLeast_boundary htext hu htorn', ?_, ?_, ?_, hq.symm ▸ rfl, hcut,
    (Audit.result_segmentsAt s k).trans hcut, (Audit.safe_segmentsAt s k).1,
    Cursor.len_pos_of_segments hcut, hsum, isBoundary_stop htext hps hu, ?_⟩
  · rw [hback, ← String.ofList_append, ← htext, String.ofList_toList]
  · rw [utf8ByteSize_eq, String.toList_ofList]
  · exact segments_of_segmented (by rwa [hback, String.toList_ofList])
  · intro i s' k' hbytes
    -- The end of a segment is in the text, so a cursor may be put there.
    have hstop : Segment.stop p ys i ≤ s.text.utf8ByteSize := by
      have := Segment.stop_le p ys i
      omega
    have hrest := Cursor.segments_stop hcut i
    rw [Buffer.offset_cursorAt] at hrest
    rw [Cursor.segments_eq_of_drop_eq hbytes, Buffer.cursorAt, Buffer.sourceLen_ofSource,
      Nat.min_eq_left hstop]
    exact hrest

/-- Inside the character in front of a number there is one byte to cut, and behind it the number as
in a text of its own. -/
theorem segments_cursorAt_inside :
    let s : Source := ⟨"é1", by decide⟩
    let s' : Source := ⟨"1", by decide⟩
    let ys : List Segment := [⟨.unrecognizedChar, 1⟩, ⟨.int, 1⟩]
    ((Buffer.ofSource s).cursorAt 1).segments = .ok ys ∧
      (encode s'.text.toList).drop 0 = (encode s.text.toList).drop (Segment.stop 1 ys 1) ∧
      ((Buffer.ofSource s').cursorAt 0).segments = .ok (ys.drop 1) := by
  intro s s' ys
  obtain ⟨q, front, back, xs, zs, -, -, -, -, -, hcut, -, -, -, -, -, hrest⟩ :=
    Source.segments_cursorAt s 1
  have heval : ((Buffer.ofSource s).cursorAt 1).segments.toOption = some ys := by decide +kernel
  rw [hcut] at heval
  cases heval
  have hbytes : (encode s'.text.toList).drop 0 =
      (encode s.text.toList).drop (Segment.stop 1 ys 1) := by
    decide +kernel
  exact ⟨hcut, hbytes, hrest 1 s' 0 hbytes⟩

end Lexico
