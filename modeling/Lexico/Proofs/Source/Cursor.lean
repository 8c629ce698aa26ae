import Lexico.Proofs.Source.Bytes
import Lexico.Source.Cursor

/-!
# Cursors between characters

`s.after u` is the cursor in the buffer of `s` behind the leading characters `u` of its text. What
is left of the text is then a list of characters `r`, with `s.text.toList = u ++ r`, and each
operation on the cursor is said in terms of `r`: looking shows the first byte of `r` or the
sentinel, and moving goes to `s.after (u ++ v)` for some leading characters `v` of `r`. None of
these operations faults.
-/

namespace Lexico

/-! ### Bytes of the buffer -/

namespace Buffer

theorem byteAt_eq (b : Buffer) (i : Nat) : b.byteAt i = b.bytes.data[i]?.getD 0 := by
  unfold byteAt
  split
  · next hi => rw [Array.getElem?_eq_getElem hi, Option.getD_some]; rfl
  · next hi => rw [Array.getElem?_eq_none (Nat.le_of_not_lt hi), Option.getD_none]

theorem toUTF8_eq (text : String) : text.toUTF8 = (encode text.toList).toByteArray := by
  rw [String.toUTF8_eq_toByteArray, ← String.utf8Encode_toList]
  rfl

theorem data_toUTF8 (text : String) : text.toUTF8.data = (encode text.toList).toArray := by
  rw [toUTF8_eq, List.data_toByteArray]

theorem size_toUTF8 (text : String) : text.toUTF8.size = byteLength text.toList := by
  rw [toUTF8_eq, List.size_toByteArray, length_encode]

/-- A byte of the buffer of a source: one of the text, or zero. -/
theorem byteAt_ofSource (s : Source) (i : Nat) :
    (ofSource s).byteAt i = (encode s.text.toList)[i]?.getD 0 := by
  have hdata : (ofSource s).bytes.data = (encode s.text.toList).toArray ++
      Array.replicate (paddedSize s.text.toUTF8.size - s.text.toUTF8.size) 0 := by
    rw [ofSource_eq, ByteArray.data_append, data_toUTF8]
    rfl
  rw [byteAt_eq, hdata, Array.getElem?_append, List.size_toArray]
  split
  · rw [List.getElem?_toArray]
  · next hi =>
    rw [Array.getElem?_replicate, List.getElem?_eq_none (Nat.le_of_not_lt hi)]
    split <;> rfl

/-- Inside the buffer every read succeeds. -/
theorem read_eq_byteAt {b : Buffer} {i : Nat} (h : i < b.bytes.size) :
    b.read i = .ok (b.byteAt i) := by
  simp [read, byteAt, h]

/-- A search passes bytes that are not looked for. -/
theorem find_skip {b : Buffer} {p : UInt8 → Bool} {i stop : Nat} (n : Nat) (hn : i + n ≤ stop)
    (h : ∀ k < n, p (b.byteAt (i + k)) = false) : b.find p i stop = b.find p (i + n) stop := by
  induction n generalizing i with
  | zero => rfl
  | succ n ih =>
    have h0 : p (b.byteAt i) = false := h 0 (Nat.succ_pos n)
    rw [find, if_pos (by omega), h0, if_neg Bool.false_ne_true, ih (by omega)]
    · congr 1
      omega
    · intro k hk
      have := h (k + 1) (by omega)
      rwa [← Nat.add_assoc, Nat.add_right_comm] at this

/-- A search for a pair passes bytes that do not start it. -/
theorem findPair?_skip {b : Buffer} {x y : UInt8} {i stop : Nat} (n : Nat)
    (h : ∀ k < n, ¬ (b.byteAt (i + k) = x ∧ b.byteAt (i + k + 1) = y)) :
    b.findPair? x y i stop = b.findPair? x y (i + n) stop := by
  induction n generalizing i with
  | zero => rfl
  | succ n ih =>
    have h0 := h 0 (Nat.succ_pos n)
    have hrest : b.findPair? x y (i + 1) stop = b.findPair? x y (i + 1 + n) stop := by
      apply ih
      intro k hk
      have := h (k + 1) (by omega)
      rwa [← Nat.add_assoc, Nat.add_right_comm] at this
    rw [Nat.add_comm n 1, ← Nat.add_assoc, ← hrest, findPair?]
    split
    · rw [if_neg]
      simpa using h0
    · rw [findPair?, if_neg (by omega)]

end Buffer

/-! ### Cursors behind leading characters -/

/-- The cursor behind the leading characters `u` of the text. -/
def Source.after (s : Source) (u : List Char) : Cursor := ⟨.ofSource s, byteLength u⟩

theorem Source.cursor_eq (s : Source) : (Buffer.ofSource s).cursor = s.after [] := rfl

section
variable {s : Source} {u v r : List Char} {c : Char} {p : UInt8 → Bool} {q : Char → Bool}

theorem sourceLen_eq_of_toList (h : s.text.toList = u ++ r) :
    (Buffer.ofSource s).sourceLen = byteLength u + byteLength r := by
  rw [Buffer.sourceLen_ofSource, utf8ByteSize_eq, h, byteLength_append]

/-- Every offset up to the end of the text fits. -/
theorem lt_offsetLimit_of_toList (h : s.text.toList = u ++ r) :
    byteLength u + byteLength r < offsetLimit := by
  have := s.size_lt
  rwa [utf8ByteSize_eq, h, byteLength_append] at this

/-- Every stretch of a source fits as a source of its own. -/
theorem Source.exists_stretch (h : s.text.toList = u ++ (v ++ r)) :
    ∃ l : Source, l.text = String.ofList v := by
  have hlt := lt_offsetLimit_of_toList h
  rw [byteLength_append] at hlt
  refine ⟨⟨String.ofList v, ?_⟩, rfl⟩
  rw [utf8ByteSize_eq, String.toList_ofList]
  omega

/-- Every offset up to the end of the text is in the buffer. -/
theorem lt_size_of_toList (h : s.text.toList = u ++ r) :
    byteLength u + byteLength r < (Buffer.ofSource s).bytes.size := by
  rw [← sourceLen_eq_of_toList h]
  exact Buffer.sourceLen_lt_size_ofSource s

theorem byteAt_of_toList (h : s.text.toList = u ++ r) (k : Nat) :
    (Buffer.ofSource s).byteAt (byteLength u + k) = (encode r)[k]?.getD 0 := by
  rw [Buffer.byteAt_ofSource, h, encode_append, List.getElem?_append_right (by simp)]
  congr 2
  simp

theorem byteAt_eq_first (h : s.text.toList = u ++ r) :
    (Buffer.ofSource s).byteAt (byteLength u) = Byte.first r := by
  have hk := byteAt_of_toList h 0
  rw [Nat.add_zero] at hk
  rw [hk, Byte.first]
  cases encode r <;> rfl

/-- The bytes of the next character. -/
theorem byteAt_mem_utf8EncodeChar (h : s.text.toList = u ++ c :: r) {k : Nat}
    (hk : k < c.utf8Size) :
    (Buffer.ofSource s).byteAt (byteLength u + k) ∈ String.utf8EncodeChar c := by
  have hlt : k < (String.utf8EncodeChar c).length := by
    rwa [String.length_utf8EncodeChar]
  rw [byteAt_of_toList h, encode_cons, List.getElem?_append_left hlt, List.getElem?_eq_getElem hlt,
    Option.getD_some]
  exact List.getElem_mem hlt

/-! ### Cuts -/

theorem fromUTF8?_utf8Encode (w : List Char) :
    String.fromUTF8? w.utf8Encode = some (String.ofList w) := by
  rw [String.fromUTF8?, dif_pos ByteArray.isValidUTF8_utf8Encode]
  apply congrArg some
  rw [← String.toByteArray_inj, String.toByteArray_ofList]
  rfl

theorem size_utf8Encode (w : List Char) : w.utf8Encode.size = byteLength w := by
  rw [← String.toByteArray_ofList, String.size_toByteArray, utf8ByteSize_eq, String.toList_ofList]

/-- The bytes of the text between characters are those of the characters. -/
theorem extract_of_toList (h : s.text.toList = u ++ (v ++ r)) :
    (Buffer.ofSource s).bytes.extract (byteLength u) (byteLength u + byteLength v) =
      v.utf8Encode := by
  have hbytes : (Buffer.ofSource s).bytes = u.utf8Encode ++ (v.utf8Encode ++ (r.utf8Encode ++
      Buffer.zeros (Buffer.paddedSize s.text.toUTF8.size - s.text.toUTF8.size))) := by
    rw [Buffer.ofSource_eq, String.toUTF8_eq_toByteArray, ← String.utf8Encode_toList, h,
      List.utf8Encode_append, List.utf8Encode_append]
    simp only [ByteArray.append_assoc]
  have hskip := ByteArray.extract_append_size_add (a := u.utf8Encode) (b := v.utf8Encode ++
    (r.utf8Encode ++ Buffer.zeros (Buffer.paddedSize s.text.toUTF8.size - s.text.toUTF8.size)))
    (i := 0) (j := v.utf8Encode.size)
  rw [Nat.add_zero, size_utf8Encode, size_utf8Encode] at hskip
  rw [hbytes, hskip, ByteArray.extract_append_eq_left (size_utf8Encode v).symm]

/-- A cut of the text between characters gives the characters. -/
theorem slice_of_toList (h : s.text.toList = u ++ (v ++ r)) :
    (Buffer.ofSource s).slice (byteLength u) (byteLength u + byteLength v) =
      .ok (String.ofList v) := by
  rw [Buffer.slice, extract_of_toList h, fromUTF8?_utf8Encode]

/-- What is shown between characters is the characters. -/
theorem shown_of_toList (h : s.text.toList = u ++ (v ++ r)) :
    (Buffer.ofSource s).shown (byteLength u) (byteLength u + byteLength v) = String.ofList v := by
  have hend := sourceLen_eq_of_toList h
  rw [byteLength_append] at hend
  rw [Buffer.shown, if_pos (by omega), extract_of_toList h, ← String.toByteArray_ofList,
    ← String.toUTF8_eq_toByteArray, Text.decode_toUTF8]

/-! ### Searches -/

/-- A search over bytes of a class goes to the first character of the class. -/
theorem find_of_toList (hpq : Byte.Class p q) (h : s.text.toList = u ++ r) :
    (Buffer.ofSource s).find p (byteLength u) (Buffer.ofSource s).sourceLen =
      byteLength (u ++ r.takeWhile fun c => !q c) := by
  induction r generalizing u with
  | nil =>
    have hstop := sourceLen_eq_of_toList h
    rw [byteLength_nil, Nat.add_zero] at hstop
    rw [hstop, Buffer.find, if_neg (Nat.lt_irrefl _), List.takeWhile_nil, List.append_nil]
  | cons c r ih =>
    have hstop := sourceLen_eq_of_toList h
    rw [byteLength_cons] at hstop
    have hpos := c.utf8Size_pos
    cases hq : q c with
    | true =>
      have hfirst : p ((Buffer.ofSource s).byteAt (byteLength u)) = true := by
        rw [byteAt_eq_first h, hpq.first, hq]
      rw [Buffer.find, if_pos (by omega), hfirst, if_pos rfl,
        List.takeWhile_cons_of_neg (by simp [hq]), List.append_nil]
    | false =>
      have hskip : ∀ k < c.utf8Size, p ((Buffer.ofSource s).byteAt (byteLength u + k)) = false :=
        fun k hk => hpq.of_mem hq _ (byteAt_mem_utf8EncodeChar h hk)
      have hnext := ih (u := u ++ [c]) (by simp [h])
      rw [byteLength_append, byteLength_cons, byteLength_nil, Nat.add_zero] at hnext
      rw [Buffer.find_skip c.utf8Size (by omega) hskip, hnext,
        List.takeWhile_cons_of_pos (by simp [hq])]
      simp

/-- Skipping the bytes of a class takes the characters of the class. -/
theorem skipWhile_of_toList (hpq : Byte.Class p q) (hnul : p Byte.nul = false)
    (h : s.text.toList = u ++ r) :
    (Buffer.ofSource s).skipWhile p (byteLength u) = .ok (byteLength (u ++ r.takeWhile q)) := by
  induction r generalizing u with
  | nil =>
    have hlt := lt_size_of_toList h
    rw [byteLength_nil, Nat.add_zero] at hlt
    have hread : p (Buffer.ofSource s).bytes[byteLength u] = false := by
      have hbyte := byteAt_eq_first h
      rw [Buffer.byteAt, dif_pos hlt] at hbyte
      rw [hbyte, Byte.first_nil, hnul]
    rw [Buffer.skipWhile, dif_pos hlt, hread, if_neg Bool.false_ne_true, List.takeWhile_nil,
      List.append_nil]
  | cons c r ih =>
    have hlt : byteLength u < (Buffer.ofSource s).bytes.size :=
      Nat.lt_of_le_of_lt (Nat.le_add_right _ _) (lt_size_of_toList h)
    have hread : p (Buffer.ofSource s).bytes[byteLength u] = q c := by
      have hbyte := byteAt_eq_first h
      rw [Buffer.byteAt, dif_pos hlt] at hbyte
      rw [hbyte, hpq.first]
    rw [Buffer.skipWhile, dif_pos hlt, hread]
    cases hq : q c with
    | true =>
      have hnext := ih (u := u ++ [c]) (by simp [h])
      rw [byteLength_append, byteLength_cons, byteLength_nil, Nat.add_zero, hpq.size hq] at hnext
      rw [if_pos rfl, hnext, List.takeWhile_cons_of_pos hq]
      simp [hpq.size hq]
    | false =>
      rw [if_neg Bool.false_ne_true, List.takeWhile_cons_of_neg (by simp [hq]), List.append_nil]

/-! ### Looking and moving -/

namespace Cursor

theorem current_after (h : s.text.toList = u ++ r) : (s.after u).current = .ok (Byte.first r) := by
  have hlt : byteLength u < (Buffer.ofSource s).bytes.size :=
    Nat.lt_of_le_of_lt (Nat.le_add_right _ _) (lt_size_of_toList h)
  rw [current, Source.after, Buffer.read_eq_byteAt hlt, byteAt_eq_first h]

/-- After an ASCII character of the text there is a byte, if only the sentinel. -/
theorem peek_after (hc : c.utf8Size = 1) (h : s.text.toList = u ++ c :: r) :
    (s.after u).peek = .ok (Byte.first r) := by
  have hnext : (s.after (u ++ [c])).current = .ok (Byte.first r) := current_after (by simp [h])
  rw [← hnext, peek, current, Source.after, Source.after, byteLength_append, byteLength_cons, hc]
  rfl

theorem isEof_after (h : s.text.toList = u ++ r) : (s.after u).isEof = .ok (decide (r = [])) := by
  have hlen : (s.after u).sourceLen = byteLength u + byteLength r := sourceLen_eq_of_toList h
  rw [isEof, current_after h, hlen]
  cases r with
  | nil => simp [Source.after, bind, Except.bind, pure, Except.pure]
  | cons c r =>
    have := c.utf8Size_pos
    have hle : ¬ byteLength u + byteLength (c :: r) ≤ byteLength u := by
      rw [byteLength_cons]
      omega
    simp only [Source.after, hle, bind, Except.bind, pure, Except.pure]
    simp

/-- Moving over characters of the text succeeds. -/
theorem advance_after (h : s.text.toList = u ++ v ++ r) :
    (s.after u).advance (byteLength v) = .ok (s.after (u ++ v)) := by
  have hlt := lt_offsetLimit_of_toList h
  rw [byteLength_append] at hlt
  rw [advance_eq_ok_iff, Source.after, Source.after, byteLength_append]
  refine ⟨?_, rfl⟩
  show byteLength u + byteLength v < offsetLimit
  omega

theorem advance_one_after (hc : c.utf8Size = 1) (h : s.text.toList = u ++ c :: r) :
    (s.after u).advance 1 = .ok (s.after (u ++ [c])) := by
  have := advance_after (u := u) (v := [c]) (r := r) (s := s) (by simp [h])
  rwa [byteLength_cons, byteLength_nil, hc] at this

theorem advanceChar_after (h : s.text.toList = u ++ c :: r) :
    (s.after u).advanceChar = .ok (s.after (u ++ [c])) := by
  have hmove := advance_after (u := u) (v := [c]) (r := r) (s := s) (by simp [h])
  rw [byteLength_cons, byteLength_nil, Nat.add_zero, ← Byte.charWidth_first c r] at hmove
  rw [advanceChar, current_after h]
  exact hmove

theorem eatWhile_after (hpq : Byte.Class p q) (hnul : p Byte.nul = false)
    (h : s.text.toList = u ++ r) :
    (s.after u).eatWhile p = .ok (s.after (u ++ r.takeWhile q)) := by
  rw [eatWhile, Source.after, skipWhile_of_toList hpq hnul h]
  rfl

theorem cursorAt_after (h : s.text.toList = u ++ r) :
    (Buffer.ofSource s).cursorAt (byteLength u) = s.after u := by
  rw [Buffer.cursorAt, sourceLen_eq_of_toList h, Nat.min_eq_left (Nat.le_add_right _ _),
    Source.after]

theorem eatLine_after (h : s.text.toList = u ++ r) :
    (s.after u).eatLine = .ok (s.after (u ++ r.takeWhile (· != '\n'))) := by
  have hclass : Byte.Class (· == Byte.lineFeed) (· == '\n') := Byte.Class.only (a := '\n') rfl
  have hle : (s.after u).offset ≤ (s.after u).sourceLen := by
    rw [Cursor.sourceLen, Source.after, sourceLen_eq_of_toList h]
    exact Nat.le_add_right _ _
  rw [eatLine, if_pos hle]
  exact congrArg (fun i => Except.ok (⟨.ofSource s, i⟩ : Cursor)) (find_of_toList hclass h)

/-- The search through a string literal goes to the next character with a meaning there. -/
theorem toStringDelimiter_after (h : s.text.toList = u ++ r) :
    (s.after u).toStringDelimiter =
      .ok (Byte.first (r.dropWhile fun c => !Text.isStringDelimiter c),
        s.after (u ++ r.takeWhile fun c => !Text.isStringDelimiter c)) := by
  have hfind := find_of_toList Byte.Class.stringDelimiter h
  have hle : (s.after u).offset ≤ (s.after u).sourceLen := by
    rw [Cursor.sourceLen, Source.after, sourceLen_eq_of_toList h]
    exact Nat.le_add_right _ _
  have hsplit : s.text.toList = (u ++ r.takeWhile fun c => !Text.isStringDelimiter c) ++
      r.dropWhile fun c => !Text.isStringDelimiter c := by
    rw [List.append_assoc, List.takeWhile_append_dropWhile, h]
  rw [toStringDelimiter, if_pos hle]
  simp only [Source.after, Cursor.sourceLen, hfind]
  congr 2
  rw [byteAt_eq_first hsplit, sourceLen_eq_of_toList hsplit]
  cases r.dropWhile fun c => !Text.isStringDelimiter c with
  | nil => simp
  | cons c w =>
    have := c.utf8Size_pos
    rw [if_pos (by rw [byteLength_cons]; omega)]

end Cursor
end
end Lexico
