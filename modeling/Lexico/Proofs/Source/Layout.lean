import Lexico.Proofs.Source.Cursor
import Mathlib.Algebra.Group.Nat.Defs
import Mathlib.Order.Bounds.Basic

/-!
# The layout of a buffer

A buffer is **laid out** for a source if it starts with the bytes of the text, has nothing but zeros
behind them, and ends at the least multiple of 64 above the text. There is one such buffer for each
source, the one that is made of it:

    laidOut_iff : b.LaidOut s ↔ b = .ofSource s

A text may have zero bytes of its own, so the byte alone does not tell where it is over. The zeros
of the layout and the offset together do, as far as the padding goes (`LaidOut.isEof_eq`). The
multiple is the one that words get by a sum and a mask, as long as the sum fits (`toNat_maskedSize`).
-/

namespace Lexico

namespace Buffer

/-! ### Rounding up -/

/-- The padded size of `n` is the least multiple of the alignment above `n`. -/
theorem isLeast_paddedSize (n : Nat) : IsLeast {m | n < m ∧ alignment ∣ m} (paddedSize n) := by
  refine ⟨⟨lt_paddedSize n, Nat.dvd_mul_left ..⟩, ?_⟩
  rintro m ⟨hlt, k, rfl⟩
  have hk : n / alignment < k := Nat.div_lt_of_lt_mul hlt
  calc paddedSize n ≤ k * alignment := Nat.mul_le_mul_right _ hk
    _ = alignment * k := Nat.mul_comm ..

/-- The padded size as words of `w` bits give it: the sum reaches the next multiple of the alignment
or goes past it by less than another one, and the mask takes away the excess. -/
def maskedSize {w : Nat} (n : BitVec w) : BitVec w :=
  (n + 1 + BitVec.ofNat w alignment - 1) &&& ~~~(BitVec.ofNat w alignment - 1)

/-- Without its low `k` bits a word lacks its remainder by `2 ^ k`. -/
theorem toNat_and_not_low {w k : Nat} {x low : BitVec w} (hlow : low.toNat = 2 ^ k - 1) :
    (x &&& ~~~low).toNat + x.toNat % 2 ^ k = x.toNat := by
  have hmod : (x &&& low).toNat = x.toNat % 2 ^ k := by
    rw [BitVec.toNat_and, hlow, Nat.and_two_pow_sub_one_eq_mod]
  have hdisjoint : (x &&& ~~~low) &&& (x &&& low) = 0#w := by
    ext i
    cases hi : low[i] <;> simp [hi]
  have hwhole : (x &&& ~~~low) ||| (x &&& low) = x := by
    ext i
    cases hi : low[i] <;> simp [hi]
  rw [← hmod, ← BitVec.toNat_add_of_and_eq_zero hdisjoint,
    BitVec.add_eq_or_of_and_eq_zero _ _ hdisjoint, hwhole]

/-- **Rounding by a mask** gives the padded size if no step of the sum wraps. -/
theorem toNat_maskedSize {w n : Nat} (h : n + 1 + alignment < 2 ^ w) :
    (maskedSize (BitVec.ofNat w n)).toNat = paddedSize n := by
  have hsum : BitVec.ofNat w n + 1 + BitVec.ofNat w alignment - 1 =
      BitVec.ofNat w (n + alignment) := by
    rw [BitVec.add_assoc, BitVec.add_comm 1, ← BitVec.add_assoc, BitVec.add_sub_cancel,
      BitVec.ofNat_add]
  have hmask : BitVec.ofNat w alignment - 1 = BitVec.ofNat w (2 ^ 6 - 1) := by
    rw [alignment, BitVec.ofNat_add 63 1]
    exact BitVec.add_sub_cancel ..
  have hfits : (BitVec.ofNat w (n + alignment)).toNat = n + alignment :=
    Nat.mod_eq_of_lt (by omega)
  have hlow : (BitVec.ofNat w (2 ^ 6 - 1)).toNat = 2 ^ 6 - 1 := by
    apply Nat.mod_eq_of_lt
    show 63 < 2 ^ w
    unfold alignment at h
    omega
  have hcleared := toNat_and_not_low (x := BitVec.ofNat w (n + alignment)) hlow
  rw [hfits] at hcleared
  -- the sum is one alignment above `n`; less its remainder it is the next multiple
  unfold maskedSize
  rw [hsum, hmask]
  unfold paddedSize
  unfold alignment at hcleared ⊢
  omega

/-! ### Zeros -/

theorem getElem_zeros {n i : Nat} (h : i < (zeros n).size) : (zeros n)[i] = 0 :=
  Array.getElem_replicate ..

theorem eq_zeros {a : ByteArray} (h : ∀ i (hi : i < a.size), a[i] = 0) : a = zeros a.size := by
  apply ByteArray.ext_getElem (size_zeros _).symm
  intro i hi hi'
  rw [h i hi, getElem_zeros]

/-! ### The layout -/

/-- What the buffer of a source looks like. -/
structure LaidOut (s : Source) (b : Buffer) : Prop where
  sourceLen : b.sourceLen = s.text.utf8ByteSize
  content : b.content = s.text.toUTF8
  zero : ∀ i (hi : i < b.bytes.size), s.text.utf8ByteSize ≤ i → b.bytes[i] = 0
  size : IsLeast {m | s.text.utf8ByteSize < m ∧ 64 ∣ m} b.bytes.size

theorem laidOut_ofSource (s : Source) : (ofSource s).LaidOut s where
  sourceLen := sourceLen_ofSource s
  content := content_ofSource s
  zero := by
    intro i hi hle
    have hbyte : (ofSource s).bytes[i] = (ofSource s).byteAt i := (dif_pos hi).symm
    have hnone : (encode s.text.toList)[i]? = none := by
      rw [utf8ByteSize_eq] at hle
      rwa [List.getElem?_eq_none_iff, length_encode]
    rw [hbyte, byteAt_ofSource, hnone, Option.getD_none]
  size := by
    rw [size_ofSource]
    exact isLeast_paddedSize _

variable {s : Source} {b : Buffer}

namespace LaidOut

theorem size_eq (h : b.LaidOut s) : b.bytes.size = paddedSize s.text.utf8ByteSize :=
  h.size.unique (isLeast_paddedSize _)

/-- Behind the text there are as many zeros as the size asks for. -/
theorem bytes_eq (h : b.LaidOut s) :
    b.bytes = s.text.toUTF8 ++ zeros (b.bytes.size - s.text.utf8ByteSize) := by
  have hle : b.sourceLen ≤ b.bytes.size := h.sourceLen ▸ Nat.le_of_lt h.size.1.1
  have hzero : b.bytes.extract b.sourceLen b.bytes.size =
      zeros (b.bytes.size - s.text.utf8ByteSize) := by
    have hsize : (b.bytes.extract b.sourceLen b.bytes.size).size =
        b.bytes.size - s.text.utf8ByteSize := by
      rw [ByteArray.size_extract, Nat.min_self, h.sourceLen]
    rw [← hsize]
    apply eq_zeros
    intro i hi
    rw [ByteArray.getElem_extract]
    exact h.zero _ _ (h.sourceLen ▸ Nat.le_add_right ..)
  calc b.bytes = b.bytes.extract 0 b.bytes.size := ByteArray.extract_zero_size.symm
    _ = b.content ++ b.bytes.extract b.sourceLen b.bytes.size :=
      ByteArray.extract_eq_extract_append_extract _ (Nat.zero_le _) hle
    _ = s.text.toUTF8 ++ zeros (b.bytes.size - s.text.utf8ByteSize) := by rw [h.content, hzero]

end LaidOut

/-- **The layout for a source** is that of its own buffer, and of no other. -/
theorem laidOut_iff : b.LaidOut s ↔ b = ofSource s := by
  constructor
  · intro h
    have hbytes := h.bytes_eq
    have hlen := h.sourceLen
    rw [h.size_eq] at hbytes
    rw [ofSource_eq]
    cases b
    cases hbytes
    cases hlen
    rfl
  · rintro rfl
    exact laidOut_ofSource s

/-! ### Where the text is over -/

/-- Inside a buffer the end is seen behind the text, where there are only zeros, and not before,
where the offset is too small. No end is seen where there is no byte to look at. -/
theorem LaidOut.isEof_eq (h : b.LaidOut s) (i : Nat) :
    (⟨b, i⟩ : Cursor).isEof =
      if i < b.bytes.size then .ok (decide (s.text.utf8ByteSize ≤ i))
      else .error (.readPastPadding i) := by
  by_cases hi : i < b.bytes.size
  · have hbyte : (⟨b, i⟩ : Cursor).current = .ok b.bytes[i] := dif_pos hi
    rw [if_pos hi, Cursor.isEof, hbyte, Cursor.sourceLen, h.sourceLen]
    show Except.ok _ = Except.ok _
    congr 1
    -- before the end the byte may be zero too; there the offset decides
    by_cases hend : s.text.utf8ByteSize ≤ i
    · simp [h.zero i hi hend, hend, Byte.nul]
    · simp [hend]
  · have hbyte : (⟨b, i⟩ : Cursor).current = .error (.readPastPadding i) := dif_neg hi
    rw [if_neg hi, Cursor.isEof, hbyte]
    rfl

/-- From the start of the text a cursor can be moved to where `cursorAt` puts it. -/
theorem advance_cursor (s : Source) (k : Nat) :
    (ofSource s).cursor.advance (min k s.text.utf8ByteSize) = .ok ((ofSource s).cursorAt k) := by
  have hfits : min k s.text.utf8ByteSize < offsetLimit :=
    Nat.lt_of_le_of_lt (Nat.min_le_right ..) s.size_lt
  rw [Cursor.advance_eq_ok_iff, cursor, cursorAt, sourceLen_ofSource, Nat.zero_add]
  exact ⟨hfits, rfl⟩

end Buffer

/-- **The buffer of a source** with `n` bytes is laid out for it, and no other buffer is. Words of
more than 32 bits get its size by a mask. Whatever bytes the text has, the end is seen at just those
offsets of the buffer that are not below `n`. A cursor is put at the offset asked for, or at `n` if
that is less, and this is a move from the start that fits. -/
theorem Source.buffer_laidOut (s : Source) :
    let n := s.text.utf8ByteSize
    let b := Buffer.ofSource s
    b.LaidOut s ∧ (∀ b' : Buffer, b'.LaidOut s → b' = b) ∧
      (∀ w, 32 < w → (Buffer.maskedSize (BitVec.ofNat w n)).toNat = b.bytes.size) ∧
      (∀ i, (⟨b, i⟩ : Cursor).isEof =
        if i < b.bytes.size then .ok (decide (n ≤ i)) else .error (.readPastPadding i)) ∧
      ∀ k, (b.cursorAt k).offset = min k n ∧ b.cursor.advance (min k n) = .ok (b.cursorAt k) := by
  intro n b
  have hlaid : b.LaidOut s := Buffer.laidOut_ofSource s
  refine ⟨hlaid, fun _ => Buffer.laidOut_iff.mp, ?_, hlaid.isEof_eq, ?_⟩
  · intro w hw
    -- offsets have 32 bits, and one more holds the sum
    have hn : n < 2 ^ 32 := s.size_lt
    have hwide : 2 ^ 33 ≤ 2 ^ w := Nat.pow_le_pow_right (by decide) hw
    rw [hlaid.size_eq]
    apply Buffer.toNat_maskedSize
    unfold Buffer.alignment
    omega
  · intro k
    exact ⟨Buffer.offset_cursorAt s k, Buffer.advance_cursor s k⟩

/-- A text of zeros that leaves room for the sentinel alone: all bytes are zero, and the end is seen
at the last of them only. -/
theorem Source.buffer_laidOut_zeros :
    let s : Source := ⟨String.ofList (List.replicate 63 '\x00'), by decide +kernel⟩
    let b : Buffer := ⟨Buffer.zeros 64, 63⟩
    b.LaidOut s ∧ b = Buffer.ofSource s ∧ (Buffer.maskedSize 63#64).toNat = 64 ∧
      (⟨b, 62⟩ : Cursor).isEof = .ok false ∧ (⟨b, 63⟩ : Cursor).isEof = .ok true ∧
      (⟨b, 64⟩ : Cursor).isEof = .error (.readPastPadding 64) ∧ (b.cursorAt 64).offset = 63 := by
  intro s b
  have hlen : s.text.utf8ByteSize = 63 := by decide +kernel
  have hlaid : b.LaidOut s := by
    refine ⟨hlen.symm, by decide +kernel, fun i hi _ => Buffer.getElem_zeros hi, ?_⟩
    rw [hlen, Buffer.size_zeros]
    exact Buffer.isLeast_paddedSize 63
  obtain ⟨-, hunique, hmask, heof, hat⟩ := Source.buffer_laidOut s
  have hb := hunique b hlaid
  rw [← hb, hlen] at hmask heof
  refine ⟨hlaid, hb, hmask 64 (by decide), heof 62, heof 63, heof 64, ?_⟩
  rw [hb, (hat 64).1, hlen]
  rfl

end Lexico
