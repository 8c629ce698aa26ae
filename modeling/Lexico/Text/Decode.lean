/-!
# The text of some bytes

Bytes that are no text are shown all the same: where no character starts, a replacement character
stands for the bytes that could start one, or for a single byte. Bytes that are a text show as that
text (`decode_toUTF8`).
-/

namespace Lexico.Text

/-- The byte continues a character. -/
def continues (byte : UInt8) : Bool := 0x80 ≤ byte && byte ≤ 0xbf

/-- The second byte may follow the first in a character of three or four bytes. -/
def joins (first second : UInt8) : Bool :=
  match first with
  | 0xe0 => 0xa0 ≤ second && second ≤ 0xbf
  | 0xed => 0x80 ≤ second && second ≤ 0x9f
  | 0xf0 => 0x90 ≤ second && second ≤ 0xbf
  | 0xf4 => 0x80 ≤ second && second ≤ 0x8f
  | _ => 0xe1 ≤ first && first ≤ 0xf3 && continues second

/-- The number of bytes for which one replacement character stands, where no character starts. -/
def brokenLength (bytes : ByteArray) (i : Nat) : Nat :=
  let first := bytes[i]?.getD 0
  let third := bytes[i + 2]?.getD 0
  if !joins first (bytes[i + 1]?.getD 0) then 1
  else if 0xf0 ≤ first && continues third then 3
  else 2

theorem brokenLength_pos (bytes : ByteArray) (i : Nat) : 0 < brokenLength bytes i := by
  grind [brokenLength]

/-- Goes on at an offset, behind a text. -/
def decodeFrom (bytes : ByteArray) (i : Nat) (text : String) : String :=
  if i < bytes.size then
    match bytes.utf8DecodeChar? i with
    | some c =>
      have := c.utf8Size_pos
      decodeFrom bytes (i + c.utf8Size) (text.push c)
    | none =>
      have := brokenLength_pos bytes i
      decodeFrom bytes (i + brokenLength bytes i) (text.push '\ufffd')
  else text
termination_by bytes.size - i

/-- The text of some bytes, with replacement characters for those that are no text. -/
def decode (bytes : ByteArray) : String := decodeFrom bytes 0 ""

/-! ### Texts are shown as they are -/

/-- A character is found behind other bytes. -/
theorem utf8DecodeChar?_append (u : ByteArray) (c : Char) (w : List Char) :
    (u ++ (c :: w).utf8Encode).utf8DecodeChar? u.size = some c := by
  rw [ByteArray.utf8DecodeChar?_eq_utf8DecodeChar?_extract, ByteArray.size_append,
    ByteArray.extract_append_eq_right rfl rfl, List.utf8Encode_cons, List.utf8Encode_singleton]
  exact ByteArray.utf8DecodeChar?_utf8EncodeChar_append

theorem decodeFrom_append (u : ByteArray) (w : List Char) (text : String) :
    decodeFrom (u ++ w.utf8Encode) u.size text = text ++ String.ofList w := by
  induction w generalizing u text with
  | nil =>
    rw [decodeFrom, if_neg (by simp)]
    simp
  | cons c w ih =>
    have hsize : u.size + c.utf8Size = (u ++ [c].utf8Encode).size := by
      rw [ByteArray.size_append, List.utf8Encode_singleton, List.size_toByteArray,
        String.length_utf8EncodeChar]
    have hbytes : u ++ (c :: w).utf8Encode = u ++ [c].utf8Encode ++ w.utf8Encode := by
      rw [List.utf8Encode_cons, ByteArray.append_assoc]
    have hlt : u.size < (u ++ (c :: w).utf8Encode).size := by
      rw [hbytes, ByteArray.size_append, ← hsize]
      have := c.utf8Size_pos
      omega
    rw [decodeFrom, if_pos hlt, utf8DecodeChar?_append]
    show decodeFrom _ (u.size + c.utf8Size) (text.push c) = _
    rw [hbytes, hsize, ih, ← String.toList_inj]
    simp

/-- **A text is shown as it is.** -/
theorem decode_toUTF8 (text : String) : decode text.toUTF8 = text := by
  have hdecode := decodeFrom_append .empty text.toList ""
  rw [String.utf8Encode_toList, ByteArray.empty_append, String.ofList_toList] at hdecode
  exact hdecode.trans String.empty_append

/-- The text of a character that is cut, of one that could not be, and of a byte that starts none. -/
example : decode ⟨#[0x61, 0xe2, 0x82, 0x62, 0xed, 0xa0, 0xf0, 0x9f, 0x98]⟩ =
    "a\ufffdb\ufffd\ufffd\ufffd" := by
  decide +kernel

end Lexico.Text
