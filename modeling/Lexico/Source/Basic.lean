/-!
# Sources

A **source** is the text of one analysis. Everything downstream addresses it by byte offsets of
32 bits, so the bound belongs to the type: a source has fewer than `2 ^ 32` bytes, and each offset
into it, its end included, fits. Of a longer text only the first bytes are kept, up to the last
offset. That may cut it inside a character; if not, what is kept of it is a source again
(`exists_of_isValidUTF8_kept`).
-/

namespace Lexico

/-- The number of byte offsets: offsets have 32 bits. -/
def offsetLimit : Nat := UInt32.size

theorem offsetLimit_pos : 0 < offsetLimit := by decide

/-- A text short enough for every offset into it to stay below `offsetLimit`. -/
structure Source where
  text : String
  size_lt : text.utf8ByteSize < offsetLimit

namespace Source

/-- The bytes of a text that are kept: the last offset is that of their end. -/
def kept (text : String) : ByteArray := text.toUTF8.extract 0 (offsetLimit - 1)

theorem size_kept (text : String) : (kept text).size = min text.utf8ByteSize (offsetLimit - 1) := by
  rw [kept, ByteArray.size_extract, Nat.min_comm, Nat.sub_zero]
  rfl

theorem size_kept_lt (text : String) : (kept text).size < offsetLimit := by
  have hpos := offsetLimit_pos
  rw [size_kept]
  omega

/-- A source is kept whole. -/
theorem kept_text (s : Source) : kept s.text = s.text.toUTF8 := by
  have hsize : s.text.toUTF8.size ≤ offsetLimit - 1 := Nat.le_sub_one_of_lt s.size_lt
  rw [kept, ← Nat.max_eq_left hsize, ByteArray.extract_zero_max_size]

/-- What is kept of a text that is not cut inside a character is a source. -/
theorem exists_of_isValidUTF8_kept {text : String} (h : (kept text).IsValidUTF8) :
    ∃ s : Source, s.text.toUTF8 = kept text :=
  ⟨⟨⟨kept text, h⟩, size_kept_lt text⟩, rfl⟩

end Source
end Lexico
