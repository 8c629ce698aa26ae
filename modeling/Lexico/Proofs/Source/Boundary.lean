import Lexico.Proofs.Source.Cursor
import Mathlib.Order.Bounds.Defs

/-!
# Offsets between and inside characters

A byte offset into a text is a **boundary** when it is between two characters or at an end. From any
offset on, the bytes of a text are those that are left of a character that was torn apart, and then
whole characters (`exists_torn`). What is torn is told by the bytes alone (`Torn.unique`), and it
reaches up to the next boundary (`Source.isLeast_boundary`).
-/

namespace Lexico

/-! ### Torn characters -/

/-- Different characters have different bytes. -/
theorem encode_inj {cs ds : List Char} : encode cs = encode ds ↔ cs = ds := by
  constructor
  · intro h
    have hbytes : cs.utf8Encode = ds.utf8Encode := congrArg List.toByteArray h
    rw [← String.toByteArray_ofList, ← String.toByteArray_ofList, String.toByteArray_inj] at hbytes
    exact String.ofList_injective hbytes
  · exact congrArg encode

/-- A text starts with the first byte of a character. -/
theorem isUTF8FirstByte_of_head {cs : List Char} {b : UInt8} (h : (encode cs).head? = some b) :
    b.IsUTF8FirstByte := by
  cases cs with
  | nil => cases h
  | cons c cs =>
    obtain ⟨lead, bs, hc, -⟩ := Byte.utf8EncodeChar_eq_cons c
    have hlead : lead.IsUTF8FirstByte := by
      have hpos : 0 < (String.utf8EncodeChar c).length := by simp [hc]
      have hzero : (String.utf8EncodeChar c)[0].IsUTF8FirstByte :=
        UInt8.isUTF8FirstByte_getElem_utf8EncodeChar.mpr rfl
      simpa [hc] using hzero
    rw [encode_cons, hc] at h
    cases h
    exact hlead

/-- The bytes `bs` are the bytes `torn`, none of which starts a character, and those of the
characters `r`. -/
structure Torn (bs torn : List UInt8) (r : List Char) : Prop where
  eq : bs = torn ++ encode r
  inner : ∀ b ∈ torn, ¬ b.IsUTF8FirstByte

/-- Bytes are torn in one way: up to the first byte that starts a character. -/
theorem Torn.unique {bs torn torn' : List UInt8} {r r' : List Char} (h : Torn bs torn r)
    (h' : Torn bs torn' r') : torn = torn' ∧ r = r' := by
  have hcut {torn : List UInt8} {r : List Char} (h : Torn bs torn r) :
      bs.takeWhile (fun b => ¬ b.IsUTF8FirstByte) = torn ∧
        bs.dropWhile (fun b => ¬ b.IsUTF8FirstByte) = encode r := by
    have hinner : ∀ b ∈ torn, (decide ¬ b.IsUTF8FirstByte) = true := by
      intro b hb
      exact decide_eq_true (h.inner b hb)
    rw [h.eq, List.takeWhile_append_of_pos hinner, List.dropWhile_append_of_pos hinner]
    cases hr : encode r with
    | nil => simp
    | cons b bs =>
      have hhead : (encode r).head? = some b := by rw [hr, List.head?_cons]
      have hfirst := isUTF8FirstByte_of_head hhead
      rw [List.takeWhile_cons_of_neg (by simpa using hfirst),
        List.dropWhile_cons_of_neg (by simpa using hfirst)]
      exact ⟨List.append_nil _, rfl⟩
  refine ⟨(hcut h).1.symm.trans (hcut h').1, ?_⟩
  rw [← encode_inj, ← (hcut h).2, (hcut h').2]

/-- **From any offset on** a text is what is left of one character, and then whole characters. An
offset behind the text is as good as the end. -/
theorem exists_torn (cs : List Char) (n : Nat) :
    ∃ torn u r, cs = u ++ r ∧ byteLength u = min n (byteLength cs) + torn.length ∧
      Torn ((encode cs).drop n) torn r := by
  induction cs generalizing n with
  | nil => exact ⟨[], [], [], rfl, by simp, List.drop_nil, nofun⟩
  | cons c cs ih =>
    have hlen := String.length_utf8EncodeChar c
    by_cases hzero : n = 0
    · subst hzero
      exact ⟨[], [], c :: cs, rfl, by simp, rfl, nofun⟩
    by_cases hin : n ≤ c.utf8Size
    · -- The offset is inside the first character, or just behind it.
      refine ⟨(String.utf8EncodeChar c).drop n, [c], cs, rfl, ?_, ?_, ?_⟩
      · rw [byteLength_cons, byteLength_cons, byteLength_nil, List.length_drop, hlen]
        omega
      · rw [encode_cons, List.drop_append_of_le_length (hlen ▸ hin)]
      · intro b hb
        obtain ⟨i, hi, rfl⟩ := List.getElem_of_mem hb
        rw [List.getElem_drop, UInt8.isUTF8FirstByte_getElem_utf8EncodeChar]
        omega
    · obtain ⟨torn, u, r, rfl, hu, htorn⟩ := ih (n - c.utf8Size)
      refine ⟨torn, c :: u, r, rfl, ?_, ?_, htorn.inner⟩
      · rw [byteLength_cons, byteLength_cons]
        omega
      · rw [encode_cons, List.drop_append, hlen, List.drop_eq_nil_of_le (by omega), List.nil_append,
          htorn.eq]

/-- An offset behind the bytes leaves none of them, as the end does. -/
theorem drop_min_byteLength (cs : List Char) (n : Nat) :
    (encode cs).drop (min n (byteLength cs)) = (encode cs).drop n := by
  rcases Nat.le_total n (byteLength cs) with h | h
  · rw [Nat.min_eq_left h]
  · rw [Nat.min_eq_right h, ← length_encode, List.drop_length,
      List.drop_eq_nil_of_le (length_encode cs ▸ h)]

/-! ### Boundaries -/

variable {s : Source} {n : Nat}

/-- The byte offset is between two characters of the text, or at an end of it. -/
def Source.IsBoundary (s : Source) (n : Nat) : Prop := (⟨n⟩ : String.Pos.Raw).IsValid s.text

theorem Source.isBoundary_iff :
    s.IsBoundary n ↔ ∃ u r, s.text.toList = u ++ r ∧ byteLength u = n := by
  rw [IsBoundary, String.Pos.Raw.isValid_iff_exists_append]
  constructor
  · rintro ⟨u, r, htext, hn⟩
    refine ⟨u.toList, r.toList, ?_, ?_⟩
    · rw [htext, String.toList_append]
    · rw [← utf8ByteSize_eq]
      exact (congrArg String.Pos.Raw.byteIdx hn).symm
  · rintro ⟨u, r, htext, rfl⟩
    refine ⟨String.ofList u, String.ofList r, ?_, ?_⟩
    · rw [← String.ofList_append, ← htext, String.ofList_toList]
    · apply String.Pos.Raw.ext
      show byteLength u = (String.ofList u).utf8ByteSize
      rw [utf8ByteSize_eq, String.toList_ofList]

/-- What is torn reaches up to the next boundary. -/
theorem Source.isLeast_boundary {torn : List UInt8} {u r : List Char}
    (htext : s.text.toList = u ++ r) (hu : byteLength u = n + torn.length)
    (htorn : Torn ((encode s.text.toList).drop n) torn r) :
    IsLeast {m | n ≤ m ∧ s.IsBoundary m} (byteLength u) := by
  refine ⟨⟨?_, isBoundary_iff.mpr ⟨u, r, htext, rfl⟩⟩, ?_⟩
  · exact hu ▸ Nat.le_add_right _ _
  · rintro m ⟨hnm, hm⟩
    apply Nat.le_of_not_lt
    intro hlt
    -- At a boundary before it there would be a byte of what is torn.
    obtain ⟨v, w, hsplit, rfl⟩ := isBoundary_iff.mp hm
    have hin : byteLength v - n < torn.length := by omega
    have hbyte : (encode w).head? = some torn[byteLength v - n] := by
      have hdrop : encode w = (torn ++ encode r).drop (byteLength v - n) := by
        rw [← htorn.eq, List.drop_drop, Nat.add_sub_cancel' hnm, hsplit, encode_append,
          ← length_encode, List.drop_left]
      rw [hdrop, List.head?_drop, List.getElem?_append_left hin, List.getElem?_eq_getElem hin]
    exact htorn.inner _ (List.getElem_mem hin) (isUTF8FirstByte_of_head hbyte)

end Lexico
