import Lexico.Proofs.Segment.Munch
import Mathlib.Algebra.Ring.Parity
import Mathlib.Data.List.Induction
import Mathlib.Order.Bounds.Basic

/-!
# Where string literals end

The bytes of a text tell where the string literal ends that starts at a quote: at the first quote on
the line with an even number of backslashes right in front of it. Nothing else in the literal
counts, be it a carriage return, a zero byte or a character of several bytes, escaped or not. Where
there is no such quote, the literal is open and ends with the line.
-/

namespace Lexico

open Piece (Inside escapes escapedAfter lineEnds Cuts)
open Munch (FillsLine exists_fillsLine)

/-- Text behind a quote starts one byte farther on. -/
theorem byteLength_quote (u w : List Char) :
    byteLength (u ++ '"' :: w) = byteLength u + 1 + byteLength w := by
  rw [byteLength_append, byteLength_cons, Nat.add_assoc]
  rfl

namespace Literal

/-! ### Ends of lines -/

/-- The line ends at byte `i`, or the text does. -/
def EndsLine (bs : List UInt8) (i : Nat) : Prop :=
  bs[i]? = some Byte.lineFeed ∨
  bs[i]? = some Byte.carriageReturn ∧ bs[i + 1]? = some Byte.lineFeed ∨
  i = bs.length

instance (bs : List UInt8) (i : Nat) : Decidable (EndsLine bs i) :=
  inferInstanceAs (Decidable (_ ∨ _ ∧ _ ∨ _))

/-- Lines end at the same places whether told by bytes or by characters. -/
theorem endsLine_iff {cs : List Char} {i : Nat} :
    EndsLine (encode cs) i ↔ ∃ u r, cs = u ++ r ∧ byteLength u = i ∧ lineEnds r = true := by
  constructor
  · rintro (hfeed | ⟨hreturn, hfeed⟩ | rfl)
    · obtain ⟨u, r, rfl, rfl⟩ := (getElem?_encode_iff (a := '\n') rfl).mp hfeed
      exact ⟨u, _, rfl, rfl, rfl⟩
    · obtain ⟨u, r, rfl, rfl⟩ := (getElem?_encode_iff (a := '\r') rfl).mp hreturn
      obtain ⟨v, r', htext, hv⟩ := (getElem?_encode_iff (a := '\n') rfl).mp hfeed
      obtain ⟨w, rfl, rfl⟩ := exists_append_of_byteLength_lt rfl htext (by omega)
      -- The line feed is right behind the carriage return.
      have hw : byteLength w = 0 := by
        rw [byteLength_append, byteLength_cons, show '\r'.utf8Size = 1 from rfl] at hv
        omega
      obtain rfl := byteLength_eq_zero_iff.mp hw
      exact ⟨u, _, rfl, rfl, rfl⟩
    · exact ⟨cs, [], (List.append_nil cs).symm, (length_encode cs).symm, rfl⟩
  · rintro ⟨u, r, rfl, rfl, hends⟩
    cases r with
    | nil => exact .inr (.inr (by simp))
    | cons c r =>
      simp only [lineEnds, Bool.or_eq_true, Bool.and_eq_true, beq_iff_eq] at hends
      rcases hends with rfl | ⟨rfl, hhead⟩
      · exact .inl ((getElem?_encode_iff (a := '\n') rfl).mpr ⟨u, r, rfl, rfl⟩)
      · obtain ⟨r, rfl⟩ := List.head?_eq_some_iff.mp hhead
        refine .inr (.inl ⟨(getElem?_encode_iff (a := '\r') rfl).mpr ⟨u, _, rfl, rfl⟩, ?_⟩)
        refine (getElem?_encode_iff (a := '\n') rfl).mpr ⟨u ++ ['\r'], r, by simp, ?_⟩
        rw [byteLength_append]
        rfl

/-- The line that starts behind a quote ends where it is filled. -/
theorem isLeast_endsLine {w r : List Char} (h : FillsLine w r) (u : List Char) :
    IsLeast {i | byteLength u < i ∧ EndsLine (encode (u ++ '"' :: (w ++ r))) i}
      (byteLength (u ++ '"' :: w)) := by
  refine ⟨⟨?_, endsLine_iff.mpr ⟨_, r, by simp, rfl, h.1⟩⟩, ?_⟩
  · rw [byteLength_quote]
    omega
  · rintro _ ⟨hlt, hends⟩
    obtain ⟨v, r', htext, rfl, hr'⟩ := endsLine_iff.mp hends
    obtain ⟨x, rfl, hx⟩ := exists_append_of_byteLength_lt rfl htext hlt
    apply Nat.le_of_not_lt
    intro hless
    rw [byteLength_quote, byteLength_quote] at hless
    obtain ⟨y, rfl, rfl⟩ := exists_append_of_byteLength_le hx.symm (by omega)
    -- The line would end before it is filled.
    rw [h.2 x y rfl ?_] at hr'
    · cases hr'
    · rintro rfl
      simp at hless

/-! ### Closing quotes -/

/-- The number of backslashes in a row right in front of byte `k`, as far as they are behind
byte `q`. -/
def backslashes (bs : List UInt8) (q k : Nat) : Nat :=
  (((bs.take k).drop (q + 1)).reverse.takeWhile (· == Byte.backslash)).length

/-- Byte `k` is a quote behind byte `q` that no backslash escapes. -/
def Closes (bs : List UInt8) (q k : Nat) : Prop :=
  q < k ∧ bs[k]? = some Byte.quote ∧ Even (backslashes bs q k)

instance (bs : List UInt8) (q k : Nat) : Decidable (Closes bs q k) :=
  inferInstanceAs (Decidable (_ ∧ _ ∧ _))

/-- A literal goes on with an escaped character just when an odd number of backslashes stands
last. -/
theorem escapedAfter_iff (w : List Char) : escapedAfter false w = true ↔
    Odd ((encode w).reverse.takeWhile (· == Byte.backslash)).length := by
  induction w using List.reverseRecOn with
  | nil => simp [escapedAfter]
  | append_singleton w c ih =>
    have hsnoc : escapedAfter false (w ++ [c]) = escapes (escapedAfter false w) c :=
      List.foldl_append
    have hbytes : (encode (w ++ [c])).reverse =
        (String.utf8EncodeChar c).reverse ++ (encode w).reverse := by
      simp
    rw [hsnoc, hbytes]
    by_cases hc : c = '\\'
    · subst hc
      have hrun : ((String.utf8EncodeChar '\\').reverse ++ (encode w).reverse).takeWhile
          (· == Byte.backslash) =
          Byte.backslash :: (encode w).reverse.takeWhile (· == Byte.backslash) := rfl
      rw [hrun, List.length_cons, Nat.odd_add_one, ← ih]
      simp [escapes]
    · -- The last byte of any other character is no backslash.
      have hnone : ∀ b ∈ (String.utf8EncodeChar c).reverse, (b == Byte.backslash) = false := by
        intro b hb
        exact (Byte.Class.only (a := '\\') rfl).of_mem (c := c) (by simpa using hc) b
          (List.mem_reverse.mp hb)
      have hne : (String.utf8EncodeChar c).reverse ≠ [] := by
        rw [Ne, ← List.length_eq_zero_iff, List.length_reverse, String.length_utf8EncodeChar]
        exact Nat.ne_of_gt c.utf8Size_pos
      obtain ⟨b, bs, hb⟩ := List.exists_cons_of_ne_nil hne
      rw [hb, List.cons_append,
        List.takeWhile_cons_of_neg (by simpa using hnone b (hb ▸ List.mem_cons_self))]
      simp [escapes, hc]

/-- Backslashes are counted in the text between the two bytes. -/
theorem backslashes_eq (u v r : List Char) :
    backslashes (encode (u ++ '"' :: (v ++ r))) (byteLength u) (byteLength (u ++ '"' :: v)) =
      ((encode v).reverse.takeWhile (· == Byte.backslash)).length := by
  have htake : (encode (u ++ '"' :: (v ++ r))).take (byteLength (u ++ '"' :: v)) =
      encode (u ++ '"' :: v) := by
    rw [← List.cons_append, ← List.append_assoc, encode_append _ r, ← length_encode,
      List.take_left]
  have hdrop : (encode (u ++ '"' :: v)).drop (byteLength u + 1) = encode v := by
    have hlen : byteLength u + 1 = (encode (u ++ ['"'])).length := by
      rw [length_encode, byteLength_append]
      rfl
    rw [hlen, List.append_cons u _ v, encode_append _ v, List.drop_left]
  rw [backslashes, htake, hdrop]

/-- A quote closes a literal just when the text of the literal does not escape it. -/
theorem closes_iff {u cs : List Char} {k : Nat} :
    Closes (encode (u ++ '"' :: cs)) (byteLength u) k ↔ ∃ v r, cs = v ++ '"' :: r ∧
      byteLength (u ++ '"' :: v) = k ∧ escapedAfter false v = false := by
  have hparity (v r : List Char) :
      Even (backslashes (encode (u ++ '"' :: (v ++ r))) (byteLength u)
        (byteLength (u ++ '"' :: v))) ↔ escapedAfter false v = false := by
    rw [backslashes_eq, ← Nat.not_odd_iff_even, ← escapedAfter_iff, Bool.not_eq_true]
  constructor
  · rintro ⟨hlt, hquote, heven⟩
    obtain ⟨v, r, htext, rfl⟩ := (getElem?_encode_iff (a := '"') rfl).mp hquote
    obtain ⟨v, rfl, rfl⟩ := exists_append_of_byteLength_lt rfl htext hlt
    exact ⟨v, r, rfl, rfl, (hparity v _).mp heven⟩
  · rintro ⟨v, r, rfl, rfl, hend⟩
    refine ⟨?_, (getElem?_encode_iff (a := '"') rfl).mpr ⟨_, r, by simp, rfl⟩,
      (hparity v _).mpr hend⟩
    rw [byteLength_quote]
    omega

/-- Inside a literal every quote is escaped. -/
theorem escapedAfter_of_inside {escaped : Bool} {v w : List Char}
    (h : Inside escaped (v ++ '"' :: w)) : escapedAfter escaped v = true := by
  induction v generalizing escaped with
  | nil => exact h.2.1 rfl
  | cons c v ih => exact ih h.2.2

/-- Inside a literal nothing closes it. -/
theorem le_of_closes {u w r : List Char} (hw : Inside false w) {k : Nat}
    (hk : Closes (encode (u ++ '"' :: (w ++ r))) (byteLength u) k) :
    byteLength (u ++ '"' :: w) ≤ k := by
  obtain ⟨v, r', hsplit, rfl, hend⟩ := closes_iff.mp hk
  apply Nat.le_of_not_lt
  intro hlt
  rw [byteLength_quote, byteLength_quote] at hlt
  obtain ⟨x, rfl, hx⟩ := exists_append_of_byteLength_le hsplit.symm (by omega)
  cases x with
  | nil => simp at hlt
  | cons c x =>
    obtain rfl : '"' = c := (List.cons.inj hx).1
    rw [escapedAfter_of_inside hw] at hend
    cases hend

/-- A literal is closed before its line ends. -/
theorem byteLength_lt_of_fillsLine {v w r r' : List Char} (hv : Inside false v)
    (hfill : FillsLine w r') (h : v ++ '"' :: r = w ++ r') : byteLength v < byteLength w := by
  apply Nat.lt_of_not_le
  intro hle
  obtain ⟨x, rfl, rfl⟩ := exists_append_of_byteLength_le h.symm hle
  have hfeed : '\n' ∉ (w ++ x) ++ ['"'] := by
    rw [List.mem_append, not_or]
    exact ⟨hv.lineFeed_not_mem, by decide⟩
  have hopen : lineEnds (x ++ ['"'] ++ r) = false :=
    Munch.lineEnds_of_not_mem hfeed (by simp) w _ (List.append_assoc ..) (by simp)
  rw [← List.append_cons, hfill.1] at hopen
  cases hopen

end Literal

/-! ### Literals -/

/-- What is cut at an offset between characters, in offsets. -/
theorem Cursor.nextSegment_cursorAt {s : Source} {t : Tag} {u w r : List Char}
    (h : s.text.toList = u ++ (w ++ r)) (hcuts : Cuts t w r) :
    ((Buffer.ofSource s).cursorAt (byteLength u)).nextSegment =
      .ok (⟨t, byteLength (u ++ w) - byteLength u⟩, ⟨.ofSource s, byteLength (u ++ w)⟩) := by
  rw [cursorAt_after h, nextSegment_of_cuts h hcuts, byteLength_append, Nat.add_sub_cancel_left,
    Source.after, byteLength_append, Piece.segment]

open Literal in
/-- **A string literal** ends with the first quote that is escaped by no backslash, if there is one
on the line of the quote that it starts with; otherwise it is open, and ends with the line. -/
theorem Source.nextSegment_quote {s : Source} {q : Nat}
    (hq : (encode s.text.toList)[q]? = some Byte.quote) :
    let bs := encode s.text.toList
    let c := (Buffer.ofSource s).cursorAt q
    ∃ e, IsLeast {i | q < i ∧ EndsLine bs i} e ∧
      ((∃ k, IsLeast {k | Closes bs q k ∧ k < e} k ∧
        c.nextSegment = .ok (⟨.string, k + 1 - q⟩, ⟨.ofSource s, k + 1⟩)) ∨
      (∀ k < e, ¬ Closes bs q k) ∧
        c.nextSegment = .ok (⟨.unterminatedString, e - q⟩, ⟨.ofSource s, e⟩)) := by
  intro bs c
  obtain ⟨u, cs, htext, rfl⟩ := (getElem?_encode_iff (a := '"') rfl).mp hq
  have hbs : bs = encode (u ++ '"' :: cs) := congrArg encode htext
  rw [hbs]
  rcases Piece.literalRest_spec false cs with
    ⟨w, r, rfl, -, hw, hend⟩ | ⟨w, r, rfl, -, hw, hr, hlast⟩
  · obtain ⟨v, r', hline, hfill⟩ := exists_fillsLine (w ++ '"' :: r)
    have hlt : byteLength (u ++ '"' :: w) < byteLength (u ++ '"' :: v) := by
      rw [byteLength_quote, byteLength_quote]
      exact Nat.add_lt_add_left (byteLength_lt_of_fillsLine hw hfill hline) _
    have hcuts : Cuts .string ('"' :: w ++ ['"']) r := ⟨.literal hw hend, trivial⟩
    have hnext := Cursor.nextSegment_cursorAt (s := s) (u := u) (by simp [htext]) hcuts
    have hstop : byteLength (u ++ ('"' :: w ++ ['"'])) = byteLength (u ++ '"' :: w) + 1 := by
      rw [← List.append_assoc, byteLength_append]
      rfl
    rw [hstop] at hnext
    refine ⟨_, hline ▸ isLeast_endsLine hfill u, .inl ⟨_, ⟨⟨?_, hlt⟩, ?_⟩, hnext⟩⟩
    · exact closes_iff.mpr ⟨w, r, rfl, rfl, hend⟩
    · rintro k ⟨hk, -⟩
      exact le_of_closes hw hk
  · have hfill : FillsLine w r := ⟨hr, Munch.lineEnds_of_not_mem hw.lineFeed_not_mem hlast⟩
    have hcuts := Piece.cuts_openLiteral hw hr hlast
    refine ⟨_, isLeast_endsLine hfill u, .inr ⟨?_, Cursor.nextSegment_cursorAt htext hcuts⟩⟩
    intro k hk hcloses
    exact absurd (le_of_closes hw hcloses) (Nat.not_le_of_lt hk)

open Literal in
/-- Neither an escaped character of two bytes nor a lone carriage return nor a zero byte ends the
literal, and of its two quotes the one behind a pair of backslashes closes it. -/
theorem Source.nextSegment_quote_escapes :
    let s : Source := ⟨"x\"é\\é\r\x00\\\"\\\\\"y\r\n", by decide⟩
    let bs := encode s.text.toList
    bs[1]? = some Byte.quote ∧ IsLeast {i | 1 < i ∧ EndsLine bs i} 15 ∧
      IsLeast {k | Closes bs 1 k ∧ k < 15} 13 ∧
      ((Buffer.ofSource s).cursorAt 1).nextSegment = .ok (⟨.string, 13⟩, ⟨.ofSource s, 14⟩) := by
  intro s bs
  have hq : bs[1]? = some Byte.quote := by decide +kernel
  have hends : IsLeast {i | 1 < i ∧ EndsLine bs i} 15 := by
    have hless : ∀ i < 15, ¬ (1 < i ∧ EndsLine bs i) := by decide +kernel
    refine ⟨⟨by decide, by decide +kernel⟩, ?_⟩
    intro i hi
    exact Nat.le_of_not_lt fun hlt => hless i hlt hi
  have hcloses : Closes bs 1 13 := by decide +kernel
  have hless : ∀ k < 13, ¬ Closes bs 1 k := by decide +kernel
  obtain ⟨e, he, ⟨k, hk, hnext⟩ | ⟨hnone, -⟩⟩ := Source.nextSegment_quote hq
  · obtain rfl : e = 15 := he.unique hends
    have hk13 : k ≤ 13 := hk.2 ⟨hcloses, by decide⟩
    obtain rfl : k = 13 := Nat.le_antisymm hk13 (Nat.le_of_not_lt fun hlt => hless k hlt hk.1.1)
    exact ⟨hq, hends, hk, hnext⟩
  · obtain rfl : e = 15 := he.unique hends
    exact absurd hcloses (hnone 13 (by decide))

end Lexico
