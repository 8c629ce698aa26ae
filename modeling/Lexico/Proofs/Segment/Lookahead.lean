import Lexico.Proofs.Segment.Follow
import Lexico.Proofs.Segment.Segmented

/-!
# How far a cut looks ahead

What stands behind a piece is looked at for two characters at most: a number looks at a point and
the character after it, an open literal at a carriage return and the character after that. A piece
with two characters behind it is therefore cut in the same way when the text goes on, and so is
every piece with two pieces behind it. Text put behind a source changes no segment but the last two.
-/

namespace Lexico

namespace Piece

/-- Two characters stop as they did when text comes behind them. -/
theorem stops_append {r : List Char} (hr : 2 ≤ r.length) (v : List Char) : Stops r (r ++ v) := by
  obtain ⟨c, d, r, rfl⟩ : ∃ c d r', r = c :: d :: r' := by
    match r, hr with
    | c :: d :: r, _ => exact ⟨c, d, r, rfl⟩
  refine ⟨?_, ?_, id, ?_⟩
  · intro x hx
    exact .inl hx
  · rw [fraction_eq_nil_iff, fraction_eq_nil_iff]
    intro hnone x w htext
    cases htext
    exact hnone _ _ rfl
  · rintro (hnil | hhead)
    · cases hnil
    · exact .inr hhead

/-- **A piece looks ahead for two characters at most**: text behind these makes no difference. -/
theorem Follow.append {t : Tag} {w r : List Char} (h : Follow t w r) (hr : 2 ≤ r.length)
    (v : List Char) : Follow t w (r ++ v) := by
  have hne : r ≠ [] := by
    rintro rfl
    cases hr
  have hhead : (r ++ v).head? = r.head? := by
    obtain ⟨c, r, rfl⟩ := List.exists_cons_of_ne_nil hne
    rfl
  cases ht : t.isTrivia with
  | false =>
    apply h.imp (stops_append hr v) ht
    · rintro rfl
      exact absurd h hne
    · intro hfeed
      exact .inl (hhead ▸ hfeed)
  | true =>
    cases t with
    | whitespace =>
      simp only [Follow] at h ⊢
      split at h
      · rwa [if_pos ‹_›, hhead]
      · rw [if_neg ‹_›]
        intro c hc
        exact h c (hhead ▸ hc)
    | newline => trivial
    | _ => cases ht

end Piece

namespace Segmented

variable {cs v : List Char} {ps qs : List Piece}

/-- There are at least as many characters as pieces. -/
theorem length_le (h : Segmented cs ps) : ps.length ≤ cs.length := by
  induction h with
  | nil => exact Nat.le_refl _
  | cons hcuts _ ih =>
    have hpos := List.length_pos_iff.mpr hcuts.1.ne_nil
    rw [List.length_cons, List.length_append]
    omega

/-- **All pieces but the last two** stay as they are when text comes behind them. -/
theorem getElem?_append (h : Segmented cs ps) (h' : Segmented (cs ++ v) qs) {i : Nat}
    (hi : i + 2 < ps.length) : qs[i]? = ps[i]? := by
  induction h generalizing qs i with
  | nil => cases hi
  | @cons t w r ps hcuts hps ih =>
    -- The first piece has two more behind it, and they are not empty.
    have htwo : 2 ≤ r.length := by
      have := hps.length_le
      rw [List.length_cons] at hi
      omega
    have hcuts' : Piece.Cuts t w (r ++ v) := ⟨hcuts.1, hcuts.2.append htwo v⟩
    obtain ⟨qs', hqs'⟩ := exists_segmented (r ++ v)
    rw [List.append_assoc] at h'
    obtain rfl := h'.unique (.cons hcuts' hqs')
    cases i with
    | zero => rfl
    | succ i => exact ih hqs' (by rw [List.length_cons] at hi; omega)

end Segmented

/-- **Text behind a source** changes no segment of it but the last two. -/
theorem Source.segments_append {s st : Source} {t : String} (h : st.text = s.text ++ t) :
    ∃ xs ys, s.segments = .ok xs ∧ st.segments = .ok ys ∧
      ∀ i, i + 2 < xs.length → ys[i]? = xs[i]? := by
  obtain ⟨ps, hps⟩ := exists_segmented s.text.toList
  obtain ⟨qs, hqs⟩ := exists_segmented st.text.toList
  refine ⟨_, _, segments_of_segmented hps, segments_of_segmented hqs, ?_⟩
  intro i hi
  rw [h, String.toList_append] at hqs
  rw [List.length_map] at hi
  rw [List.getElem?_map, List.getElem?_map, hps.getElem?_append hqs hi]

/-- A number and a point behind it become one segment with a digit behind them; the open literal in
the line before stays. -/
theorem segments_append_digit :
    let s : Source := ⟨"\"b\r\n1.", by decide⟩
    let st : Source := ⟨"\"b\r\n1.5", by decide⟩
    st.text = s.text ++ "5" ∧ ∃ xs ys, s.segments = .ok xs ∧ st.segments = .ok ys ∧
      ∀ i, i + 2 < xs.length → ys[i]? = xs[i]? := by
  intro s st
  have h : st.text = s.text ++ "5" := by decide
  exact ⟨h, Source.segments_append h⟩

example :
    (Source.segments ⟨"1.", by decide⟩).toOption = some [⟨.int, 1⟩, ⟨.unrecognizedChar, 1⟩] ∧
      (Source.segments ⟨"1.5", by decide⟩).toOption = some [⟨.decimal, 3⟩] := by
  decide +kernel

end Lexico
