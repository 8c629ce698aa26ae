import Lexico.Proofs.Analysis.Diagnostics

/-!
# Exact positions

Lines and columns are numbers of 32 bits that stop at the largest one, but a source is so short that
none does before its last character. So the position of every token and of every error is the line
and the column of its place, counted without a bound, and from one token to the next positions go
down the text.
-/

namespace Lexico

/-- Behind the text `u`, the tokens in the text `r`, each with all the text before it: a gap stands
before each one and behind the last one, and no token starts with a separator. -/
inductive Places : List Char → List Char → List (Token × List Char) → Prop
  | done {u g} : Gap g → Places u g []
  | next {u g r xs} {t : Token} : Gap g →
      (∃ c w, t.lexeme.toList = c :: w ∧ Text.isSeparator c = false) →
      Places (u ++ g ++ t.lexeme.toList) r xs →
      Places u (g ++ (t.lexeme.toList ++ r)) ((t, u ++ g) :: xs)

/-- The token of an occurrence, with the text before it. -/
def Occurrence.place (o : Occurrence) : Token × List Char := (o.token, o.before)

/-- Occurrences tell the places of their tokens. -/
theorem Reads.places {u r : List Char} {xs : List Occurrence} (h : Reads u r xs) :
    Places u r (xs.map Occurrence.place) := by
  induction h with
  | done hg => exact .done hg
  | @next u g t w r xs hg hcuts ht _ ih =>
    let o : Occurrence := ⟨t, w, u ++ g⟩
    have hlexeme : o.token.lexeme.toList = w := String.toList_ofList
    obtain ⟨c, v, hw, hc⟩ := hcuts.1.head ht
    have hrest : Places (u ++ g ++ o.token.lexeme.toList) r (xs.map Occurrence.place) := by
      rw [hlexeme]
      exact ih
    have hall := Places.next hg ⟨c, v, hlexeme.trans hw, hc⟩ hrest
    rwa [hlexeme] at hall

/-- Text that is followed by more of the source is short enough for exact positions. -/
theorem Source.length_lt_of_toList {s : Source} {u w r : List Char} (hw : w ≠ [])
    (h : s.text.toList = u ++ (w ++ r)) : u.length + 1 < UInt32.size := by
  have hfit : byteLength u + byteLength (w ++ r) < UInt32.size := lt_offsetLimit_of_toList h
  have hu := length_le_byteLength u
  have hpos := List.length_pos_iff.mpr hw
  have hle := length_le_byteLength w
  rw [byteLength_append] at hfit
  omega

namespace Reads

variable {s : Source} {u r : List Char} {xs : List Occurrence}

/-- The position of every occurrence is exact. -/
theorem counts (h : Reads u r xs) (htext : s.text.toList = u ++ r) :
    ∀ o ∈ xs, o.position.Counts o.before := by
  intro o ho
  obtain ⟨r', hsplit, hcuts, -⟩ := h.cuts_of_mem ho
  exact Position.counts_after (Source.length_lt_of_toList hcuts.1.ne_nil (htext.trans hsplit))

/-- All text in front of the first occurrence is in front of the others. -/
theorem isPrefix_before (h : Reads u r xs) : ∀ o ∈ xs, u <+: o.before := by
  induction h with
  | done => exact nofun
  | @next u g t w r xs _ _ _ _ ih =>
    have hfront : u <+: u ++ g := List.prefix_append u g
    rw [List.forall_mem_cons]
    exact ⟨hfront, fun o ho => (hfront.trans (List.prefix_append _ w)).trans (ih o ho)⟩

/-- From one occurrence to the next, positions go down the text. -/
theorem pairwise_position (h : Reads u r xs) (htext : s.text.toList = u ++ r) :
    xs.Pairwise fun o o' => compare o.position o'.position = .lt := by
  induction h with
  | done => exact .nil
  | @next u g t w r xs hg hcuts ht hxs ih =>
    have hrest : s.text.toList = u ++ g ++ w ++ r := by
      rw [htext]
      simp only [List.append_assoc]
    refine .cons ?_ (ih hrest)
    intro o' ho'
    -- The later occurrence has the text of this one in front.
    obtain ⟨v, hbefore⟩ := hxs.isPrefix_before o' ho'
    obtain ⟨r', hsplit, hcuts', -⟩ := hxs.cuts_of_mem ho'
    have hfit := Source.length_lt_of_toList hcuts'.1.ne_nil (hrest.trans hsplit)
    have hne : w ++ v ≠ [] := fun hnil => hcuts.1.ne_nil (List.append_eq_nil_iff.mp hnil).1
    rw [← hbefore, List.append_assoc (u ++ g)] at hfit
    have hlt := Position.compare_after_append hne hfit
    rwa [← List.append_assoc (u ++ g), hbefore] at hlt

end Reads

/-- **Positions are exact and increase.** -/
theorem analyze_positions (s : Source) :
    ∃ a places, s.analyze = .ok a ∧ Places [] s.text.toList places ∧
      places.map Prod.fst = a.tokens ∧ (∀ x ∈ places, x.1.position.Counts x.2) ∧
      List.Forall₂ (fun e x => e.position = x.1.position ∧ e.position.Counts x.2) a.errors
        (places.filter fun x => x.1.isError) ∧
      a.tokens.Pairwise fun t t' => compare t.position t'.position = .lt := by
  obtain ⟨xs, hxs⟩ := exists_reads [] s.text.toList
  refine ⟨_, xs.map Occurrence.place, Source.analyze_of_reads hxs, hxs.places, ?_, ?_, ?_, ?_⟩
  · rw [List.map_map]
    rfl
  · rw [List.forall_mem_map]
    exact hxs.counts rfl
  · rw [List.filter_map, List.forall₂_map_right_iff]
    apply hxs.forall₂_occurrence
    intro o ho e herr
    rw [Occurrence.position_error? herr]
    exact ⟨rfl, hxs.counts rfl o ho⟩
  · rw [List.pairwise_map]
    exact hxs.pairwise_position rfl

end Lexico
