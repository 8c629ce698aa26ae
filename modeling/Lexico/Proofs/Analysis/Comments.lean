import Lexico.Proofs.Scanner.Reading
import Lexico.Proofs.Segment.Follow
import Mathlib.Data.List.Forall2

/-!
# Comments are blanks

A comment separates tokens as blanks do. With a blank for each of its characters, and its line feeds
kept, every other token stays what it was and where it was, and so does every error.
-/

namespace Lexico

open Piece (Cuts Stops StopsBefore)

/-- The blank for a character of a comment: a line feed stays. -/
def Text.blank (c : Char) : Char := if c = '\n' then '\n' else ' '

/-- The text with blanks for the comments among its tokens. Each token is found behind the
separators that come next. -/
def blankComments : List Token → List Char → List Char
  | [], cs => cs
  | t :: ts, cs =>
    let gap := cs.takeWhile Text.isSeparator
    let rest := cs.dropWhile Text.isSeparator
    let lexeme := rest.take t.lexeme.length
    gap ++ (if t.kind.isComment then lexeme.map Text.blank else lexeme) ++
      blankComments ts (rest.drop t.lexeme.length)

/-! ### Blanks -/

/-- A character stays or becomes a blank. -/
def Text.Blanked (c d : Char) : Prop := d = c ∨ d = Text.blank c

theorem Text.isSeparator_blank (c : Char) : Text.isSeparator (Text.blank c) = true := by
  unfold Text.blank
  split <;> rfl

theorem Text.Blanked.eq_or_separator {c d : Char} (h : Text.Blanked c d) :
    d = c ∨ Text.isSeparator d = true := by
  rcases h with rfl | rfl
  · exact .inl rfl
  · exact .inr (Text.isSeparator_blank c)

theorem Text.Blanked.lineFeed_iff {c d : Char} (h : Text.Blanked c d) : c = '\n' ↔ d = '\n' := by
  rcases h with rfl | rfl
  · exact Iff.rfl
  · unfold Text.blank
    split
    · next hc => exact iff_of_true hc rfl
    · next hc => exact iff_of_false hc (by decide)

theorem Text.Blanked.size_le {c d : Char} (h : Text.Blanked c d) : d.utf8Size ≤ c.utf8Size := by
  have := c.utf8Size_pos
  rcases h with rfl | rfl
  · exact Nat.le_refl _
  · unfold Text.blank
    split <;> exact this

theorem blanked_refl (w : List Char) : List.Forall₂ Text.Blanked w w := by
  rw [List.forall₂_same]
  intro c _
  exact .inl rfl

theorem blanked_blank (w : List Char) : List.Forall₂ Text.Blanked w (w.map Text.blank) := by
  rw [List.forall₂_map_right_iff, List.forall₂_same]
  intro c _
  exact .inr rfl

/-- Blanks take no more bytes than what they stand for. -/
theorem byteLength_le_of_blanked {r r' : List Char} (h : List.Forall₂ Text.Blanked r r') :
    byteLength r' ≤ byteLength r := by
  induction h with
  | nil => exact Nat.le_refl _
  | cons hc _ ih =>
    rw [byteLength_cons, byteLength_cons]
    exact Nat.add_le_add hc.size_le ih

/-- The lines stay as they are. -/
theorem map_lineFeed_of_blanked {r r' : List Char} (h : List.Forall₂ Text.Blanked r r') :
    r'.map (· == '\n') = r.map (· == '\n') := by
  induction h with
  | nil => rfl
  | cons hc _ ih =>
    rw [List.map_cons, List.map_cons, ih, List.cons.injEq, Bool.eq_iff_iff, beq_iff_eq, beq_iff_eq]
    exact ⟨hc.lineFeed_iff.symm, rfl⟩

theorem head_lineFeed_of_blanked {r r' : List Char} (h : List.Forall₂ Text.Blanked r r')
    (hhead : r'.head? = some '\n') : r.head? = some '\n' := by
  cases h with
  | nil => cases hhead
  | cons hc _ =>
    cases hhead
    exact congrArg some (hc.lineFeed_iff.mpr rfl)

/-- Blanks stop what the characters they stand for stop, unless they take a carriage return from the
line feed behind it. -/
theorem Piece.stops_blanked {r r' : List Char} (h : List.Forall₂ Text.Blanked r r')
    (hreturn : r.head? = some '\r' → r'.head? = some '\r') : Stops r r' := by
  cases h with
  | nil => exact ⟨fun c h => .inl h, id, id, id⟩
  | @cons c d r r' hc hr =>
    refine ⟨?_, ?_, ?_, ?_⟩
    · intro x hx
      cases hx
      rcases hc.eq_or_separator with rfl | hsep
      · exact .inl rfl
      · exact .inr hsep
    · rw [fraction_eq_nil_iff, fraction_eq_nil_iff]
      intro hnone x v htext
      cases htext
      cases hr with
      | cons hx _ =>
        rcases hc.eq_or_separator with rfl | hsep
        · rcases hx.eq_or_separator with rfl | hsep
          · exact hnone _ _ rfl
          · exact isDigit_of_isSeparator _ hsep
        · cases hsep
    · intro hends
      simp only [Piece.lineEnds, Bool.or_eq_true, Bool.and_eq_true, beq_iff_eq] at hends ⊢
      rcases hends with hfeed | ⟨rfl, hhead⟩
      · exact .inl (hc.lineFeed_iff.mp hfeed)
      · have hd : d = '\r' := by simpa using hreturn rfl
        refine .inr ⟨hd, ?_⟩
        cases hr with
        | nil => cases hhead
        | cons hx _ =>
          cases hhead
          exact congrArg some (hx.lineFeed_iff.mp rfl)
    · rintro (hnil | hhead)
      · cases hnil
      · cases hhead
        exact .inr (congrArg some (hc.lineFeed_iff.mp rfl))

/-! ### Blanks for comments -/

theorem length_lexeme (o : Occurrence) : o.token.lexeme.length = o.text.length :=
  String.length_ofList

/-- The text with blanks, by the next token. -/
theorem blankComments_next (o : Occurrence) (ts : List Token) {g r : List Char} (hg : Gap g)
    (hr : StopsBefore Text.isSeparator (o.text ++ r)) :
    blankComments (o.token :: ts) (g ++ (o.text ++ r)) =
      g ++ ((if o.kind.isComment then o.text.map Text.blank else o.text) ++
        blankComments ts r) := by
  rw [blankComments, Piece.takeWhile_run hg hr, Piece.dropWhile_run hg hr, length_lexeme,
    List.take_left, List.drop_left, List.append_assoc]
  rfl

theorem blanked_blankComments {u r : List Char} {xs : List Occurrence} (h : Reads u r xs) :
    List.Forall₂ Text.Blanked r (blankComments (xs.map Occurrence.token) r) := by
  induction h with
  | done _ => exact blanked_refl _
  | @next u g t w r xs hg hcuts ht _ ih =>
    rw [List.map_cons, blankComments_next _ _ hg (Piece.stopsBefore_of_cuts hcuts ht)]
    refine List.rel_append (blanked_refl g) (List.rel_append ?_ ih)
    split
    · exact blanked_blank w
    · exact blanked_refl w

/-- A separator in front is not in a comment. -/
theorem head_blankComments {u r : List Char} {xs : List Occurrence} {c : Char} (h : Reads u r xs)
    (hhead : r.head? = some c) (hc : Text.isSeparator c = true) :
    (blankComments (xs.map Occurrence.token) r).head? = some c := by
  cases h with
  | done _ => exact hhead
  | @next u g t w r xs hg hcuts ht _ =>
    have hstop := Piece.stopsBefore_of_cuts hcuts ht
    rw [List.map_cons, blankComments_next _ _ hg hstop]
    cases g with
    | nil =>
      rw [hstop c hhead] at hc
      cases hc
    | cons d g => exact hhead

theorem Occurrence.error?_of_isComment {o : Occurrence} (h : o.kind.isComment = true) :
    o.error? = none := by
  rw [Occurrence.error?]
  rw [Occurrence.kind] at h
  cases ht : o.tag <;> rw [ht] at h <;> first | rfl | cases h

/-- Where an occurrence is counts by its position only. -/
theorem Occurrence.moved {t : Tag} {w u u' : List Char} (h : Position.after u' = .after u) :
    Occurrence.token ⟨t, w, u'⟩ = Occurrence.token ⟨t, w, u⟩ ∧
      Occurrence.error? ⟨t, w, u'⟩ = Occurrence.error? ⟨t, w, u⟩ := by
  simp only [Occurrence.token, Occurrence.error?, Occurrence.kind, Occurrence.lexeme,
    Occurrence.position, h, and_self]

/-- **Blanks for comments** leave the other occurrences as they are. -/
theorem Reads.blanks {u u' r : List Char} {xs : List Occurrence} (h : Reads u r xs)
    (hu : u'.map (· == '\n') = u.map (· == '\n')) :
    ∃ ys, Reads u' (blankComments (xs.map Occurrence.token) r) ys ∧
      ys.map Occurrence.token =
        (xs.map Occurrence.token).filter (fun t => !t.kind.isComment) ∧
      ys.filterMap Occurrence.error? = xs.filterMap Occurrence.error? := by
  induction h generalizing u' with
  | done hg => exact ⟨[], .done hg, rfl, rfl⟩
  | @next u g t w r xs hg hcuts ht hxs ih =>
    have hnext := blankComments_next ⟨t, w, u ++ g⟩ (xs.map Occurrence.token) hg
      (Piece.stopsBefore_of_cuts hcuts ht)
    rw [List.map_cons, hnext]
    cases hcomment : Occurrence.kind ⟨t, w, u ++ g⟩ |>.isComment with
    | true =>
      -- The comment becomes a part of the gap.
      have hgap : Gap (w.map Text.blank) := by
        intro c hc
        obtain ⟨d, -, rfl⟩ := List.mem_map.mp hc
        exact Text.isSeparator_blank d
      have hlines : (u' ++ g ++ w.map Text.blank).map (· == '\n') =
          (u ++ g ++ w).map (· == '\n') := by
        simp only [List.map_append, hu, map_lineFeed_of_blanked (blanked_blank w)]
      obtain ⟨ys, hys, htokens, herrors⟩ := ih hlines
      refine ⟨ys, Reads.behind_gap hg (Reads.behind_gap hgap hys), ?_, ?_⟩
      · rw [htokens, List.filter_cons_of_neg (by simp [hcomment])]
      · rw [herrors, List.filterMap_cons_none (Occurrence.error?_of_isComment hcomment)]
    | false =>
      -- The token stays: what stands behind it stops it with blanks for comments as well.
      have hlines : (u' ++ g ++ w).map (· == '\n') = (u ++ g ++ w).map (· == '\n') := by
        simp only [List.map_append, hu]
      have hfront : Position.after (u' ++ g) = .after (u ++ g) := by
        apply Position.after_congr
        simp only [List.map_append, hu]
      have hblanked := blanked_blankComments hxs
      have hstops : Stops r (blankComments (xs.map Occurrence.token) r) :=
        Piece.stops_blanked hblanked fun hhead => head_blankComments hxs hhead rfl
      have hfollow : Piece.Follow t w (blankComments (xs.map Occurrence.token) r) := by
        apply hcuts.2.imp hstops ht
        · rintro rfl
          have hr : r = [] := hcuts.2
          subst hr
          exact List.forall₂_nil_left_iff.mp hblanked
        · intro hhead
          exact .inl (head_lineFeed_of_blanked hblanked hhead)
      obtain ⟨ys, hys, htokens, herrors⟩ := ih hlines
      obtain ⟨htoken, herror⟩ := Occurrence.moved (t := t) (w := w) hfront
      refine ⟨⟨t, w, u' ++ g⟩ :: ys, .next hg ⟨hcuts.1, hfollow⟩ ht hys, ?_, ?_⟩
      · rw [List.map_cons, htoken, htokens, List.filter_cons_of_pos (by simp [hcomment])]
      · rw [List.filterMap_cons, herror, herrors, List.filterMap_cons]

/-- **Comments are blanks**: with blanks for its comments, a source has the other tokens and all
errors as before. -/
theorem analyze_blankComments (s : Source) :
    ∃ (a : Analysis) (s' : Source), s.analyze = .ok a ∧
      s'.text.toList = blankComments a.tokens s.text.toList ∧
      s'.analyze = .ok ⟨a.withoutComments, a.errors⟩ := by
  obtain ⟨xs, hxs⟩ := exists_reads [] s.text.toList
  have hlines : ([] : List Char).map (· == '\n') = [].map (· == '\n') := rfl
  obtain ⟨ys, hys, htokens, herrors⟩ := hxs.blanks hlines
  have hsize := byteLength_le_of_blanked (blanked_blankComments hxs)
  have hlt := s.size_lt
  rw [utf8ByteSize_eq] at hlt
  let s' : Source := ⟨String.ofList (blankComments (xs.map Occurrence.token) s.text.toList), by
    rw [utf8ByteSize_eq, String.toList_ofList]
    exact Nat.lt_of_le_of_lt hsize hlt⟩
  have htext : s'.text.toList = blankComments (xs.map Occurrence.token) s.text.toList :=
    String.toList_ofList
  rw [← htext] at hys
  refine ⟨_, s', Source.analyze_of_reads hxs, htext, ?_⟩
  rw [Source.analyze_of_reads hys, htokens, herrors]
  rfl

/-- Two signs with a comment between them are not joined, and not moved. -/
example :
    blankComments
      [⟨.assign, "=", ⟨1, 1⟩⟩, ⟨.blockComment, "/*\n*/", ⟨1, 2⟩⟩, ⟨.assign, "=", ⟨2, 3⟩⟩]
      "=/*\n*/=".toList = "=  \n  =".toList := by decide

end Lexico
