import Lexico.Proofs.Analysis.Lexemes
import Lexico.Proofs.Analysis.LineComments
import Mathlib.Data.List.Forall2

/-!
# Errors and error tokens

The errors of an analysis go with its error tokens, one with each, in the same order. An error is at
the position of its token, and the lexeme of the token tells the cause: an open string literal goes
up to the end of its line, an open block comment up to the end of the source, and all else that no
token has is a single character.
-/

namespace Lexico

open Piece (Shape Cuts lineEnds)

/-- The error says what is wrong with the token, one of the tokens `ts` of the source. -/
structure Source.Diagnosed (s : Source) (ts : List Token) (e : LexicalError) (t : Token) :
    Prop where
  position_eq : e.position = t.position
  openLiteral_iff : e.cause = .unterminatedString ↔ t.lexeme.toList.head? = some '"'
  openLiteral : e.cause = .unterminatedString →
    '\n' ∉ t.lexeme.toList ∧ ∃ r, s.Holds t t.lexeme.toList r ∧ lineEnds r = true
  openComment_iff : e.cause = .unterminatedBlockComment ↔ ['/', '*'] <+: t.lexeme.toList
  openComment : e.cause = .unterminatedBlockComment →
    ¬ ['*', '/'] <:+: t.lexeme.toList.drop 2 ∧ s.Holds t t.lexeme.toList [] ∧
      ts.getLast? = some t
  unknown : e.cause ≠ .unterminatedString → e.cause ≠ .unterminatedBlockComment →
    ∃ c, t.lexeme.toList = [c] ∧ e.cause = .unrecognizedChar c

/-! ### The text of an error -/

/-- What no token has is an open literal, an open comment or a single character. -/
theorem Piece.Cuts.error_cases {t : Tag} {w r : List Char} (h : Cuts t w r)
    (he : t.isError = true) :
    (t = .unterminatedString ∧ (∃ v, w = '"' :: v) ∧ '\n' ∉ w ∧ lineEnds r = true) ∨
    (t = .unterminatedBlockComment ∧ (∃ v, w = '/' :: '*' :: v ∧ ¬ ['*', '/'] <:+: v) ∧
      r = []) ∨
    (t = .unrecognizedChar ∧ ∃ c, w = [c] ∧ c ≠ '"') := by
  obtain ⟨hshape, hfollow⟩ := h
  cases hshape with
  | openLiteral hv =>
    refine .inl ⟨rfl, ⟨_, rfl⟩, ?_, hfollow.1⟩
    rw [List.mem_cons, not_or]
    exact ⟨by decide, hv.lineFeed_not_mem⟩
  | openComment hv => exact .inr (.inl ⟨rfl, ⟨_, rfl, hv⟩, hfollow⟩)
  | @unknown c hc =>
    refine .inr (.inr ⟨rfl, c, rfl, ?_⟩)
    rintro rfl
    rcases hc with hc | hc <;> cases hc
  | bang => exact .inr (.inr ⟨rfl, '!', rfl, by decide⟩)
  | spelled h => cases t <;> simp_all [Tag.isError, Tag.spelling?]
  | _ => cases he

/-! ### Errors and their tokens -/

/-- Behind an open block comment there is no other token. -/
theorem Reads.getLast?_of_openComment {u r : List Char} {xs : List Occurrence} (h : Reads u r xs)
    {o : Occurrence} (ho : o ∈ xs) (ht : o.tag = .unterminatedBlockComment) :
    xs.getLast? = some o := by
  induction h with
  | done => cases ho
  | @next u g t w r xs _ hcuts _ hxs ih =>
    rcases List.mem_cons.mp ho with rfl | ho
    · obtain rfl : t = .unterminatedBlockComment := ht
      obtain rfl : r = [] := hcuts.2
      rw [hxs.unique (.done gap_nil)]
      rfl
    · rw [List.getLast?_cons, ih ho]
      rfl

theorem Source.diagnosed_openLiteral {s : Source} {ts : List Token} {t : Token} {v r : List Char}
    (h : s.Holds t ('"' :: v) r) (hfeed : '\n' ∉ '"' :: v) (hends : lineEnds r = true) :
    s.Diagnosed ts ⟨.unterminatedString, t.position⟩ t where
  position_eq := rfl
  openLiteral_iff := by simp [h.1]
  openLiteral _ := by
    rw [h.1]
    exact ⟨hfeed, r, h, hends⟩
  openComment_iff := by simp [h.1]
  openComment := nofun
  unknown hne _ := absurd rfl hne

theorem Source.diagnosed_openComment {s : Source} {ts : List Token} {t : Token} {v : List Char}
    (h : s.Holds t ('/' :: '*' :: v) []) (hopen : ¬ ['*', '/'] <:+: v)
    (hlast : ts.getLast? = some t) :
    s.Diagnosed ts ⟨.unterminatedBlockComment, t.position⟩ t where
  position_eq := rfl
  openLiteral_iff := by simp [h.1]
  openLiteral := nofun
  openComment_iff := by simp [h.1]
  openComment _ := by
    rw [h.1]
    exact ⟨hopen, h, hlast⟩
  unknown _ hne := absurd rfl hne

theorem Source.diagnosed_unknown {s : Source} {ts : List Token} {t : Token} {c : Char}
    {r : List Char} (h : s.Holds t [c] r) (hquote : c ≠ '"') :
    s.Diagnosed ts ⟨.unrecognizedChar c, t.position⟩ t where
  position_eq := rfl
  openLiteral_iff := by simp [h.1, hquote]
  openLiteral := nofun
  openComment_iff := by simp [h.1]
  openComment := nofun
  unknown _ _ := ⟨c, h.1, rfl⟩

/-- The error of an occurrence says what is wrong with its token. -/
theorem Reads.diagnosed {s : Source} {xs : List Occurrence} (h : Reads [] s.text.toList xs)
    {o : Occurrence} (ho : o ∈ xs) {e : LexicalError} (herr : o.error? = some e) :
    s.Diagnosed (xs.map Occurrence.token) e o.token := by
  obtain ⟨r, htext, hcuts, -⟩ := h.cuts_of_mem ho
  have hholds : s.Holds o.token o.text r := Occurrence.holds htext
  have hisError : o.tag.isError = true := by
    rw [← Occurrence.isSome_error?, herr]
    rfl
  obtain ⟨cause, hcause, rfl⟩ := Option.map_eq_some_iff.mp herr
  rcases hcuts.error_cases hisError with
    ⟨htag, ⟨v, hw⟩, hfeed, hends⟩ | ⟨htag, ⟨v, hw, hopen⟩, rfl⟩ | ⟨htag, c, hw, hquote⟩
  · rw [htag] at hcause
    obtain rfl : LexicalError.Cause.unterminatedString = cause := Option.some.inj hcause
    exact Source.diagnosed_openLiteral (hw ▸ hholds) (hw ▸ hfeed) hends
  · rw [htag] at hcause
    obtain rfl : LexicalError.Cause.unterminatedBlockComment = cause := Option.some.inj hcause
    have hlast : (xs.map Occurrence.token).getLast? = some o.token := by
      rw [List.getLast?_map, h.getLast?_of_openComment ho htag]
      rfl
    exact Source.diagnosed_openComment (hw ▸ hholds) hopen hlast
  · rw [htag, Tag.cause?, Occurrence.lexeme, String.toList_ofList, hw] at hcause
    obtain rfl : LexicalError.Cause.unrecognizedChar c = cause := Option.some.inj hcause
    exact Source.diagnosed_unknown (hw ▸ hholds) hquote

/-- As many errors are recorded as there are occurrences of error tokens, in the same order. -/
theorem Reads.forall₂_occurrence {u r : List Char} {xs : List Occurrence} (h : Reads u r xs)
    {R : LexicalError → Occurrence → Prop} (hR : ∀ o ∈ xs, ∀ e, o.error? = some e → R e o) :
    List.Forall₂ R (xs.filterMap Occurrence.error?) (xs.filter fun o => o.token.isError) := by
  induction h with
  | done => exact .nil
  | @next u g t w r xs hg hcuts ht hxs ih =>
    have hrest := ih fun o ho => hR o (List.mem_cons_of_mem _ ho)
    have hisError := (Reads.next hg hcuts ht hxs).isError_token _ List.mem_cons_self
    cases herr : Occurrence.error? ⟨t, w, u ++ g⟩ with
    | none =>
      rw [herr] at hisError
      rw [List.filterMap_cons_none herr, List.filter_cons_of_neg (by simp [hisError])]
      exact hrest
    | some e =>
      rw [herr] at hisError
      rw [List.filterMap_cons_some herr, List.filter_cons_of_pos (by simp [hisError])]
      exact .cons (hR _ List.mem_cons_self e herr) hrest

/-- So there are as many errors as error tokens. -/
theorem Reads.forall₂_error {u r : List Char} {xs : List Occurrence} (h : Reads u r xs)
    {R : LexicalError → Token → Prop}
    (hR : ∀ o ∈ xs, ∀ e, o.error? = some e → R e o.token) :
    List.Forall₂ R (xs.filterMap Occurrence.error?)
      ((xs.map Occurrence.token).filter Token.isError) := by
  rw [List.filter_map, List.forall₂_map_right_iff]
  exact h.forall₂_occurrence hR

/-- **Errors and error tokens** go together one to one. -/
theorem analyze_diagnosed (s : Source) :
    ∃ a, s.analyze = .ok a ∧
      List.Forall₂ (s.Diagnosed a.tokens) a.errors (a.tokens.filter Token.isError) := by
  obtain ⟨xs, hxs⟩ := exists_reads [] s.text.toList
  exact ⟨_, Source.analyze_of_reads hxs, hxs.forall₂_error fun _ ho _ herr => hxs.diagnosed ho herr⟩

end Lexico
