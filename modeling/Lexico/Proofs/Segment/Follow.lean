import Lexico.Proofs.Segment.Separator

/-!
# Changing what stands behind a piece

A piece is cut in the same way in front of other text, as long as the other text stops it as well.
`Stops r r'` says so for all pieces that stand for a token at once, but for two: an open block
comment is stopped by the end of the text only, and an open string literal that ends in a carriage
return must not come to stand in front of a line feed.
-/

namespace Lexico.Piece

/-- What stops in front of the text `r` stops in front of `r'`. -/
structure Stops (r r' : List Char) : Prop where
  head : ∀ c, r'.head? = some c → r.head? = some c ∨ Text.isSeparator c = true
  fraction : fraction r = [] → fraction r' = []
  lineEnds : lineEnds r = true → lineEnds r' = true
  lineFeed : r = [] ∨ r.head? = some '\n' → r' = [] ∨ r'.head? = some '\n'

/-- A fraction needs a digit behind the point. -/
theorem fraction_eq_nil_iff {r : List Char} :
    fraction r = [] ↔ ∀ d v, r = '.' :: d :: v → d.isDigit = false := by
  constructor
  · rintro hnone d v rfl
    rw [fraction, if_pos rfl, List.takeWhile_cons] at hnone
    split at hnone
    · cases hnone
    · next hd => rwa [Bool.not_eq_true] at hd
  · intro h
    rcases fraction_spec r with hnone | ⟨d, v, r', rfl, -, hd, -⟩
    · exact hnone
    · rw [h d (v ++ r') rfl] at hd
      cases hd

/-- A class without separators still stops. -/
theorem StopsBefore.imp {q : Char → Bool} {r r' : List Char} (h : StopsBefore q r)
    (hs : Stops r r') (hq : ∀ c, Text.isSeparator c = true → q c = false) : StopsBefore q r' := by
  intro c hc
  rcases hs.head c hc with hsame | hsep
  · exact h c hsame
  · exact hq c hsep

theorem head_ne_of_stops {r r' : List Char} {c : Char} (h : r.head? ≠ some c) (hs : Stops r r')
    (hc : Text.isSeparator c = false) : r'.head? ≠ some c := by
  intro hhead
  rcases hs.head c hhead with hsame | hsep
  · exact h hsame
  · rw [hc] at hsep
    cases hsep

/-- **A token is cut in the same way** in front of a text that stops it. -/
theorem Follow.imp {t : Tag} {w r r' : List Char} (h : Follow t w r) (hs : Stops r r')
    (ht : t.isTrivia = false) (hopen : t = .unterminatedBlockComment → r' = [])
    (hlast : r'.head? = some '\n' → r.head? = some '\n' ∨ w.getLast? ≠ some '\r') :
    Follow t w r' := by
  have hequal (hr : r.head? ≠ some '=') : r'.head? ≠ some '=' := head_ne_of_stops hr hs rfl
  cases t with
  | whitespace | newline => cases ht
  | ident => exact StopsBefore.imp h hs isWordPart_of_isSeparator
  | int => exact ⟨StopsBefore.imp h.1 hs isDigit_of_isSeparator, hs.fraction h.2⟩
  | decimal => exact StopsBefore.imp h hs isDigit_of_isSeparator
  | slash => exact ⟨head_ne_of_stops h.1 hs rfl, head_ne_of_stops h.2 hs rfl⟩
  | equal | less | greater => exact hequal h
  | unrecognizedChar =>
    intro hbang
    exact hequal (h hbang)
  | unterminatedString =>
    refine ⟨hs.lineEnds h.1, ?_⟩
    intro hhead
    rcases hlast hhead with hsame | hw
    · exact h.2 hsame
    · exact hw
  | lineComment => exact hs.lineFeed h
  | unterminatedBlockComment => exact hopen rfl
  | _ => trivial

end Lexico.Piece
