import Lexico.Proofs.Scanner.Reading

/-!
# Tokens cover the source

The lexemes of an analysis, with gaps of separators between them, are the text of the source again;
no character is lost, made up or changed, and each token stands at the position that counting over
the text before it gives.
-/

namespace Lexico

/-- Behind the text `u`, the tokens make up the text `r`: each one is in its place, behind a gap,
and behind the last one there is only a gap. -/
inductive Covers : List Char → List Token → List Char → Prop
  | last {u g} : Gap g → Covers u [] g
  | token {u g r ts} {t : Token} : Gap g → t.kind ≠ .eof →
      (∃ c w, t.lexeme.toList = c :: w ∧ Text.isSeparator c = false) →
      t.position = Position.start.advanceOver (String.ofList (u ++ g)) →
      Covers (u ++ g ++ t.lexeme.toList) ts r →
      Covers u (t :: ts) (g ++ t.lexeme.toList ++ r)

/-- Occurrences cover the text that they are in. -/
theorem Reads.covers {u r : List Char} {xs : List Occurrence} (h : Reads u r xs) :
    Covers u (xs.map Occurrence.token) r := by
  induction h with
  | done hg => exact .last hg
  | @next u g t w r xs hg hcuts ht _ ih =>
    let o : Occurrence := ⟨t, w, u ++ g⟩
    have hlexeme : o.token.lexeme.toList = w := String.toList_ofList
    obtain ⟨c, v, hw, hc⟩ := hcuts.1.head ht
    have hstart : ∃ c v, o.token.lexeme.toList = c :: v ∧ Text.isSeparator c = false :=
      ⟨c, v, hlexeme.trans hw, hc⟩
    have hcovers : Covers (u ++ g ++ o.token.lexeme.toList) (xs.map Occurrence.token) r := by
      rw [hlexeme]
      exact ih
    have hall := Covers.token hg o.kind_ne_eof hstart rfl hcovers
    rwa [hlexeme, List.append_assoc] at hall

/-- **The tokens of a source cover its text.** -/
theorem analyze_covers (s : Source) :
    ∃ a, s.analyze = .ok a ∧ Covers [] a.tokens s.text.toList := by
  obtain ⟨xs, hxs⟩ := exists_reads [] s.text.toList
  exact ⟨_, Source.analyze_of_reads hxs, hxs.covers⟩

end Lexico
