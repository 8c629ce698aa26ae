import Lexico.Proofs.Scanner.Reading
import Lexico.Proofs.Segment.Munch

/-!
# How far a line comment goes

A line ends at a line feed, or at a carriage return in front of one. An open string literal goes up
to the end of its line. A line comment goes up to the line feed: where the line ends with a carriage
return and a line feed, the carriage return is taken for a part of the comment.
-/

namespace Lexico

open Piece (Shape Cuts)
open Munch (FillsLine lineEnds_of_not_mem)

/-! ### Where a token stands -/

/-- The token stands in the source for the text `w`, in front of the text `r`. -/
def Source.Holds (s : Source) (t : Token) (w r : List Char) : Prop :=
  t.lexeme.toList = w ∧ ∃ u, s.text.toList = u ++ (w ++ r) ∧ t.position = .after u

/-- An error that starts with a quote is an open string literal. -/
theorem Piece.Shape.eq_unterminatedString {t : Tag} {w : List Char} (h : Shape t w)
    (he : t.isError = true) (hquote : w.head? = some '"') : t = .unterminatedString := by
  cases h with
  | openLiteral => rfl
  | unknown hc =>
    cases hquote
    rcases hc with hc | hc <;> cases hc
  | spelled h => cases t <;> simp_all [Tag.isError, Tag.spelling?]
  | bang | openComment => cases hquote
  | _ => cases he

/-! ### Lines -/

/-- An open string literal goes up to the end of its line. -/
theorem Piece.Cuts.openLiteral_fillsLine {w r : List Char} (h : Cuts .unterminatedString w r) :
    ∃ v, w = '"' :: v ∧ FillsLine v r := by
  obtain ⟨hshape, hends, hlast⟩ := h
  cases hshape with
  | spelled h => cases h
  | @openLiteral v hv =>
    refine ⟨v, rfl, hends, lineEnds_of_not_mem hv.lineFeed_not_mem ?_⟩
    exact fun hhead => last_ne_of_cons (hlast hhead)

/-- A line comment goes up to the end of its line, or over the carriage return there. -/
theorem Piece.Cuts.lineComment_fillsLine {w r : List Char} (h : Cuts .lineComment w r) :
    ∃ v, w = '/' :: '/' :: v ∧ (FillsLine v r ∨ ∃ v' r', v = v' ++ ['\r'] ∧ r = '\n' :: r' ∧
      FillsLine v' ('\r' :: r)) := by
  obtain ⟨hshape, hfollow⟩ := h
  cases hshape with
  | spelled h => cases h
  | @lineComment v hv =>
    refine ⟨v, rfl, ?_⟩
    by_cases hreturn : r.head? = some '\n' ∧ v.getLast? = some '\r'
    · obtain ⟨r, rfl⟩ := List.head?_eq_some_iff.mp hreturn.1
      obtain ⟨v, rfl⟩ := List.getLast?_eq_some_iff.mp hreturn.2
      have hv' : '\n' ∉ v := fun hmem => hv (List.mem_append_left _ hmem)
      exact .inr ⟨v, r, rfl, rfl, rfl, lineEnds_of_not_mem hv' (by simp)⟩
    · refine .inl ⟨?_, lineEnds_of_not_mem hv fun hhead hlast => hreturn ⟨hhead, hlast⟩⟩
      rcases hfollow with rfl | hhead
      · rfl
      · obtain ⟨r, rfl⟩ := List.head?_eq_some_iff.mp hhead
        rfl

/-! ### Tokens -/

/-- The token of an occurrence stands where the occurrence is. -/
theorem Occurrence.holds {s : Source} {o : Occurrence} {r : List Char}
    (h : s.text.toList = o.before ++ (o.text ++ r)) : s.Holds o.token o.text r :=
  ⟨String.toList_ofList, o.before, h, rfl⟩

/-- **Line comments and open literals** go up to the end of their line, but a line comment also over
the carriage return where the line ends with one and a line feed. -/
theorem analyze_lineComment (s : Source) :
    ∃ a, s.analyze = .ok a ∧
      (∀ t ∈ a.tokens, t.kind = .lineComment → ∃ w r, s.Holds t ('/' :: '/' :: w) r ∧
        (FillsLine w r ∨
          ∃ w' r', w = w' ++ ['\r'] ∧ r = '\n' :: r' ∧ FillsLine w' ('\r' :: r))) ∧
      ∀ t ∈ a.tokens, t.kind = .error → t.lexeme.toList.head? = some '"' →
        ∃ w r, s.Holds t ('"' :: w) r ∧ FillsLine w r := by
  obtain ⟨xs, hxs⟩ := exists_reads [] s.text.toList
  refine ⟨_, Source.analyze_of_reads hxs, ?_, ?_⟩
  · intro t ht hkind
    obtain ⟨o, ho, rfl⟩ := List.mem_map.mp ht
    obtain ⟨r, htext, hcuts, htrivia⟩ := hxs.cuts_of_mem ho
    have hsome : o.tag.kind? o.lexeme = some .lineComment :=
      (o.kind?_eq htrivia hcuts.1.ne_eof).trans (congrArg some hkind)
    rw [Tag.kind?_eq_lineComment_iff.mp hsome] at hcuts
    obtain ⟨w, hw, hfills⟩ := hcuts.lineComment_fillsLine
    exact ⟨w, r, hw ▸ Occurrence.holds htext, hfills⟩
  · intro t ht hkind hquote
    obtain ⟨o, ho, rfl⟩ := List.mem_map.mp ht
    obtain ⟨r, htext, hcuts, htrivia⟩ := hxs.cuts_of_mem ho
    have herror : o.tag.isError = true := by
      rw [← Occurrence.isError_token htrivia hcuts.1.ne_eof]
      exact decide_eq_true hkind
    have hhead : o.text.head? = some '"' := by
      rwa [← (Occurrence.holds htext).1]
    rw [hcuts.1.eq_unterminatedString herror hhead] at hcuts
    obtain ⟨w, hw, hfills⟩ := hcuts.openLiteral_fillsLine
    exact ⟨w, r, hw ▸ Occurrence.holds htext, hfills⟩

/-- Of two carriage returns in front of a line feed the comment takes both, and the open literal in
the next line leaves its own. -/
theorem analyze_lineComment_returns :
    let s : Source := ⟨"//a\r\r\n\"b\r\n", by decide⟩
    let t : Token := ⟨.lineComment, "//a\r\r", ⟨1, 1⟩⟩
    let t' : Token := ⟨.error, "\"b", ⟨2, 1⟩⟩
    ∃ a, s.analyze = .ok a ∧ t ∈ a.tokens ∧ t' ∈ a.tokens ∧
      (∃ w r, s.Holds t ('/' :: '/' :: w) r ∧ (FillsLine w r ∨
        ∃ w' r', w = w' ++ ['\r'] ∧ r = '\n' :: r' ∧ FillsLine w' ('\r' :: r))) ∧
      ∃ w r, s.Holds t' ('"' :: w) r ∧ FillsLine w r := by
  intro s t t'
  obtain ⟨a, ha, hcomments, hliterals⟩ := analyze_lineComment s
  have heval : s.analyze.toOption = some ⟨[t, t'], [⟨.unterminatedString, ⟨2, 1⟩⟩]⟩ := by
    decide +kernel
  rw [ha] at heval
  cases heval
  have ht : t ∈ [t, t'] := List.mem_cons_self
  have ht' : t' ∈ [t, t'] := List.mem_cons_of_mem _ List.mem_cons_self
  exact ⟨_, ha, ht, ht', hcomments t ht rfl, hliterals t' ht' rfl (by decide)⟩

/-- A line comment does not always end where its line does. -/
theorem lineComment_keeps_return :
    ¬ ∀ s a, Source.analyze s = .ok a → ∀ t ∈ a.tokens, t.kind = .lineComment →
      ∃ w r, s.Holds t ('/' :: '/' :: w) r ∧ FillsLine w r := by
  intro hall
  let s : Source := ⟨"// hi\r\nx", by decide⟩
  have hanalyze : s.analyze.toOption =
      some ⟨[⟨.lineComment, "// hi\r", .start⟩, ⟨.identifier, "x", ⟨2, 1⟩⟩], []⟩ := by
    decide +kernel
  cases ha : s.analyze with
  | error fault =>
    rw [ha] at hanalyze
    cases hanalyze
  | ok a =>
    rw [ha] at hanalyze
    cases hanalyze
    obtain ⟨w, r, ⟨hw, u, htext, hu⟩, -, hinner⟩ := hall s _ ha _ List.mem_cons_self rfl
    obtain rfl := Position.after_eq_start_iff.mp hu.symm
    have hcomment : "// hi\r".toList = ['/', '/', ' ', 'h', 'i', '\r'] := by decide
    have hsource : s.text.toList = ['/', '/', ' ', 'h', 'i', '\r', '\n', 'x'] := by decide
    rw [hcomment] at hw
    cases hw
    rw [hsource] at htext
    cases htext
    -- The comment ends with a carriage return, at which its line has ended.
    have hends := hinner [' ', 'h', 'i'] ['\r'] rfl (by simp)
    cases hends

end Lexico
