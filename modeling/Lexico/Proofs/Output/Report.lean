import Lexico.Output.Report
import Lexico.Proofs.Analysis.LineEnds
import Lexico.Proofs.Text.Column
import Lexico.Proofs.Text.Lines
import Lexico.Proofs.Token.Kind

/-!
# Lines of the report

The report has three lines at its head and a row for each token. It shows a lexeme as it is in the
source, so a row is one line as long as there is no line feed in the lexeme. Only a block comment
has line feeds, and it spreads its row over that many lines more.
-/

namespace Lexico

open Text (IsLine)

namespace Report

/-! ### Rows -/

theorem count_number (n : Nat) : (toString n).toList.count '\n' = 0 := by
  rw [Text.toList_toString]
  exact List.count_eq_zero.mpr (Text.lineFeed_not_mem_digits n)

/-- A row ends with a line feed; the others in it are those of the lexeme. -/
theorem exists_row (t : Token) :
    ∃ w, (row t).toList = w ++ ['\n'] ∧ w.count '\n' = t.lexeme.toList.count '\n' := by
  have hname : t.kind.displayName.toList.count '\n' = 0 :=
    List.count_eq_zero.mpr t.kind.displayName_fits.2.1
  have hlabels : " ".toList.count '\n' = 0 ∧ " Línea: ".toList.count '\n' = 0 ∧
      " Columna: ".toList.count '\n' = 0 := by decide
  obtain ⟨hspace, hline, hcolumn⟩ := hlabels
  rw [row, String.toList_append]
  refine ⟨_, rfl, ?_⟩
  simp only [String.toList_append, List.count_append, hspace, hline, hcolumn, hname, count_number,
    Text.count_padRight (c := '\n') (by decide), Nat.zero_add, Nat.add_zero]

theorem count_row (t : Token) :
    (row t).toList.count '\n' = 1 + t.lexeme.toList.count '\n' := by
  obtain ⟨w, hrow, hcount⟩ := exists_row t
  rw [hrow, List.count_append, hcount, Nat.add_comm]
  rfl

theorem isLine_row {t : Token} (h : '\n' ∉ t.lexeme.toList) : IsLine (row t).toList := by
  obtain ⟨w, hrow, hcount⟩ := exists_row t
  refine ⟨w, hrow, ?_⟩
  rw [← List.count_eq_zero, hcount, List.count_eq_zero]
  exact h

/-! ### The whole report -/

theorem toList_render (tokens : List Token) :
    (render tokens).toList = ((lines tokens).map String.toList).flatten := by
  rw [render, String.toList_join, List.flatMap_def]

theorem isLine_header : ∀ l ∈ header.map String.toList, IsLine l := by
  intro l hl
  have hlines : ∀ l ∈ header.map String.toList, l = l.dropLast ++ ['\n'] ∧ '\n' ∉ l.dropLast := by
    decide +kernel
  exact ⟨l.dropLast, hlines l hl⟩

/-- Line feeds are those at the ends of lines and those in lexemes. -/
theorem count_render (tokens : List Token) :
    (render tokens).toList.count '\n' =
      3 + tokens.length + (tokens.map fun t => t.lexeme.toList.count '\n').sum := by
  have hheader := Text.count_flatten isLine_header
  rw [toList_render, lines, List.map_append, List.flatten_append, List.count_append, hheader,
    Nat.add_assoc]
  show 3 + _ = 3 + _
  rw [Nat.add_left_cancel_iff]
  induction tokens with
  | nil => rfl
  | cons t ts ih =>
    rw [List.map_cons, List.map_cons, List.flatten_cons, List.count_append, count_row, ih,
      List.map_cons, List.sum_cons, List.length_cons]
    omega

/-- Where no lexeme has a line feed, each row is a line. -/
theorem lines_render {tokens : List Token} (h : ∀ t ∈ tokens, '\n' ∉ t.lexeme.toList) :
    Text.lines (render tokens).toList = (lines tokens).map String.toList := by
  rw [toList_render]
  apply Text.lines_flatten
  intro l hl
  rw [lines, List.map_append, List.mem_append] at hl
  rcases hl with hl | hl
  · exact isLine_header l hl
  · rw [List.map_map] at hl
    obtain ⟨t, ht, rfl⟩ := List.mem_map.mp hl
    exact isLine_row (h t ht)

end Report

/-! ### The report on a source -/

/-- The token is a block comment, closed or open. -/
def Token.IsBlockComment (t : Token) : Prop :=
  t.kind = .blockComment ∨ t.kind = .error ∧ ['/', '*'] <+: t.lexeme.toList

theorem Piece.Shape.openComment_isPrefix {w : List Char} (h : Shape .unterminatedBlockComment w) :
    ['/', '*'] <+: w := by
  cases h with
  | openComment _ => exact ⟨_, rfl⟩
  | spelled h => cases h

/-- Of the tokens, only block comments go over more than one line. -/
theorem Reads.isBlockComment {u r : List Char} {xs : List Occurrence} (h : Reads u r xs)
    {o : Occurrence} (ho : o ∈ xs) (hfeed : '\n' ∈ o.token.lexeme.toList) :
    o.token.IsBlockComment := by
  obtain ⟨r', -, hcuts, ht⟩ := h.cuts_of_mem ho
  have hlexeme : o.token.lexeme.toList = o.text := String.toList_ofList
  have hkind := o.kind?_eq ht hcuts.1.ne_eof
  rw [hlexeme] at hfeed
  by_cases hclosed : o.tag = .blockComment
  · rw [hclosed] at hkind
    exact .inl (Option.some.inj hkind).symm
  by_cases hopen : o.tag = .unterminatedBlockComment
  · rw [hopen] at hkind hcuts
    refine .inr ⟨(Option.some.inj hkind).symm, ?_⟩
    rw [hlexeme]
    exact hcuts.1.openComment_isPrefix
  · exact absurd hfeed (hcuts.1.lineFeed_not_mem ht hclosed hopen)

/-- **The report on a source** has three lines and a row for each token. A row is one line, but for
block comments, which take a line more for each line feed in them. -/
theorem report_lines (s : Source) :
    ∃ a, s.analyze = .ok a ∧
      (Report.render a.tokens).toList.count '\n' =
        3 + a.tokenCount + (a.tokens.map fun t => t.lexeme.toList.count '\n').sum ∧
      (∀ t ∈ a.tokens, '\n' ∈ t.lexeme.toList → t.IsBlockComment) ∧
      ((∀ t ∈ a.tokens, t.IsBlockComment → '\n' ∉ t.lexeme.toList) →
        Text.lines (Report.render a.tokens).toList =
          (Report.header ++ a.tokens.map Report.row).map String.toList) := by
  obtain ⟨xs, hxs⟩ := exists_reads [] s.text.toList
  have hcomments : ∀ t ∈ xs.map Occurrence.token, '\n' ∈ t.lexeme.toList → t.IsBlockComment := by
    intro t ht hfeed
    obtain ⟨o, ho, rfl⟩ := List.mem_map.mp ht
    exact hxs.isBlockComment ho hfeed
  refine ⟨_, Source.analyze_of_reads hxs, Report.count_render _, hcomments, ?_⟩
  intro hshort
  apply Report.lines_render
  intro t ht hfeed
  exact hshort t ht (hcomments t ht hfeed) hfeed

/-- Comments on a line of their own each have one line in the report. -/
theorem report_lines_comments :
    let s : Source := ⟨"// é\n/**/\"\\\n", by decide⟩
    let tokens : List Token :=
      [⟨.lineComment, "// é", ⟨1, 1⟩⟩, ⟨.blockComment, "/**/", ⟨2, 1⟩⟩, ⟨.error, "\"\\", ⟨2, 5⟩⟩]
    s.analyze = .ok ⟨tokens, [⟨.unterminatedString, ⟨2, 5⟩⟩]⟩ ∧
      (∀ t ∈ tokens, t.IsBlockComment → '\n' ∉ t.lexeme.toList) ∧
      Text.lines (Report.render tokens).toList =
        (Report.header ++ tokens.map Report.row).map String.toList := by
  intro s tokens
  obtain ⟨a, ha, -, -, hlines⟩ := report_lines s
  have heval : s.analyze.toOption = some ⟨tokens, [⟨.unterminatedString, ⟨2, 5⟩⟩]⟩ := by
    decide +kernel
  rw [ha] at heval
  cases heval
  have hshort : ∀ t ∈ tokens, t.IsBlockComment → '\n' ∉ t.lexeme.toList := by
    have hnone : ∀ t ∈ tokens, '\n' ∉ t.lexeme.toList := by decide +kernel
    exact fun t ht _ => hnone t ht
  exact ⟨ha, hshort, hlines hshort⟩

/-- The report on a block comment over two lines has a line too many. -/
theorem report_breaks_row :
    ¬ ∀ s a, Source.analyze s = .ok a →
      (Report.render a.tokens).toList.count '\n' = 3 + a.tokenCount := by
  intro hall
  let s : Source := ⟨"/*\n*/", by decide⟩
  have heval : s.analyze.toOption = some ⟨[⟨.blockComment, "/*\n*/", .start⟩], []⟩ := by
    decide +kernel
  cases ha : s.analyze with
  | error fault =>
    rw [ha] at heval
    cases heval
  | ok a =>
    rw [ha] at heval
    cases heval
    have hcount := hall s _ ha
    rw [Report.count_render] at hcount
    revert hcount
    decide +kernel

end Lexico
