import Lexico.Proofs.Scanner.Reading
import Lexico.Proofs.Segment.Follow
import Mathlib.Data.List.Forall2

/-!
# Lines on their own

Nothing but an open block comment goes on behind the end of a line. So text that ends in a line feed
can be analyzed on its own, and what comes after it on its own as well, with all lines counted from
further down.
-/

namespace Lexico

open Piece (Cuts Stops)

/-! ### A line feed in place of the end of the text -/

/-- A line feed stops what the end of the text stops. -/
theorem Piece.stops_lineFeed (r v : List Char) : Stops r (r ++ '\n' :: v) := by
  refine ⟨?_, ?_, ?_, ?_⟩
  · intro c hc
    cases r with
    | nil =>
      cases hc
      exact .inr rfl
    | cons d r => exact .inl hc
  · rw [fraction_eq_nil_iff, fraction_eq_nil_iff]
    intro hnone d v' htext
    rcases r with _ | ⟨c, _ | ⟨e, r⟩⟩
    · cases htext
    · cases htext
      rfl
    · cases htext
      exact hnone d r rfl
  · intro hends
    cases r with
    | nil => rfl
    | cons d r =>
      simp only [Piece.lineEnds, List.cons_append, Bool.or_eq_true, Bool.and_eq_true,
        beq_iff_eq] at hends ⊢
      rcases hends with hfeed | ⟨hreturn, hhead⟩
      · exact .inl hfeed
      · exact .inr ⟨hreturn, by rw [List.head?_append, hhead]; rfl⟩
  · rintro (rfl | hhead)
    · exact .inr rfl
    · exact .inr (by rw [List.head?_append, hhead]; rfl)

/-- The text after a line feed is read on its own. -/
theorem Reads.append_lineFeed {u r v : List Char} {xs ys : List Occurrence} (h : Reads u r xs)
    (hopen : ∀ o ∈ xs, o.tag ≠ .unterminatedBlockComment) (hlast : r.getLast? ≠ some '\r')
    (h' : Reads (u ++ r ++ ['\n']) v ys) : Reads u (r ++ '\n' :: v) (xs ++ ys) := by
  induction h with
  | @done u g hg =>
    rw [show g ++ '\n' :: v = (g ++ ['\n']) ++ v by simp]
    apply Reads.behind_gap
    · rw [gap_append]
      exact ⟨hg, by simp [Text.isSeparator]⟩
    · rwa [← List.append_assoc]
  | @next u g t w r xs hg hcuts ht hxs ih =>
    have hrest : r.getLast? ≠ some '\r' := by
      intro hr
      apply hlast
      rw [List.getLast?_append, List.getLast?_append, hr]
      rfl
    -- The line feed is new behind the last token only, and that does not end in a carriage return.
    have hfollow : Piece.Follow t w (r ++ '\n' :: v) := by
      apply hcuts.2.imp (Piece.stops_lineFeed r v) ht
      · rintro rfl
        exact absurd rfl (hopen _ (List.mem_cons_self ..))
      · intro hhead
        cases r with
        | nil =>
          refine .inr ?_
          intro hw
          apply hlast
          rw [List.append_nil, List.getLast?_append, hw]
          rfl
        | cons d r => exact .inl hhead
    have htail := ih (fun o ho => hopen o (List.mem_cons_of_mem _ ho)) hrest (by simpa using h')
    rw [show g ++ (w ++ r) ++ '\n' :: v = g ++ (w ++ (r ++ '\n' :: v)) by simp]
    exact .next hg ⟨hcuts.1, hfollow⟩ ht htail

/-! ### Text in front -/

/-- The occurrence with more text in front. -/
def Occurrence.behind (b : List Char) (o : Occurrence) : Occurrence :=
  { o with before := b ++ o.before }

theorem Reads.behind {u r : List Char} {xs : List Occurrence} (h : Reads u r xs) (b : List Char) :
    Reads (b ++ u) r (xs.map (Occurrence.behind b)) := by
  induction h with
  | done hg => exact .done hg
  | @next u g t w r xs hg hcuts ht _ ih =>
    rw [← List.append_assoc, ← List.append_assoc] at ih
    have hnext := Reads.next hg hcuts ht ih
    rwa [List.append_assoc] at hnext

/-- There is text from an occurrence on. -/
theorem Reads.length_before_lt {u r : List Char} {xs : List Occurrence} (h : Reads u r xs) :
    ∀ o ∈ xs, o.before.length < u.length + r.length := by
  induction h with
  | done _ => simp
  | @next u g t w r xs hg hcuts ht _ ih =>
    have hpos : 0 < w.length := List.length_pos_iff.mpr hcuts.1.ne_nil
    intro o ho
    simp only [List.length_append] at ih ⊢
    rcases List.mem_cons.mp ho with rfl | ho
    · simp only [List.length_append]
      omega
    · have := ih o ho
      omega

/-! ### Results further down -/

/-- The token `y` is `x`, but `n` lines further down. -/
def Token.Below (n : Nat) (x y : Token) : Prop :=
  y.kind = x.kind ∧ y.lexeme = x.lexeme ∧ x.position.Below n y.position

/-- The error `y` is `x`, but `n` lines further down. -/
def LexicalError.Below (n : Nat) (x y : LexicalError) : Prop :=
  y.cause = x.cause ∧ x.position.Below n y.position

/-- Lines in front move every token and error down. -/
theorem below_behind {v : List Char} {ys : List Occurrence}
    (hfit : ∀ o ∈ ys, (v ++ '\n' :: o.before).length + 1 < UInt32.size) :
    let zs := ys.map (Occurrence.behind (v ++ ['\n']))
    List.Forall₂ (Token.Below (1 + v.count '\n')) (ys.map Occurrence.token)
      (zs.map Occurrence.token) ∧
    List.Forall₂ (LexicalError.Below (1 + v.count '\n')) (ys.filterMap Occurrence.error?)
      (zs.filterMap Occurrence.error?) := by
  induction ys with
  | nil => exact ⟨.nil, .nil⟩
  | cons o ys ih =>
    have hbelow : o.position.Below (1 + v.count '\n') (o.behind (v ++ ['\n'])).position := by
      have := Position.below_after (hfit o (List.mem_cons_self ..))
      rwa [← List.singleton_append, ← List.append_assoc] at this
    obtain ⟨htokens, herrors⟩ := ih fun o ho => hfit o (List.mem_cons_of_mem _ ho)
    refine ⟨.cons ⟨rfl, rfl, hbelow⟩ htokens, ?_⟩
    simp only [List.map_cons, List.filterMap_cons, Occurrence.error?, Occurrence.behind,
      Occurrence.lexeme]
    cases o.tag.cause? (String.ofList o.text) with
    | none => exact herrors
    | some cause => exact .cons ⟨rfl, hbelow⟩ herrors

/-! ### Two texts with a line feed between them -/

theorem Occurrence.error?_of_openComment {o : Occurrence} (h : o.tag = .unterminatedBlockComment) :
    o.error? = some ⟨.unterminatedBlockComment, o.position⟩ := by
  rw [Occurrence.error?, h]
  rfl

/-- **Two texts with a line feed between them** are analyzed each on its own, unless the first one
ends in an open block comment, or in a carriage return, which would be a part of the line end. -/
theorem analyze_lineFeed {s t st : Source} {a : Analysis} (ha : s.analyze = .ok a)
    (hopen : ∀ e ∈ a.errors, e.cause ≠ .unterminatedBlockComment)
    (hlast : s.text.toList.getLast? ≠ some '\r') (htext : st.text = s.text ++ "\n" ++ t.text) :
    ∃ b c, t.analyze = .ok b ∧ st.analyze = .ok c ∧ ∃ tokens errors,
      c.tokens = a.tokens ++ tokens ∧
      List.Forall₂ (Token.Below (1 + s.text.toList.count '\n')) b.tokens tokens ∧
      c.errors = a.errors ++ errors ∧
      List.Forall₂ (LexicalError.Below (1 + s.text.toList.count '\n')) b.errors errors := by
  obtain ⟨xs, hxs⟩ := exists_reads [] s.text.toList
  obtain ⟨ys, hys⟩ := exists_reads [] t.text.toList
  rw [Source.analyze_of_reads hxs] at ha
  cases ha
  have hclosed : ∀ o ∈ xs, o.tag ≠ .unterminatedBlockComment := by
    intro o ho htag
    exact hopen _ (List.mem_filterMap.mpr ⟨o, ho, o.error?_of_openComment htag⟩) rfl
  have hlist : st.text.toList = s.text.toList ++ '\n' :: t.text.toList := by
    rw [htext, String.toList_append, String.toList_append]
    simp
  have hbehind := hys.behind (s.text.toList ++ ['\n'])
  rw [List.append_nil] at hbehind
  have hjoined := hxs.append_lineFeed hclosed hlast hbehind
  rw [← hlist] at hjoined
  have hfit : ∀ o ∈ ys, (s.text.toList ++ '\n' :: o.before).length + 1 < UInt32.size := by
    intro o ho
    have hbefore := hys.length_before_lt o ho
    have hbytes := length_le_byteLength st.text.toList
    have hsize : st.text.utf8ByteSize < UInt32.size := st.size_lt
    rw [utf8ByteSize_eq] at hsize
    simp only [hlist, List.length_append, List.length_cons, List.length_nil]
      at hbefore hbytes hsize ⊢
    omega
  obtain ⟨htokens, herrors⟩ := below_behind hfit
  refine ⟨_, _, Source.analyze_of_reads hys, Source.analyze_of_reads hjoined, _, _,
    List.map_append, htokens, List.filterMap_append, herrors⟩

/-- A number at the end of a line does not take its point and its fraction from two lines. -/
theorem analyze_lineFeed_point :
    let t : Source := ⟨"5", by decide⟩
    let st : Source := ⟨"1.\n5", by decide⟩
    ∃ b c, t.analyze = .ok b ∧ st.analyze = .ok c ∧ ∃ tokens errors,
      c.tokens = [⟨.integerLiteral, "1", ⟨1, 1⟩⟩, ⟨.error, ".", ⟨1, 2⟩⟩] ++ tokens ∧
      List.Forall₂ (Token.Below 1) b.tokens tokens ∧
      c.errors = [⟨.unrecognizedChar '.', ⟨1, 2⟩⟩] ++ errors ∧
      List.Forall₂ (LexicalError.Below 1) b.errors errors := by
  intro t st
  let s : Source := ⟨"1.", by decide⟩
  have hs : s.text.toList = ['1', '.'] := by decide
  have hpoint : Reads ['1'] ['.'] [⟨.unrecognizedChar, ['.'], ['1']⟩] := by
    refine .next (g := []) (w := ['.']) (r := []) gap_nil ⟨.unknown (.inr rfl), ?_⟩ rfl
      (.done gap_nil)
    intro hbang
    cases hbang
  have hreads : Reads [] ['1', '.'] [⟨.int, ['1'], []⟩, ⟨.unrecognizedChar, ['.'], ['1']⟩] := by
    exact .next (g := []) (w := ['1']) (r := ['.']) gap_nil
      ⟨.int rfl (by simp), Piece.stopsBefore_cons rfl _, rfl⟩ rfl hpoint
  have ha : s.analyze = .ok ⟨[⟨.integerLiteral, "1", ⟨1, 1⟩⟩, ⟨.error, ".", ⟨1, 2⟩⟩],
      [⟨.unrecognizedChar '.', ⟨1, 2⟩⟩]⟩ := Source.analyze_of_reads (hs ▸ hreads)
  have htext : st.text = s.text ++ "\n" ++ t.text := rfl
  have hjoined := analyze_lineFeed ha (by simp) (by decide) htext
  rwa [hs] at hjoined

end Lexico
