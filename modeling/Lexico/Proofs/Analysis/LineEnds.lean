import Lexico.Proofs.Scanner.Reading
import Lexico.Proofs.Segment.Follow
import Mathlib.Data.List.Forall2
import Mathlib.Data.List.Induction

/-!
# Line ends of two characters

A carriage return in front of a line feed is a part of the line end. In a text without carriage
returns, one may be put in front of every line feed: no token is made, lost or moved, and the lexemes
differ by carriage returns only. A line comment is the one token that goes as far as the line feed,
so it is the one that takes a carriage return of the line end along.
-/

namespace Lexico

open Piece (Shape Cuts Follow StopsBefore)

/-- The text with a carriage return in front of every line feed. -/
def withReturns (cs : List Char) : List Char :=
  cs.flatMap fun c => if c = '\n' then ['\r', '\n'] else [c]

/-- The text without its carriage returns. -/
def withoutReturns (cs : List Char) : List Char := cs.filter (· != '\r')

/-! ### Putting carriage returns in -/

@[simp] theorem withReturns_nil : withReturns [] = [] := rfl

@[simp] theorem withReturns_lineFeed (cs : List Char) :
    withReturns ('\n' :: cs) = '\r' :: '\n' :: withReturns cs := rfl

theorem withReturns_cons_of_ne {c : Char} (hc : c ≠ '\n') (cs : List Char) :
    withReturns (c :: cs) = c :: withReturns cs := by
  rw [withReturns, List.flatMap_cons, if_neg hc]
  rfl

@[simp] theorem withReturns_append (cs ds : List Char) :
    withReturns (cs ++ ds) = withReturns cs ++ withReturns ds := List.flatMap_append

theorem withReturns_of_not_mem {cs : List Char} (h : '\n' ∉ cs) : withReturns cs = cs := by
  induction cs with
  | nil => rfl
  | cons c cs ih =>
    rw [List.mem_cons, not_or] at h
    rw [withReturns_cons_of_ne (Ne.symm h.1), ih h.2]

@[simp] theorem withoutReturns_append (cs ds : List Char) :
    withoutReturns (cs ++ ds) = withoutReturns cs ++ withoutReturns ds := List.filter_append ..

/-- Only the carriage returns put in are taken out again. -/
theorem withoutReturns_withReturns {cs : List Char} (h : '\r' ∉ cs) :
    withoutReturns (withReturns cs) = cs := by
  induction cs with
  | nil => rfl
  | cons c cs ih =>
    rw [List.mem_cons, not_or] at h
    by_cases hc : c = '\n'
    · subst hc
      rw [withReturns_lineFeed]
      exact congrArg ('\n' :: ·) (ih h.2)
    · rw [withReturns_cons_of_ne hc, withoutReturns,
        List.filter_cons_of_pos (by simpa using Ne.symm h.1)]
      exact congrArg (c :: ·) (ih h.2)

/-- A text starts as before, or with a carriage return in front of its line feed. -/
theorem head_withReturns {c : Char} {r : List Char} (h : (withReturns r).head? = some c) :
    r.head? = some c ∧ c ≠ '\n' ∨ r.head? = some '\n' ∧ c = '\r' := by
  cases r with
  | nil => cases h
  | cons d r =>
    by_cases hd : d = '\n'
    · subst hd
      cases h
      exact .inr ⟨rfl, rfl⟩
    · rw [withReturns_cons_of_ne hd] at h
      cases h
      exact .inl ⟨rfl, hd⟩

theorem Gap.withReturns {g : List Char} (h : Gap g) : Gap (withReturns g) := by
  induction g with
  | nil => exact gap_nil
  | cons c g ih =>
    obtain ⟨hc, hg⟩ := gap_cons.mp h
    by_cases hlf : c = '\n'
    · subst hlf
      rw [withReturns_lineFeed, gap_cons, gap_cons]
      exact ⟨rfl, rfl, ih hg⟩
    · rw [withReturns_cons_of_ne hlf, gap_cons]
      exact ⟨hc, ih hg⟩

/-- A carriage return in front of a line feed is in no line's way. -/
theorem Position.after_withReturns (u : List Char) :
    Position.after (withReturns u) = .after u := by
  -- Both the number of line feeds and the last line are kept by one more character at the end.
  have hboth : (withReturns u).count '\n' = u.count '\n' ∧
      lastLine (withReturns u) = lastLine u := by
    induction u using List.reverseRecOn with
    | nil => exact ⟨rfl, rfl⟩
    | append_singleton u c ih =>
      obtain ⟨hcount, hlast⟩ := ih
      rw [withReturns_append, List.count_append, List.count_append, hcount]
      by_cases hc : c = '\n'
      · subst hc
        rw [withReturns_lineFeed, lastLine_append_of_mem (by simp),
          lastLine_append_of_mem (by simp)]
        exact ⟨rfl, rfl⟩
      · have hnot : '\n' ∉ [c] := by simpa using Ne.symm hc
        rw [withReturns_of_not_mem hnot, lastLine_append_of_not_mem hnot,
          lastLine_append_of_not_mem hnot, hlast]
        exact ⟨rfl, rfl⟩
  rw [after_eq, after_eq, hboth.1, hboth.2]

/-! ### Pieces -/

/-- A token with a line feed in it is a block comment. -/
theorem Piece.Shape.lineFeed_not_mem {t : Tag} {w : List Char} (h : Shape t w)
    (ht : t.isTrivia = false) (hclosed : t ≠ .blockComment) (hopen : t ≠ .unterminatedBlockComment) :
    '\n' ∉ w := by
  have hclass {q : Char → Bool} {v : List Char} (hv : ∀ x ∈ v, q x = true)
      (hq : q '\n' = false) : '\n' ∉ v := by
    intro hmem
    rw [hv _ hmem] at hq
    cases hq
  cases h with
  | blanks | loneReturn | lineFeed | returnLineFeed => cases ht
  | word hc hw =>
    rw [List.mem_cons, not_or]
    refine ⟨?_, hclass hw rfl⟩
    rintro rfl
    cases hc
  | int hc hw => exact hclass (List.forall_mem_cons.mpr ⟨hc, hw⟩) rfl
  | decimal hc hw hd hv =>
    have hwhole := hclass (List.forall_mem_cons.mpr ⟨hc, hw⟩) rfl
    have hdigits := hclass (List.forall_mem_cons.mpr ⟨hd, hv⟩) rfl
    intro hmem
    rcases List.mem_append.mp hmem with hmem | hmem
    · exact hwhole hmem
    rcases List.mem_cons.mp hmem with hpoint | hmem
    · cases hpoint
    · exact hdigits hmem
  | literal hw _ => simpa using hw.lineFeed_not_mem
  | openLiteral hw => simpa using hw.lineFeed_not_mem
  | lineComment hw => simpa using hw
  | blockComment => exact absurd rfl hclosed
  | openComment => exact absurd rfl hopen
  | spelled h =>
    cases t <;> simp only [Tag.spelling?, Option.some.injEq, reduceCtorEq] at h <;> subst h <;>
      decide
  | @unknown c h =>
    rw [List.mem_singleton]
    rintro rfl
    rcases h with h | h <;> cases h
  | bang => decide

theorem withReturns_stopsBefore {q : Char → Bool} {r : List Char} (h : StopsBefore q r)
    (hq : q '\r' = false) : StopsBefore q (withReturns r) := by
  intro c hc
  rcases head_withReturns hc with ⟨hhead, -⟩ | ⟨-, rfl⟩
  · exact h c hhead
  · exact hq

/-- A point and a digit behind it are no line ends, so they stood there before. -/
theorem Piece.fraction_withReturns {r : List Char} (h : Piece.fraction r = []) :
    Piece.fraction (withReturns r) = [] := by
  rw [fraction_eq_nil_iff] at h ⊢
  intro d v htext
  obtain ⟨hpoint, -⟩ | ⟨-, hreturn⟩ := head_withReturns (congrArg List.head? htext)
  · obtain ⟨r, rfl⟩ := List.head?_eq_some_iff.mp hpoint
    rw [withReturns_cons_of_ne (by decide), List.cons.injEq] at htext
    rcases head_withReturns (congrArg List.head? htext.2) with ⟨hdigit, -⟩ | ⟨-, rfl⟩
    · obtain ⟨r, rfl⟩ := List.head?_eq_some_iff.mp hdigit
      exact h d r rfl
    · rfl
  · cases hreturn

/-- A line that ends with a line feed ends with a carriage return and a line feed. -/
theorem Piece.lineEnds_withReturns {r : List Char} (h : Piece.lineEnds r = true) (hr : '\r' ∉ r) :
    Piece.lineEnds (withReturns r) = true := by
  cases r with
  | nil => rfl
  | cons c r =>
    have hreturn : c ≠ '\r' := by
      rintro rfl
      exact hr (List.mem_cons_self ..)
    simp only [Piece.lineEnds, Bool.or_eq_true, Bool.and_eq_true, beq_iff_eq, hreturn,
      false_and, or_false] at h
    subst h
    rfl

/-- What may stand behind a token may do so with line ends of two characters. A line comment goes up
to the line feed, so it is left out here. -/
theorem Piece.Follow.withReturns {t : Tag} {w r : List Char} (h : Follow t w r)
    (ht : t.isTrivia = false) (hline : t ≠ .lineComment) (hr : '\r' ∉ r) :
    Follow t w (withReturns r) := by
  have hhead {c : Char} (hne : r.head? ≠ some c) (hc : c ≠ '\r') :
      (Lexico.withReturns r).head? ≠ some c := by
    intro hsome
    rcases head_withReturns hsome with ⟨hsame, -⟩ | ⟨-, hreturn⟩
    · exact hne hsame
    · exact hc hreturn
  cases t with
  | whitespace | newline => cases ht
  | ident => exact withReturns_stopsBefore h rfl
  | int => exact ⟨withReturns_stopsBefore h.1 rfl, fraction_withReturns h.2⟩
  | decimal => exact withReturns_stopsBefore h rfl
  | slash => exact ⟨hhead h.1 (by decide), hhead h.2 (by decide)⟩
  | equal | less | greater => exact hhead h (by decide)
  | unrecognizedChar =>
    intro hbang
    exact hhead (h hbang) (by decide)
  | unterminatedString =>
    refine ⟨lineEnds_withReturns h.1 hr, ?_⟩
    intro hfeed
    rcases head_withReturns hfeed with ⟨-, hne⟩ | ⟨-, hreturn⟩
    · exact absurd rfl hne
    · cases hreturn
  | lineComment => exact absurd rfl hline
  | unterminatedBlockComment =>
    have hnil : r = [] := h
    subst hnil
    rfl
  | _ => trivial

/-- No star and slash come together, or apart, where carriage returns are put in. -/
theorem infix_withReturns {v w : List Char} (hw : '\r' ∉ w) (hv : withoutReturns v = v)
    (h : v <:+: withReturns w) : v <:+: w := by
  have := h.filter (· != '\r')
  rwa [← withoutReturns, ← withoutReturns, hv, withoutReturns_withReturns hw] at this

theorem Piece.Shape.withReturns {t : Tag} {w : List Char} (h : Shape t w)
    (ht : t.isTrivia = false) (hw : '\r' ∉ w) : Shape t (withReturns w) := by
  by_cases hclosed : t = .blockComment
  · subst hclosed
    cases h with
    | @blockComment w hend =>
      have hinner : '\r' ∉ w ++ ['*'] := by
        intro hmem
        rcases List.mem_append.mp hmem with hmem | hmem
        · exact hw (by simp [hmem])
        · cases List.mem_singleton.mp hmem
      have htext : Lexico.withReturns ('/' :: '*' :: w ++ ['*', '/']) =
          '/' :: '*' :: Lexico.withReturns w ++ ['*', '/'] := by
        rw [withReturns_append, withReturns_cons_of_ne (by decide),
          withReturns_cons_of_ne (by decide)]
        rfl
      rw [htext]
      apply Shape.blockComment
      intro hinfix
      apply hend
      apply infix_withReturns hinner rfl
      rw [withReturns_append]
      exact hinfix
    | spelled h => cases h
  by_cases hopen : t = .unterminatedBlockComment
  · subst hopen
    cases h with
    | @openComment w hend =>
      have hinner : '\r' ∉ w := by
        intro hmem
        exact hw (by simp [hmem])
      rw [withReturns_cons_of_ne (by decide), withReturns_cons_of_ne (by decide)]
      apply Shape.openComment
      intro hinfix
      exact hend (infix_withReturns hinner rfl hinfix)
    | spelled h => cases h
  · rwa [withReturns_of_not_mem (h.lineFeed_not_mem ht hclosed hopen)]

/-! ### Occurrences -/

/-- The occurrence `y` is `x` in the text with a carriage return in front of every line feed. -/
structure Occurrence.WithReturns (x y : Occurrence) : Prop where
  kind : y.kind = x.kind
  cause : y.tag.cause? y.lexeme = x.tag.cause? x.lexeme
  before : y.before = withReturns x.before
  text : withoutReturns y.text = x.text

/-- What a token with carriage returns put in is cut from. -/
theorem Piece.Cuts.withReturns {t : Tag} {w r : List Char} (h : Cuts t w r)
    (ht : t.isTrivia = false) (hw : '\r' ∉ w) (hr : '\r' ∉ r)
    (hline : t = .lineComment → r = []) : Cuts t (withReturns w) (withReturns r) := by
  refine ⟨h.1.withReturns ht hw, ?_⟩
  by_cases hcomment : t = .lineComment
  · subst hcomment
    rw [hline rfl]
    exact .inl rfl
  by_cases hclosed : t = .blockComment
  · subst hclosed
    trivial
  by_cases hopen : t = .unterminatedBlockComment
  · subst hopen
    exact h.2.withReturns ht hcomment hr
  · rw [withReturns_of_not_mem (h.1.lineFeed_not_mem ht hclosed hopen)]
    exact h.2.withReturns ht hcomment hr

/-- Only the text of a comment has line feeds in it, and there it is not looked at. -/
theorem Piece.Shape.reading_withReturns {t : Tag} {w : List Char} (h : Shape t w)
    (ht : t.isTrivia = false) :
    t.kind? (String.ofList (Lexico.withReturns w)) = t.kind? (String.ofList w) ∧
      t.cause? (String.ofList (Lexico.withReturns w)) = t.cause? (String.ofList w) := by
  by_cases hclosed : t = .blockComment
  · subst hclosed
    exact ⟨rfl, rfl⟩
  by_cases hopen : t = .unterminatedBlockComment
  · subst hopen
    exact ⟨rfl, rfl⟩
  · rw [withReturns_of_not_mem (h.lineFeed_not_mem ht hclosed hopen)]
    exact ⟨rfl, rfl⟩

/-- A line comment may have a carriage return at its end. -/
theorem Piece.Shape.lineComment_return {w : List Char} (h : Shape .lineComment w) :
    Lexico.withReturns w = w ∧ Shape .lineComment (w ++ ['\r']) := by
  cases h with
  | spelled h => cases h
  | @lineComment w hlf =>
    have hnot : '\n' ∉ '/' :: '/' :: w := by simpa using hlf
    refine ⟨withReturns_of_not_mem hnot, ?_⟩
    show Shape .lineComment ('/' :: '/' :: (w ++ ['\r']))
    apply Shape.lineComment
    simpa using hlf

/-- Each occurrence is found again in the text with line ends of two characters. -/
theorem Reads.withReturns {u r : List Char} {xs : List Occurrence} (h : Reads u r xs)
    (hr : '\r' ∉ r) :
    ∃ ys, Reads (withReturns u) (withReturns r) ys ∧ List.Forall₂ Occurrence.WithReturns xs ys := by
  induction h with
  | done hg => exact ⟨[], .done hg.withReturns, .nil⟩
  | @next u g t w r xs hg hcuts ht hxs ih =>
    simp only [List.mem_append, not_or] at hr
    obtain ⟨-, hw, hr⟩ := hr
    obtain ⟨ys, hys, hsame⟩ := ih hr
    simp only [withReturns_append] at hys ⊢
    by_cases hline : t = .lineComment ∧ r.head? = some '\n'
    · -- The comment goes up to the line feed, with the carriage return that is now in front of it.
      obtain ⟨rfl, hhead⟩ := hline
      obtain ⟨v, rfl⟩ := List.head?_eq_some_iff.mp hhead
      obtain ⟨hplain, hshape⟩ := hcuts.1.lineComment_return
      have hcut : Cuts .lineComment (w ++ ['\r']) ('\n' :: Lexico.withReturns v) :=
        ⟨hshape, .inr rfl⟩
      rw [hplain, withReturns_lineFeed] at hys ⊢
      have hrest : Reads (Lexico.withReturns u ++ Lexico.withReturns g ++ (w ++ ['\r']))
          ('\n' :: Lexico.withReturns v) ys := by
        rw [← List.append_assoc]
        exact hys.of_gap (g := ['\r']) (by simp [Text.isSeparator])
      have htext : w ++ '\r' :: '\n' :: Lexico.withReturns v =
          w ++ ['\r'] ++ '\n' :: Lexico.withReturns v := by
        simp
      rw [htext]
      refine ⟨_, .next hg.withReturns hcut rfl hrest, .cons ⟨rfl, rfl, ?_, ?_⟩ hsame⟩
      · exact (withReturns_append u g).symm
      · show withoutReturns (w ++ ['\r']) = w
        rw [withoutReturns_append, withoutReturns, List.filter_eq_self.mpr]
        · exact List.append_nil w
        · intro c hc
          simpa using ne_of_mem_of_not_mem hc hw
    · have hcut := hcuts.withReturns ht hw hr (by
        rintro rfl
        rcases hcuts.2 with hnil | hhead
        · exact hnil
        · exact absurd ⟨rfl, hhead⟩ hline)
      obtain ⟨hkind, hcause⟩ := hcuts.1.reading_withReturns ht
      refine ⟨_, .next hg.withReturns hcut ht hys, .cons ⟨?_, hcause, ?_, ?_⟩ hsame⟩
      · exact congrArg (·.getD .error) hkind
      · exact (withReturns_append u g).symm
      · exact withoutReturns_withReturns hw

/-! ### The analysis -/

/-- The token `y` is `x` in the text with a carriage return in front of every line feed. -/
def Token.WithReturns (x y : Token) : Prop :=
  y.kind = x.kind ∧ withoutReturns y.lexeme.toList = x.lexeme.toList ∧ y.position = x.position

theorem Occurrence.WithReturns.token {x y : Occurrence} (h : x.WithReturns y) :
    x.token.WithReturns y.token := by
  refine ⟨h.kind, ?_, ?_⟩
  · show withoutReturns y.lexeme.toList = x.lexeme.toList
    rw [lexeme, lexeme, String.toList_ofList, String.toList_ofList, h.text]
  · show Position.after y.before = .after x.before
    rw [h.before, Position.after_withReturns]

theorem Occurrence.WithReturns.error? {x y : Occurrence} (h : x.WithReturns y) :
    y.error? = x.error? := by
  rw [Occurrence.error?, Occurrence.error?, h.cause, position, position, h.before,
    Position.after_withReturns]

/-- **Line ends of two characters** change nothing but the carriage returns in comments: in a text
without carriage returns, one may be put in front of every line feed. -/
theorem analyze_withReturns {s s' : Source} (hs : '\r' ∉ s.text.toList)
    (htext : s'.text.toList = withReturns s.text.toList) :
    ∃ a a', s.analyze = .ok a ∧ s'.analyze = .ok a' ∧
      List.Forall₂ Token.WithReturns a.tokens a'.tokens ∧ a'.errors = a.errors := by
  obtain ⟨xs, hxs⟩ := exists_reads [] s.text.toList
  obtain ⟨ys, hys, hsame⟩ := hxs.withReturns hs
  rw [withReturns_nil, ← htext] at hys
  refine ⟨_, _, Source.analyze_of_reads hxs, Source.analyze_of_reads hys, ?_, ?_⟩
  · rw [List.forall₂_map_left_iff, List.forall₂_map_right_iff]
    exact hsame.imp fun _ _ h => h.token
  · show ys.filterMap Occurrence.error? = xs.filterMap Occurrence.error?
    clear hxs hys
    induction hsame with
    | nil => rfl
    | cons h _ ih => rw [List.filterMap_cons, List.filterMap_cons, h.error?, ih]

/-- A comment takes the carriage return of its line end along, an open literal does not. -/
theorem analyze_withReturns_comment :
    let s : Source := ⟨"//a\n\"b\\\n/*\n", by decide⟩
    let s' : Source := ⟨"//a\r\n\"b\\\r\n/*\r\n", by decide⟩
    ('\r' ∉ s.text.toList ∧ s'.text.toList = withReturns s.text.toList) ∧
      ∃ a a', s.analyze = .ok a ∧ s'.analyze = .ok a' ∧
        List.Forall₂ Token.WithReturns a.tokens a'.tokens ∧ a'.errors = a.errors := by
  intro s s'
  have hs : '\r' ∉ s.text.toList := by decide
  have htext : s'.text.toList = withReturns s.text.toList := by decide
  exact ⟨⟨hs, htext⟩, analyze_withReturns hs htext⟩

end Lexico
