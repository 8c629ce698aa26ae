import Lexico.Analysis
import Lexico.Proofs.Scanner.Occurrence
import Lexico.Proofs.Segment.Segmented

/-!
# What a scanner reads

`s.scanner u log` is the scanner that has read the leading characters `u` of the text of `s`, with
the given errors recorded. A turn takes it over the next piece, a token over the next occurrence,
and reading to the end over all of them:

    analyze_of_reads : Reads [] s.text.toList xs →
      s.analyze = .ok ⟨xs.map Occurrence.token, xs.filterMap Occurrence.error?⟩

Nothing faults on the way. What holds of the tokens and errors of a source is from here on a fact
about `Reads`.
-/

namespace Lexico

open Piece (Shape Cuts StopsBefore)

/-- The scanner that has read the leading characters `u` of the text. -/
def Source.scanner (s : Source) (u : List Char) (log : List LexicalError) : Scanner :=
  ⟨.ofSource s, byteLength u, .after u, log⟩

/-- The step that reads the token of an occurrence. -/
def Occurrence.step (o : Occurrence) (s : Source) (log : List LexicalError) : Scanner.Step :=
  ⟨o.token, s.scanner (o.before ++ o.text) (o.error?.toList ++ log), o.events⟩

/-- The spelling of an operator is its text. -/
theorem Piece.Shape.eq_of_spelling {t : Tag} {w : List Char} {text : String} (h : Shape t w)
    (ht : t.spelling? = some text) : text = String.ofList w := by
  cases h with
  | spelled h =>
    rw [h, Option.some.injEq] at ht
    rw [← ht, String.ofList_toList]
  | _ => cases ht

namespace Scanner

variable {s : Source} {u g w r : List Char} {t : Tag} {log : List LexicalError}

theorem ofSource_eq (s : Source) : Scanner.ofSource s = s.scanner [] [] := by
  rw [Source.scanner, Position.after_nil, byteLength_nil]
  rfl

/-! ### Turns -/

theorem lexeme_of_shape (h : s.text.toList = u ++ (w ++ r)) (hshape : Shape t w) :
    (s.scanner u log).lexeme (Piece.segment ⟨t, w⟩) = String.ofList w := by
  rw [lexeme]
  split
  · next text ht => exact hshape.eq_of_spelling ht
  · exact shown_of_toList h

theorem pass_scanner :
    (s.scanner u log).pass (Piece.segment ⟨t, w⟩) (String.ofList w) = s.scanner (u ++ w) log := by
  simp only [pass, Source.scanner, Piece.segment, Position.advanceOver_after, byteLength_append]

theorem stepAt_scanner :
    (s.scanner u log).stepAt (Piece.segment ⟨t, w⟩) (String.ofList w) (Occurrence.kind ⟨t, w, u⟩) =
      Occurrence.step ⟨t, w, u⟩ s log := by
  rw [stepAt, pass_scanner]
  simp only [Piece.segment, Occurrence.step, Occurrence.events, Occurrence.error?,
    Occurrence.lexeme]
  cases t.cause? (String.ofList w) <;> rfl

theorem turn_of_nil (h : s.text.toList = u) : (s.scanner u log).turn = .ok .finished := by
  have hcursor := Cursor.cursorAt_after (r := []) (by rw [h, List.append_nil])
  rw [turn, Source.scanner, hcursor, Cursor.nextSegment_nil h]
  rfl

theorem turn_of_cuts (h : s.text.toList = u ++ (w ++ r)) (hcuts : Cuts t w r) :
    (s.scanner u log).turn =
      match t.kind? (String.ofList w) with
      | none => .ok (.skipped (s.scanner (u ++ w) log))
      | some kind => .ok (.found
        ((s.scanner u log).stepAt (Piece.segment ⟨t, w⟩) (String.ofList w) kind)) := by
  have hnext : ((s.scanner u log).buffer.cursorAt (s.scanner u log).offset).nextSegment =
      .ok (Piece.segment ⟨t, w⟩, s.after (u ++ w)) := by
    rw [Source.scanner, Cursor.cursorAt_after h, Cursor.nextSegment_of_cuts h hcuts]
  have htag : ¬ (Piece.segment ⟨t, w⟩).tag = .eof := hcuts.1.ne_eof
  have hfits : ¬ offsetLimit ≤ (s.scanner u log).offset + (Piece.segment ⟨t, w⟩).len := by
    have hlt := lt_offsetLimit_of_toList h
    rw [byteLength_append] at hlt
    show ¬ offsetLimit ≤ byteLength u + byteLength w
    omega
  rw [turn, hnext, Fault.ok_bind]
  simp only [htag, hfits, if_false]
  rw [lexeme_of_shape h hcuts.1, pass_scanner]
  rfl

/-- A turn goes over a piece that stands for no token. -/
theorem turn_of_trivia (h : s.text.toList = u ++ (w ++ r)) (hcuts : Cuts t w r)
    (ht : t.isTrivia = true) :
    (s.scanner u log).turn = .ok (.skipped (s.scanner (u ++ w) log)) := by
  rw [turn_of_cuts h hcuts, Tag.kind?_eq_none_iff.mpr (.inl ht)]

/-- A turn finds the token of any other piece. -/
theorem turn_of_token (h : s.text.toList = u ++ (w ++ r)) (hcuts : Cuts t w r)
    (ht : t.isTrivia = false) :
    (s.scanner u log).turn = .ok (.found (Occurrence.step ⟨t, w, u⟩ s log)) := by
  have hkind : t.kind? (String.ofList w) = some (Occurrence.kind ⟨t, w, u⟩) :=
    Occurrence.kind?_eq (o := ⟨t, w, u⟩) ht hcuts.1.ne_eof
  rw [turn_of_cuts h hcuts, hkind]
  exact congrArg (fun step => Except.ok (Turn.found step)) stepAt_scanner

/-! ### Tokens -/

theorem nextToken_of_finished {c : Scanner} (h : c.turn = .ok .finished) :
    c.nextToken = .ok ⟨.endAt c.position, c, []⟩ := by
  rw [nextToken]
  split
  · next h' => rw [h] at h'; cases h'
  · rfl
  · next h' => rw [h] at h'; cases h'
  · next h' => rw [h] at h'; cases h'

theorem nextToken_of_found {c : Scanner} {step : Step} (h : c.turn = .ok (.found step)) :
    c.nextToken = .ok step := by
  rw [nextToken]
  split
  · next h' => rw [h] at h'; cases h'
  · next h' => rw [h] at h'; cases h'
  · next h' => rw [h] at h'; cases h'; rfl
  · next h' => rw [h] at h'; cases h'

theorem nextToken_of_skipped {c d : Scanner} (h : c.turn = .ok (.skipped d)) :
    c.nextToken = d.nextToken := by
  rw [nextToken]
  split
  · next h' => rw [h] at h'; cases h'
  · next h' => rw [h] at h'; cases h'
  · next h' => rw [h] at h'; cases h'
  · next h' => rw [h] at h'; cases h'; rfl

/-- A gap is passed over, however it is cut. -/
theorem nextToken_gap (h : s.text.toList = u ++ (g ++ r)) (hg : Gap g)
    (hr : StopsBefore Text.isSeparator r) :
    (s.scanner u log).nextToken = (s.scanner (u ++ g) log).nextToken := by
  induction hn : g.length using Nat.strongRecOn generalizing u g with
  | ind n ih =>
    by_cases hnil : g = []
    · rw [hnil, List.append_nil]
    · have hne : g ++ r ≠ [] := by
        intro hempty
        exact hnil (List.append_eq_nil_iff.mp hempty).1
      obtain ⟨t, w, r', htext, hcuts⟩ := Piece.exists_cuts hne
      have ht : t.isTrivia = true := by
        rw [← Bool.not_eq_false]
        intro ht
        obtain ⟨c, v, rfl, hc⟩ := hcuts.1.head ht
        obtain ⟨d, g, rfl⟩ := List.exists_cons_of_ne_nil hnil
        rw [List.cons_append, List.cons_append, List.cons.injEq] at htext
        rw [← htext.1, (gap_cons.mp hg).1] at hc
        cases hc
      -- The piece is the gap or the front of it: behind the gap there is no separator.
      have hgap : g = w ++ r'.takeWhile Text.isSeparator := by
        rw [← Piece.takeWhile_run hg hr, htext, List.takeWhile_append_of_pos (hcuts.1.gap ht)]
      have hsame : w ++ r' = w ++ (r'.takeWhile Text.isSeparator ++ r) := by
        rw [← htext, ← List.append_assoc, ← hgap]
      have hrest := List.append_cancel_left hsame
      have hpos : 0 < w.length := List.length_pos_iff.mpr hcuts.1.ne_nil
      have hlen : (r'.takeWhile Text.isSeparator).length < n := by
        rw [← hn, hgap, List.length_append]
        omega
      rw [htext] at h
      rw [nextToken_of_skipped (turn_of_trivia h hcuts ht), ih _ hlen _ _ rfl, List.append_assoc,
        ← hgap]
      · rw [h, List.append_assoc, ← hrest]
      · exact fun _ => List.mem_takeWhile_imp

/-- The next token is that of the next occurrence. -/
theorem nextToken_of_reads {o : Occurrence} {xs : List Occurrence} (h : s.text.toList = u ++ r)
    (hr : Reads u r (o :: xs)) (log : List LexicalError) :
    ∃ r', (s.scanner u log).nextToken = .ok (o.step s log) ∧
      s.text.toList = o.before ++ o.text ++ r' ∧ Reads (o.before ++ o.text) r' xs := by
  cases hr with
  | @next _ g t w r xs hg hcuts ht hxs =>
    have hbehind : s.text.toList = u ++ g ++ (w ++ r) := by rw [h, List.append_assoc]
    refine ⟨r, ?_, ?_, hxs⟩
    · rw [nextToken_gap h hg (Piece.stopsBefore_of_cuts hcuts ht),
        nextToken_of_found (turn_of_token hbehind hcuts ht)]
    · rw [h]
      simp

/-- Behind the last occurrence comes the end token. -/
theorem nextToken_of_reads_nil (h : s.text.toList = u ++ r) (hr : Reads u r []) :
    (s.scanner u log).nextToken =
      .ok ⟨.endAt (.after (u ++ r)), s.scanner (u ++ r) log, []⟩ := by
  cases hr with
  | done hg =>
    have hgap : s.text.toList = u ++ (r ++ []) := by rw [h, List.append_nil]
    rw [nextToken_gap hgap hg Piece.stopsBefore_nil, nextToken_of_finished (turn_of_nil h)]
    rfl

/-! ### All tokens -/

theorem Reading.finish_of_eof {m : Reading} {step : Step} (h : m.scanner.nextToken = .ok step)
    (he : step.token.isEof = true) : m.finish = .ok ⟨m.tokens, m.events, step.scanner⟩ := by
  rw [finish]
  split
  · next h' => rw [h] at h'; cases h'
  · next h' => rw [h] at h'; cases h'; rw [dif_pos he]

theorem Reading.finish_of_token {m : Reading} {step : Step} (h : m.scanner.nextToken = .ok step)
    (he : step.token.isEof = false) : m.finish = (m.add step).finish := by
  rw [finish]
  split
  · next h' => rw [h] at h'; cases h'
  · next h' => rw [h] at h'; cases h'; rw [dif_neg (by rw [he]; exact Bool.false_ne_true)]

theorem isEof_token (o : Occurrence) : o.token.isEof = false := by
  simp [Token.isEof, Occurrence.token, o.kind_ne_eof]

/-- Reading to the end collects all occurrences. -/
theorem finish_of_reads {xs : List Occurrence} (hr : Reads u r xs) (h : s.text.toList = u ++ r)
    (log : List LexicalError) (tokens : Array Token) (events : Array Event) :
    Reading.finish ⟨tokens, events, s.scanner u log⟩ =
      .ok ⟨tokens ++ xs.map Occurrence.token, events ++ xs.flatMap Occurrence.events,
        s.scanner s.text.toList ((xs.filterMap Occurrence.error?).reverse ++ log)⟩ := by
  induction xs generalizing u r log tokens events with
  | nil =>
    rw [Reading.finish_of_eof (nextToken_of_reads_nil h hr) rfl, h]
    simp
  | cons o xs ih =>
    obtain ⟨r', hnext, htext, hxs⟩ := nextToken_of_reads h hr log
    rw [Reading.finish_of_token hnext (isEof_token o), Reading.add, Occurrence.step]
    show Reading.finish ⟨tokens.push o.token, events ++ o.events, _⟩ = _
    rw [ih hxs htext]
    have hevents : events ++ o.events ++ xs.flatMap Occurrence.events =
        events ++ (o :: xs).flatMap Occurrence.events := by
      apply Array.toList_inj.mp
      simp
    rw [hevents]
    cases herr : o.error? <;> simp [herr]

end Scanner

/-- Reading a source to its end lists its occurrences and logs them, and then their numbers. -/
theorem Analysis.run_of_reads {s : Source} {xs : List Occurrence}
    (h : Reads [] s.text.toList xs) :
    run s = .ok (⟨xs.map Occurrence.token, xs.filterMap Occurrence.error?⟩,
      xs.flatMap Occurrence.events ++
        [.analysisComplete xs.length (xs.filterMap Occurrence.error?).length]) := by
  have hfinish := Scanner.finish_of_reads h rfl [] #[] #[]
  have hstart : Scanner.ofText s.text = s.scanner [] [] := Scanner.ofSource_eq s
  rw [run, runText, Scanner.collect, hstart, hfinish]
  simp [Source.scanner, Scanner.errors]

/-- **The analysis of a source** lists its occurrences. -/
theorem Source.analyze_of_reads {s : Source} {xs : List Occurrence}
    (h : Reads [] s.text.toList xs) :
    s.analyze = .ok ⟨xs.map Occurrence.token, xs.filterMap Occurrence.error?⟩ := by
  rw [analyze, Analysis.run_of_reads h]
  rfl

theorem Source.trace_of_reads {s : Source} {xs : List Occurrence}
    (h : Reads [] s.text.toList xs) :
    s.trace = .ok (xs.flatMap Occurrence.events ++
      [.analysisComplete xs.length (xs.filterMap Occurrence.error?).length]) := by
  rw [trace, Analysis.run_of_reads h]
  rfl

end Lexico
