import Lexico.Proofs.Scanner.Reading

/-!
# The history of a scanner

A scanner has no memory of the tokens it has returned, but they determine where it stands: the text
that they and the gaps before them take up is behind it. What it has recorded is what is wrong with
those of them that are errors, and a token tells that by its lexeme (`Token.diagnostic?`).

`s.Progress xs ts u` says that the tokens `ts`, of which the last ones may be end tokens, are behind
a scanner that stands behind the text `u`. It holds at the start, and a token keeps it; so does
whatever reads many tokens.
-/

namespace Lexico

open Piece (Shape Cuts)

/-! ### What is wrong with a token -/

/-- What is wrong with a text that no token has: its first characters tell. -/
def LexicalError.Cause.of? : List Char → Option LexicalError.Cause
  | [] => none
  | '"' :: _ => some .unterminatedString
  | '/' :: '*' :: _ => some .unterminatedBlockComment
  | c :: _ => some (.unrecognizedChar c)

/-- What is wrong with a token. -/
def Token.cause? (t : Token) : Option LexicalError.Cause :=
  if t.isError then LexicalError.Cause.of? t.lexeme.toList else none

/-- The error that is recorded for a token. -/
def Token.diagnostic? (t : Token) : Option LexicalError := t.cause?.map (⟨·, t.position⟩)

/-- The text of an error tag tells the tag. -/
theorem Piece.Shape.cause?_eq {t : Tag} {w : List Char} (h : Shape t w) (he : t.isError = true) :
    t.cause? (String.ofList w) = LexicalError.Cause.of? w := by
  cases h with
  | openLiteral | openComment | bang => rfl
  | @unknown c hc =>
    have hquote : c ≠ '"' := by
      rintro rfl
      rcases hc with hc | hc <;> cases hc
    have hof : LexicalError.Cause.of? [c] = some (.unrecognizedChar c) := by
      simp [LexicalError.Cause.of?]
    rw [hof, Tag.cause?, String.toList_ofList]
    rfl
  | spelled h => cases t <;> simp_all [Tag.isError, Tag.spelling?]
  | _ => cases he

namespace Occurrence

/-- The lexeme of a token tells what is wrong with it. -/
theorem cause?_token {o : Occurrence} (h : Shape o.tag o.text) (ht : o.tag.isTrivia = false) :
    o.token.cause? = o.tag.cause? o.lexeme := by
  rw [Token.cause?, isError_token ht h.ne_eof]
  cases he : o.tag.isError with
  | true =>
    show LexicalError.Cause.of? o.lexeme.toList = _
    rw [lexeme, String.toList_ofList, h.cause?_eq he]
  | false =>
    have hnone : (o.tag.cause? o.lexeme).isSome = false := by rw [Tag.isSome_cause?_iff, he]
    rw [Option.isSome_eq_false_iff, Option.isNone_iff_eq_none] at hnone
    rw [hnone, if_neg Bool.false_ne_true]

theorem diagnostic?_token {o : Occurrence} (h : Shape o.tag o.text) (ht : o.tag.isTrivia = false) :
    o.token.diagnostic? = o.error? := by
  rw [Token.diagnostic?, error?, cause?_token h ht]
  rfl

end Occurrence

/-! ### The text behind a scanner -/

/-- The token that stands for the end of a source. -/
def Source.endToken (s : Source) : Token := .endAt (Position.start.advanceOver s.text)

/-- The characters that tokens take up at the front of a text: each one has a gap before it, which
it takes along. -/
def Text.takenBy : List Token → List Char → List Char
  | [], _ => []
  | t :: ts, cs =>
    let lead := (cs.takeWhile Text.isSeparator).length + t.lexeme.toList.length
    cs.take lead ++ takenBy ts (cs.drop lead)

theorem Text.takenBy_append (ts ts' : List Token) (cs : List Char) :
    Text.takenBy (ts ++ ts') cs =
      Text.takenBy ts cs ++ Text.takenBy ts' (cs.drop (Text.takenBy ts cs).length) := by
  induction ts generalizing cs with
  | nil => rfl
  | cons t ts ih =>
    rw [List.cons_append, Text.takenBy, Text.takenBy, ih, List.append_assoc]
    generalize (cs.takeWhile Text.isSeparator).length + t.lexeme.toList.length = lead
    generalize Text.takenBy ts (cs.drop lead) = taken
    have hdrop : cs.drop (cs.take lead ++ taken).length = (cs.drop lead).drop taken.length := by
      rw [List.length_append, List.length_take, List.drop_drop]
      rcases Nat.le_total lead cs.length with hle | hle
      · rw [Nat.min_eq_left hle]
      · rw [Nat.min_eq_right hle, List.drop_of_length_le (by omega),
          List.drop_of_length_le (by omega)]
    rw [hdrop]

/-- A token takes up the gap before it and its lexeme. -/
theorem Reads.takenBy {u r : List Char} {o : Occurrence} {xs : List Occurrence}
    (h : Reads u r (o :: xs)) : u ++ Text.takenBy [o.token] r = o.before ++ o.text := by
  cases h with
  | @next _ g t w r xs hg hcuts ht _ =>
    have hlexeme : (Occurrence.token ⟨t, w, u ++ g⟩).lexeme.toList = w := String.toList_ofList
    rw [Text.takenBy, Piece.takeWhile_run hg (Piece.stopsBefore_of_cuts hcuts ht), hlexeme,
      ← List.length_append, ← List.append_assoc g, List.take_left]
    simp [Text.takenBy]

/-- The end token takes up the gap at the end. -/
theorem Reads.takenBy_end {u r : List Char} (h : Reads u r []) (p : Position) :
    Text.takenBy [.endAt p] r = r := by
  cases h with
  | done hg =>
    have hall := Piece.takeWhile_run hg (Piece.stopsBefore_nil)
    rw [List.append_nil] at hall
    rw [Text.takenBy, hall]
    simp [Text.takenBy, Token.endAt]

/-! ### How far a scanner is -/

/-- Of the occurrences `xs` in the source, with end tokens behind them, the tokens `ts` have been
returned by a scanner that stands behind the text `u`. -/
def Source.Progress (s : Source) (xs : List Occurrence) (ts : List Token) (u : List Char) : Prop :=
  ∃ done left r n, xs = done ++ left ∧ s.text.toList = u ++ r ∧ Reads u r left ∧
    ts = done.map Occurrence.token ++ List.replicate n s.endToken ∧ (n ≠ 0 → left = []) ∧
    u = Text.takenBy ts s.text.toList

theorem diagnostic?_endToken (s : Source) : s.endToken.diagnostic? = none := rfl

theorem Reads.diagnostic?_head {u r : List Char} {o : Occurrence} {xs : List Occurrence}
    (h : Reads u r (o :: xs)) : o.token.diagnostic? = o.error? := by
  cases h with
  | next _ hcuts ht _ => exact Occurrence.diagnostic?_token hcuts.1 ht

namespace Source.Progress

variable {s : Source} {xs : List Occurrence} {ts : List Token} {u : List Char}

theorem start (h : Reads [] s.text.toList xs) : s.Progress xs [] [] :=
  ⟨[], xs, _, 0, rfl, rfl, h, rfl, absurd rfl, rfl⟩

/-- What has been returned is an initial segment of the tokens with end tokens behind them. -/
theorem eq_take (h : s.Progress xs ts u) :
    ts = (xs.map Occurrence.token ++ List.replicate ts.length s.endToken).take ts.length := by
  obtain ⟨done, left, r, n, rfl, -, -, hts, hleft, -⟩ := h
  by_cases hn : n = 0
  · have hdone : ts = done.map Occurrence.token := by rw [hts, hn]; simp
    rw [List.map_append, ← hdone, List.append_assoc, List.take_left]
  · have hle : n ≤ ts.length := by rw [hts]; simp
    obtain ⟨k, hk⟩ := Nat.exists_eq_add_of_le hle
    rw [hleft hn, List.append_nil, hk, ← List.replicate_append_replicate, ← List.append_assoc,
      ← hts, ← hk, List.take_left]

/-- The text behind the scanner is what the tokens take up. -/
theorem takenBy_eq (h : s.Progress xs ts u) : Text.takenBy ts s.text.toList = u := by
  obtain ⟨_, _, _, _, -, -, -, -, -, hu⟩ := h
  exact hu.symm

/-- The text behind the scanner is text of the source. -/
theorem isPrefix (h : s.Progress xs ts u) : u <+: s.text.toList := by
  obtain ⟨_, _, r, _, -, htext, -, -, -, -⟩ := h
  exact ⟨r, htext.symm⟩

/-- A token that takes up the text from `u` on to `v` is one more. -/
theorem takenBy_snoc {r v : List Char} {t : Token} (htext : s.text.toList = u ++ r)
    (hu : u = Text.takenBy ts s.text.toList) (hv : u ++ Text.takenBy [t] r = v) :
    v = Text.takenBy (ts ++ [t]) s.text.toList := by
  rw [Text.takenBy_append, ← hu, htext, List.drop_left, hv]

/-- **The next token** is one of the text as long as there are any, and an end token from then on;
an error is recorded when its token is returned. -/
theorem nextToken (h : s.Progress xs ts u) (log : List LexicalError) :
    ∃ t v events, (s.scanner u log).nextToken =
        .ok ⟨t, s.scanner v (t.diagnostic?.toList ++ log), events⟩ ∧
      s.Progress xs (ts ++ [t]) v ∧
      (t.isEof = false ∧ ts.length < xs.length ∨ t = s.endToken ∧ xs.length ≤ ts.length) := by
  obtain ⟨done, left, r, n, rfl, htext, hleft, hts, hn, hu⟩ := h
  cases left with
  | nil =>
    have hnext : (s.scanner u log).nextToken = _ := Scanner.nextToken_of_reads_nil htext hleft
    have hend : Token.endAt (.after (u ++ r)) = s.endToken := by
      rw [← htext, Source.endToken, Position.after, String.ofList_toList]
    rw [hend] at hnext
    refine ⟨s.endToken, u ++ r, [], hnext, ⟨done, [], [], n + 1, rfl, ?_, .done gap_nil, ?_,
      fun _ => rfl, ?_⟩, .inr ⟨rfl, ?_⟩⟩
    · rw [htext, List.append_nil]
    · rw [hts, List.replicate_succ', List.append_assoc]
    · exact takenBy_snoc htext hu (congrArg (u ++ ·) (hleft.takenBy_end _))
    · rw [hts]
      simp
  | cons o left =>
    have hzero : n = 0 := by
      apply Decidable.byContradiction
      intro hne
      cases hn hne
    have hdone : ts = done.map Occurrence.token := by rw [hts, hzero]; simp
    obtain ⟨r', hnext, htext', hleft'⟩ := Scanner.nextToken_of_reads htext hleft log
    rw [Occurrence.step, ← hleft.diagnostic?_head] at hnext
    refine ⟨o.token, o.before ++ o.text, o.events, hnext, ⟨done ++ [o], left, r', 0, ?_, htext',
      hleft', ?_, absurd rfl, ?_⟩, .inl ⟨Scanner.isEof_token o, ?_⟩⟩
    · simp
    · rw [hdone]
      simp
    · exact takenBy_snoc htext hu hleft.takenBy
    · rw [hdone]
      simp

end Source.Progress

/-! ### Many tokens at once -/

/-- All that has been returned for a list of at most `n` tokens: an end token ended a shorter one. -/
def Source.seen (s : Source) (n : Nat) (ts : List Token) : List Token :=
  if ts.length < n then ts ++ [s.endToken] else ts

theorem Source.seen_cons (s : Source) (n : Nat) (t : Token) (ts : List Token) :
    s.seen (n + 1) (t :: ts) = t :: s.seen n ts := by
  simp only [Source.seen, List.length_cons, Nat.add_lt_add_iff_right]
  split <;> rfl

theorem Source.length_seen (s : Source) {n left : Nat} {ts : List Token}
    (h : ts.length = min n left) : (s.seen n ts).length = min n (left + 1) := by
  rw [Source.seen]
  split
  · rw [List.length_append, List.length_singleton]
    omega
  · omega

/-- Nothing is wrong with the end of a list. -/
theorem Source.diagnostics_seen (s : Source) (n : Nat) (ts : List Token) :
    (s.seen n ts).filterMap Token.diagnostic? = ts.filterMap Token.diagnostic? := by
  rw [Source.seen]
  split
  · rw [List.filterMap_append]
    exact List.append_nil _
  · rfl

theorem Scanner.Reading.goOn_of_eof {m : Reading} {step : Step} (n : Nat)
    (h : m.scanner.nextToken = .ok step) (he : step.token.isEof = true) :
    m.goOn (n + 1) = .ok ⟨m.tokens, m.events, step.scanner⟩ := by
  rw [goOn, h, Fault.ok_bind, if_pos he]
  rfl

theorem Scanner.Reading.goOn_of_token {m : Reading} {step : Step} (n : Nat)
    (h : m.scanner.nextToken = .ok step) (he : step.token.isEof = false) :
    m.goOn (n + 1) = (m.add step).goOn n := by
  rw [goOn, h, Fault.ok_bind, if_neg (by rw [he]; exact Bool.false_ne_true)]

namespace Source.Progress

open Scanner

variable {s : Source} {xs : List Occurrence} {ts : List Token} {u : List Char}

/-- **The next tokens**, at most `n` of them, are returned as one after the other is. -/
theorem goOn (h : s.Progress xs ts u) (n : Nat) (log : List LexicalError) (tokens : Array Token)
    (events : Array Event) :
    ∃ (new : List Token) (v : List Char) (events' : Array Event),
      Reading.goOn ⟨tokens, events, s.scanner u log⟩ n = .ok ⟨tokens ++ new, events',
        s.scanner v ((new.filterMap Token.diagnostic?).reverse ++ log)⟩ ∧
      s.Progress xs (ts ++ s.seen n new) v ∧ new.length = min n (xs.length - ts.length) := by
  induction n generalizing ts u log tokens events with
  | zero =>
    refine ⟨[], u, events, ?_, ?_, ?_⟩
    · simp [Reading.goOn]
    · simpa [seen] using h
    · simp
  | succ n ih =>
    obtain ⟨t, v, es, hnext, hprogress, ⟨hne, hlt⟩ | ⟨rfl, hle⟩⟩ := h.nextToken log
    · obtain ⟨new, v', events', hgoOn, hprogress', hlength⟩ :=
        ih hprogress (t.diagnostic?.toList ++ log) (tokens.push t) (events ++ es)
      refine ⟨t :: new, v', events', ?_, ?_, ?_⟩
      · rw [Reading.goOn_of_token n hnext hne, Reading.add, hgoOn]
        cases hdiag : t.diagnostic? <;> simp [hdiag]
      · rwa [seen_cons, ← List.singleton_append, ← List.append_assoc]
      · rw [List.length_cons, hlength, List.length_append, List.length_singleton]
        omega
    · refine ⟨[], v, events, ?_, hprogress, ?_⟩
      · rw [Reading.goOn_of_eof n hnext rfl]
        simp [diagnostic?_endToken]
      · show 0 = _
        omega

/-- All tokens up to the end are those up to a number that is large enough. -/
theorem finish_eq_goOn (h : s.Progress xs ts u) {n : Nat} (hn : xs.length - ts.length < n)
    (log : List LexicalError) (tokens : Array Token) (events : Array Event) :
    Reading.finish ⟨tokens, events, s.scanner u log⟩ =
      Reading.goOn ⟨tokens, events, s.scanner u log⟩ n := by
  induction n generalizing ts u log tokens events with
  | zero => cases hn
  | succ n ih =>
    obtain ⟨t, v, es, hnext, hprogress, ⟨hne, hlt⟩ | ⟨rfl, hle⟩⟩ := h.nextToken log
    · have hfewer : xs.length - (ts ++ [t]).length < n := by
        rw [List.length_append, List.length_singleton]
        omega
      rw [Reading.finish_of_token hnext hne, Reading.goOn_of_token n hnext hne]
      exact ih hprogress hfewer _ _ _
    · rw [Reading.finish_of_eof hnext rfl, Reading.goOn_of_eof n hnext rfl]

end Source.Progress

end Lexico
