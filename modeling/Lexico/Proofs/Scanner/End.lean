import Lexico.Proofs.Scanner.Journal
import Lexico.Proofs.Scanner.SinglePass

/-!
# Scanners come to an end

Whatever has been asked of a scanner, the next token can be read: it is one of the text, and takes
the scanner farther on, or it is the end token, and the scanner has reached the end of its source.
There are no more tokens than characters, so the end is reached; and there the scanner stays, as it
is, however often it is asked for a token.
-/

namespace Lexico

open Scanner (Step Pool)

/-! ### The end of a source -/

/-- The scanner has reached the end of the source: reading on gives the end token and changes
nothing. -/
structure Source.Ended (s : Source) (c : Scanner) : Prop where
  offset_eq : c.offset = s.text.utf8ByteSize
  position_eq : c.position = Position.start.advanceOver s.text
  nextToken_eq : c.nextToken = .ok ⟨s.endToken, c, []⟩
  next_eq : ∀ p : Pool, p.answer c .next = .ok (.noToken, p.update c)

/-- What the next token does to a scanner of the source. -/
inductive Source.Leads (s : Source) (c : Scanner) : Step → Prop
  /-- A token of the text takes the scanner farther on. -/
  | on {step} : step.token.isEof = false → step.token.lexeme ≠ "" →
      c.offset < step.scanner.offset → step.scanner.offset ≤ s.text.utf8ByteSize → Leads s c step
  /-- The end token leaves the scanner at the end, and what it has recorded. -/
  | out {step} : step.token = s.endToken → s.Ended step.scanner →
      step.scanner.recorded = c.recorded → Leads s c step

variable {s : Source} {u r : List Char} {xs : List Occurrence} {log : List LexicalError}

/-- Behind the whole text a scanner is at the end. -/
theorem Source.ended_scanner (s : Source) (log : List LexicalError) :
    s.Ended (s.scanner s.text.toList log) := by
  have hposition : (s.scanner s.text.toList log).position =
      Position.start.advanceOver s.text := by
    rw [Source.scanner, Position.after, String.ofList_toList]
  have hnext : (s.scanner s.text.toList log).nextToken =
      .ok ⟨s.endToken, s.scanner s.text.toList log, []⟩ := by
    rw [Source.endToken, ← hposition]
    exact Scanner.nextToken_of_finished (Scanner.turn_of_nil rfl)
  refine ⟨(utf8ByteSize_eq _).symm, hposition, hnext, ?_⟩
  intro p
  rw [Pool.answer, hnext]
  rfl

/-! ### The next token -/

/-- Behind the last occurrence the end token takes the scanner to the end. -/
theorem Reads.nextToken_nil (h : Reads u r []) (htext : s.text.toList = u ++ r)
    (log : List LexicalError) :
    (s.scanner u log).nextToken = .ok ⟨s.endToken, s.scanner s.text.toList log, []⟩ := by
  rw [Scanner.nextToken_of_reads_nil htext h, ← htext, Source.endToken, Position.after,
    String.ofList_toList]

/-- The next token is read, and leads on or out. -/
theorem Reads.leads (h : Reads u r xs) (htext : s.text.toList = u ++ r) (log : List LexicalError) :
    ∃ step, (s.scanner u log).nextToken = .ok step ∧ s.Leads (s.scanner u log) step := by
  cases xs with
  | nil => exact ⟨_, h.nextToken_nil htext log, .out rfl (s.ended_scanner log) rfl⟩
  | cons o xs =>
    obtain ⟨r', hnext, htext', -⟩ := Scanner.nextToken_of_reads htext h log
    obtain ⟨_, -, hcuts, -⟩ := h.cuts_of_mem List.mem_cons_self
    have heof : o.token.isEof = false := Scanner.isEof_token o
    refine ⟨_, hnext, .on heof ?_ (Scanner.lt_of_nextToken hnext heof).1 ?_⟩
    · show String.ofList o.text ≠ ""
      rw [Ne, ← String.toList_eq_nil_iff, String.toList_ofList]
      exact hcuts.1.ne_nil
    · show byteLength (o.before ++ o.text) ≤ _
      rw [utf8ByteSize_eq, htext', byteLength_append (o.before ++ o.text)]
      exact Nat.le_add_right _ _

/-! ### How many tokens there are -/

/-- A text has no more tokens than characters. -/
theorem Reads.length_le (h : Reads u r xs) : xs.length ≤ r.length := by
  induction h with
  | done => exact Nat.zero_le _
  | next _ hcuts _ _ ih =>
    have hpos := List.length_pos_iff.mpr hcuts.1.ne_nil
    simp only [List.length_cons, List.length_append]
    omega

/-- As many tokens as are left lead to the last gap. -/
theorem Reads.drop (h : Reads u r xs) (htext : s.text.toList = u ++ r) (log : List LexicalError) :
    ∃ v r' log', (s.scanner u log).drop xs.length = .ok (s.scanner v log') ∧
      s.text.toList = v ++ r' ∧ Reads v r' [] := by
  induction xs generalizing u r log with
  | nil => exact ⟨u, r, log, rfl, htext, h⟩
  | cons o xs ih =>
    obtain ⟨r', hnext, htext', hxs⟩ := Scanner.nextToken_of_reads htext h log
    obtain ⟨v, r'', log', hdrop, hrest⟩ := ih hxs htext' _
    refine ⟨v, r'', log', ?_, hrest⟩
    rw [List.length_cons, Scanner.drop, hnext, Fault.ok_bind]
    exact hdrop

/-! ### Where the end token is returned -/

theorem Text.takenBy_nil (ts : List Token) : Text.takenBy ts [] = [] := by
  induction ts with
  | nil => rfl
  | cons t ts ih => rw [Text.takenBy, List.take_nil, List.drop_nil, ih, List.append_nil]

/-- All tokens and the end token take up the whole text. -/
theorem Reads.takenBy_all (h : Reads u r xs) (p : Position) :
    Text.takenBy (xs.map Occurrence.token ++ [.endAt p]) r = r := by
  induction h with
  | done hg => exact (Reads.done (u := []) hg).takenBy_end p
  | @next u g t w r xs hg hcuts ht hxs ih =>
    have hfirst := (Reads.next hg hcuts ht hxs).takenBy
    rw [List.append_assoc u, List.append_cancel_left_eq] at hfirst
    rw [List.map_cons, List.cons_append, ← List.singleton_append, Text.takenBy_append, hfirst,
      ← List.append_assoc g, List.drop_left, ih]

namespace Source.Progress

variable {ts : List Token}

/-- Where the end token has been returned, the whole text is behind the scanner. -/
theorem eq_of_isEof (h : s.Progress xs ts u) (hxs : Reads [] s.text.toList xs)
    (hend : ∃ t ∈ ts, t.isEof = true) : u = s.text.toList := by
  obtain ⟨done, left, r, n, rfl, -, -, hts, hleft, hu⟩ := h
  -- Only the copies of the end token at the end are end tokens, so there is one of them.
  cases n with
  | zero =>
    obtain ⟨t, ht, heof⟩ := hend
    rw [hts, List.replicate_zero, List.append_nil, List.mem_map] at ht
    obtain ⟨o, -, rfl⟩ := ht
    rw [Scanner.isEof_token] at heof
    cases heof
  | succ n =>
    rw [hleft n.succ_ne_zero, List.append_nil] at hxs
    have hall := hxs.takenBy_all (Position.start.advanceOver s.text)
    have hsplit : ts =
        (done.map Occurrence.token ++ [s.endToken]) ++ List.replicate n s.endToken := by
      rw [hts, List.replicate_succ, List.append_assoc, List.singleton_append]
    rw [hu, hsplit, Text.takenBy_append, Source.endToken, hall, List.drop_length,
      Text.takenBy_nil, List.append_nil]

/-- The tokens other than end tokens, together with those left, are no more than there are
characters. -/
theorem exists_left (h : s.Progress xs ts u) (hxs : Reads [] s.text.toList xs) :
    ∃ left r, s.text.toList = u ++ r ∧ Reads u r left ∧
      ts.countP (fun t => !t.isEof) + left.length ≤ s.text.length := by
  obtain ⟨done, left, r, n, rfl, htext, hreads, hts, -, -⟩ := h
  have htokens : (done.map Occurrence.token).countP (fun t => !t.isEof) = done.length := by
    rw [List.countP_eq_length.mpr, List.length_map]
    rintro _ ht
    obtain ⟨o, -, rfl⟩ := List.mem_map.mp ht
    rw [Scanner.isEof_token, Bool.not_false]
  have hends : (List.replicate n s.endToken).countP (fun t => !t.isEof) = 0 := by
    rw [List.countP_eq_zero]
    intro t ht
    rw [List.eq_of_mem_replicate ht]
    exact Bool.false_ne_true
  have hle := hxs.length_le
  rw [List.length_append, String.length_toList] at hle
  refine ⟨left, r, htext, hreads, ?_⟩
  rw [hts, List.countP_append, htokens, hends]
  exact hle

end Source.Progress

/-! ### Scanners asked for anything -/

namespace Scanner

/-- How a scanner with the history goes on. -/
structure History.Terminates (h : History) (c : Scanner) : Prop where
  offset_le : c.offset ≤ h.source.text.utf8ByteSize
  /-- There is a next token. -/
  nextToken : ∃ step, c.nextToken = .ok step ∧ h.source.Leads c step
  /-- The end is near: all the tokens returned up to there are no more than the characters. -/
  reached : ∃ n d e, h.returned.countP (fun t => !t.isEof) + n ≤ h.source.text.length ∧
    c.drop n = .ok d ∧ d.nextToken = .ok ⟨h.source.endToken, e, []⟩ ∧ h.source.Ended e
  /-- Once the end token has been returned, nothing changes any more. -/
  ended : (∃ t ∈ h.returned, t.isEof = true) → h.source.Ended c

theorem History.LeadsTo.terminates {h : History} {c : Scanner} (hc : h.LeadsTo c) :
    h.Terminates c := by
  obtain ⟨xs, u, hxs, hprogress, -, -, rfl⟩ := hc
  obtain ⟨left, r, htext, hleft, hcount⟩ := hprogress.exists_left hxs
  refine ⟨?_, hleft.leads htext _, ?_, ?_⟩
  · show byteLength u ≤ _
    rw [utf8ByteSize_eq, htext, byteLength_append]
    exact Nat.le_add_right _ _
  · obtain ⟨v, r', log, hdrop, htext', hnone⟩ := hleft.drop htext _
    exact ⟨_, _, _, hcount, hdrop, hnone.nextToken_nil htext' log, h.source.ended_scanner log⟩
  · intro hend
    rw [hprogress.eq_of_isEof hxs hend]
    exact h.source.ended_scanner _

/-- **Whatever has been asked of a scanner**, its next token is one of the text and takes it farther
on, or the end token at the end. After at most as many tokens as the source has characters the end
is reached, and there the scanner stays. -/
theorem Pool.run_terminates (sources : List Source) (requests : List Pool.Request) :
    ∃ answers p, (ofSources sources).run requests = .ok (answers, p) ∧
      ((Journal.ofSources sources).notes requests answers).Matches History.Terminates p := by
  obtain ⟨answers, p, hrun, -, hmatches⟩ := (Journal.matches_ofSources sources).run requests
  refine ⟨answers, p, hrun, hmatches.inUse, hmatches.size, ?_⟩
  intro i h c hh hc
  exact (hmatches.each i h c hh hc).terminates

end Scanner

end Lexico
