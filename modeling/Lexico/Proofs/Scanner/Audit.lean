import Lexico.Proofs.Scanner.Reading
import Lexico.Proofs.Segment.Audit

/-!
# Audited scanners

The cut of a text into segments and its analysis in their audited forms. Whatever the text, they read
no byte behind the padding, go through the text from no place behind its end, and form no sum or
difference that wraps (`accesses_safe`). That they have a result is known, so the audit is of a whole
run.
-/

namespace Lexico.Audit

open Audited (note lift Safe)
open Scanner (Turn Step Reading)

/-! ### The text in segments -/

/-- `Source.segments`, which checks the sentinel at the start. -/
def segments (s : Source) : Audited (List Segment) := do
  note (.read (Buffer.ofSource s).sourceLen)
  segmentsAfter [] (Buffer.ofSource s).cursor

theorem result_segments (s : Source) : (segments s).result = s.segments := by
  simp [segments, Source.segments, Cursor.segments]

/-! ### Tokens -/

/-- `Scanner.lexeme`, which takes the text to cut it out of from the buffer. -/
def lexeme (t : Scanner) (x : Segment) : Audited String := do
  if x.tag.spelling? = none then note (.slice 0)
  return t.lexeme x

/-- `Scanner.turn`, which adds the length of the segment to the offset. -/
def turn (t : Scanner) : Audited Turn := do
  let c ← cursorAt t.buffer t.offset
  let (x, _) ← nextSegment c
  if x.tag = .eof then return .finished
  else
    note (.add t.offset x.len)
    if offsetLimit ≤ t.offset + x.len then lift (.error (.offsetOverflow (t.offset + x.len)))
    else
      let text ← lexeme t x
      match x.tag.kind? text with
      | none => return .skipped (t.pass x text)
      | some kind => return .found (t.stepAt x text kind)

@[simp] theorem result_lexeme (t : Scanner) (x : Segment) :
    (lexeme t x).result = .ok (t.lexeme x) := by
  rw [lexeme]
  split <;> rfl

@[simp] theorem result_turn (t : Scanner) : (turn t).result = t.turn := by
  rw [turn, Scanner.turn, Audited.result_bind, result_cursorAt, Fault.ok_bind,
    Audited.result_bind, result_nextSegment]
  congr
  funext y
  obtain ⟨x, d⟩ := y
  simp only [Audited.result_ite, Audited.result_note, Audited.result_bind, result_lexeme,
    Fault.ok_bind]
  congr
  cases x.tag.kind? (t.lexeme x) <;> rfl

/-- `Scanner.nextToken` -/
def nextToken (t : Scanner) : Audited Step := do
  match ← (turn t).attach with
  | ⟨.finished, _⟩ => return ⟨.endAt t.position, t, []⟩
  | ⟨.found step, _⟩ => return step
  | ⟨.skipped t', h⟩ =>
    have := Scanner.remaining_lt_of_turn (result_turn t ▸ h)
    nextToken t'
termination_by offsetLimit - t.offset

@[simp] theorem result_nextToken (t : Scanner) : (nextToken t).result = t.nextToken := by
  fun_induction Scanner.nextToken t with
  | case1 t fault h =>
    rw [nextToken, Audited.result_attach_bind_of_error (result_turn t ▸ h)]
  | case2 t h => rw [nextToken, Audited.result_attach_bind (result_turn t ▸ h)]; rfl
  | case3 t step h => rw [nextToken, Audited.result_attach_bind (result_turn t ▸ h)]; rfl
  | case4 t t' h _ ih =>
    rw [nextToken, Audited.result_attach_bind (result_turn t ▸ h)]
    exact ih

/-- `Scanner.Reading.finish` -/
def finish (r : Reading) : Audited Reading := do
  match ← (nextToken r.scanner).attach with
  | ⟨step, h⟩ =>
    if he : step.token.isEof then return { r with scanner := step.scanner }
    else
      have := Scanner.remaining_lt_of_nextToken (result_nextToken r.scanner ▸ h)
        (Bool.eq_false_iff.2 he)
      finish (r.add step)
termination_by offsetLimit - r.scanner.offset
decreasing_by exact this

@[simp] theorem result_finish (r : Reading) : (finish r).result = r.finish := by
  fun_induction Reading.finish r with
  | case1 r fault h =>
    rw [finish, Audited.result_attach_bind_of_error (result_nextToken r.scanner ▸ h)]
  | case2 r step h he =>
    rw [finish, Audited.result_attach_bind (result_nextToken r.scanner ▸ h)]
    simp only [dif_pos he]
    rfl
  | case3 r step h he _ ih =>
    rw [finish, Audited.result_attach_bind (result_nextToken r.scanner ▸ h)]
    simp only [dif_neg he]
    exact ih

/-- `Source.analyze` -/
def analyze (s : Source) : Audited Analysis := do
  let r ← finish ⟨#[], #[], .ofSource s⟩
  return ⟨r.tokens.toList, r.scanner.errors⟩

theorem result_analyze (s : Source) : (analyze s).result = s.analyze := by
  simp [analyze, Source.analyze, Analysis.run, Analysis.runText, Scanner.collect,
    Scanner.ofSource]

/-! ### Scanners are safe -/

/-- The scanner is in the buffer of the source and no farther than at the end of the text. -/
structure InText (s : Source) (t : Scanner) : Prop where
  buffer : t.buffer = .ofSource s
  le : t.offset ≤ s.text.utf8ByteSize

/-- What is left after a turn is in the text. -/
def TurnInText (s : Source) : Turn → Prop
  | .finished => True
  | .skipped t => InText s t
  | .found step => InText s step.scanner

variable {s : Source} {t : Scanner}

theorem safe_lexeme (t : Scanner) (x : Segment) : (lexeme t x).Safe (.ofSource s) fun _ => True := by
  rw [lexeme]
  split
  · apply Safe.slice (Nat.zero_le _)
    exact Safe.pure trivial
  · exact Safe.pure trivial

/-- Where a segment ends is a sum that does not wrap. -/
theorem safe_turn (h : InText s t) : (turn t).Safe (.ofSource s) (TurnInText s) := by
  rw [turn, h.buffer]
  apply (safe_cursorAt s t.offset).bind
  rintro c ⟨hc, hoffset⟩
  apply (safe_nextSegment hc).bind
  rintro ⟨x, d⟩ ⟨hd, hlen⟩
  have hend : t.offset + x.len ≤ s.text.utf8ByteSize := by
    rw [hoffset, Nat.min_eq_left h.le] at hlen
    exact hlen ▸ hd.le
  show Safe (if x.tag = .eof then _ else _) _ _
  split
  · exact Safe.pure trivial
  · apply Safe.add (Nat.lt_of_le_of_lt hend s.size_lt)
    split
    · exact Safe.lift nofun
    · apply (safe_lexeme t x).bind
      intro text _
      split
      · exact Safe.pure ⟨h.buffer, hend⟩
      · next kind _ =>
        refine Safe.pure (P := TurnInText s) ⟨?_, ?_⟩
        · rw [Scanner.stepAt]
          split <;> exact h.buffer
        · rw [Scanner.offset_stepAt]
          exact hend

theorem safe_nextToken (h : InText s t) :
    (nextToken t).Safe (.ofSource s) fun step => InText s step.scanner := by
  induction hn : offsetLimit - t.offset using Nat.strongRecOn generalizing t with
  | ind n ih =>
    rw [nextToken]
    apply (safe_turn h).attach.bind
    rintro ⟨r, hr⟩ hin
    rw [result_turn] at hr
    cases r with
    | finished => exact Safe.pure h
    | found step => exact Safe.pure hin
    | skipped t' =>
      have hless := Scanner.remaining_lt_of_turn hr
      exact ih _ (hn ▸ hless) hin rfl

theorem safe_finish {r : Reading} (h : InText s r.scanner) :
    (finish r).Safe (.ofSource s) fun _ => True := by
  induction hn : offsetLimit - r.scanner.offset using Nat.strongRecOn generalizing r with
  | ind n ih =>
    rw [finish]
    apply (safe_nextToken h).attach.bind
    rintro ⟨step, hstep⟩ hin
    rw [result_nextToken] at hstep
    show Safe (if _ : step.token.isEof then _ else _) _ _
    split
    · exact Safe.pure trivial
    · next he =>
      have hless := Scanner.remaining_lt_of_nextToken hstep (Bool.eq_false_iff.mpr he)
      exact ih _ (hn ▸ hless) (r := r.add step) hin rfl

theorem safe_segments (s : Source) : (segments s).Safe (.ofSource s) fun _ => True := by
  apply Safe.read (Buffer.sourceLen_lt_size_ofSource s)
  exact safe_segmentsAfter [] ⟨rfl, Nat.zero_le _⟩

theorem safe_analyze (s : Source) : (analyze s).Safe (.ofSource s) fun _ => True := by
  have hstart : InText s (.ofSource s) := ⟨rfl, Nat.zero_le _⟩
  exact (safe_finish hstart).bind fun _ _ => Safe.pure trivial

/-- **Nothing is out of bounds**: the cut of a text into segments and its analysis end with a result,
and on the way all accesses are safe. What is audited are these computations themselves. -/
theorem accesses_safe (s : Source) :
    ((segments s).result = s.segments ∧ (analyze s).result = s.analyze) ∧
      (∃ xs, s.segments = .ok xs) ∧ (∃ a, s.analyze = .ok a) ∧
      ∀ y ∈ (segments s).accesses ++ (analyze s).accesses, y.Safe (.ofSource s) := by
  obtain ⟨ps, hps⟩ := exists_segmented s.text.toList
  obtain ⟨xs, hxs⟩ := exists_reads [] s.text.toList
  refine ⟨⟨result_segments s, result_analyze s⟩, ⟨_, Source.segments_of_segmented hps⟩,
    ⟨_, Source.analyze_of_reads hxs⟩, ?_⟩
  intro y hy
  rcases List.mem_append.mp hy with hy | hy
  · exact (safe_segments s).1 y hy
  · exact (safe_analyze s).1 y hy

end Lexico.Audit
