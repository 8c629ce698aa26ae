import Lexico.Event
import Lexico.Segment.Basic
import Lexico.Token.Reading

/-!
# Scanners

A **scanner** reads the tokens of a source one at a time: each step cuts segments off the text at
its offset until one stands for a token. It keeps the position of the next character and the errors
met so far. At the end of the text it answers the end token, as often as it is asked.

Each token takes the scanner forward:

    lt_of_nextToken : s.nextToken = .ok step → step.token.isEof = false →
      s.offset < step.scanner.offset ∧ step.scanner.offset < offsetLimit
-/

namespace Lexico

/-- A text being read: what is left starts at `offset`, which is at `position`. The errors recorded
since the log was last cleared are kept latest first. -/
structure Scanner where
  buffer : Buffer
  offset : Nat
  position : Position
  recorded : List LexicalError

namespace Scanner

open Fault (bind_eq_ok_iff pure_eq_ok_iff)

/-- A token, what is left after it, and what was logged on the way. -/
structure Step where
  token : Token
  scanner : Scanner
  events : List Event

/-- The scanner at the start of a text. -/
def ofText (text : String) : Scanner := ⟨.ofText text, 0, .start, []⟩

/-- The scanner at the start of a source. -/
def ofSource (s : Source) : Scanner := ofText s.text

/-- The text of a segment: an operator or delimiter has one spelling, any other text is cut out of
the source. -/
def lexeme (s : Scanner) (segment : Segment) : String :=
  match segment.tag.spelling? with
  | some text => text
  | none => s.buffer.shown s.offset (s.offset + segment.len)

/-- The scanner after a segment with the given text. -/
def pass (s : Scanner) (segment : Segment) (lexeme : String) : Scanner :=
  { s with offset := s.offset + segment.len, position := s.position.advanceOver lexeme }

/-- The step that reads a token from a segment: an error is recorded before the token is logged. -/
def stepAt (s : Scanner) (segment : Segment) (lexeme : String) (kind : Kind) : Step :=
  let token : Token := ⟨kind, lexeme, s.position⟩
  let after := s.pass segment lexeme
  match segment.tag.cause? lexeme with
  | none => ⟨token, after, [.token segment.tag token]⟩
  | some cause =>
    let error : LexicalError := ⟨cause, s.position⟩
    ⟨token, { after with recorded := error :: after.recorded },
      [.lexicalError error, .token segment.tag token]⟩

/-- What the next segment is. -/
inductive Turn where
  /-- The text is at its end. -/
  | finished
  /-- The segment separates tokens. -/
  | skipped (s : Scanner)
  /-- The segment stands for a token. -/
  | found (step : Step)

/-- Cuts the next segment off the text. -/
def turn (s : Scanner) : Except Fault Turn := do
  let (segment, _) ← (s.buffer.cursorAt s.offset).nextSegment
  if segment.tag = .eof then return .finished
  else if offsetLimit ≤ s.offset + segment.len then
    throw (.offsetOverflow (s.offset + segment.len))
  else
    let lexeme := s.lexeme segment
    match segment.tag.kind? lexeme with
    | none => return .skipped (s.pass segment lexeme)
    | some kind => return .found (s.stepAt segment lexeme kind)

/-! ### Each segment takes the scanner forward -/

theorem offset_stepAt (s : Scanner) (segment : Segment) (lexeme : String) (kind : Kind) :
    (s.stepAt segment lexeme kind).scanner.offset = s.offset + segment.len := by
  unfold stepAt
  cases segment.tag.cause? lexeme <;> rfl

theorem token_stepAt (s : Scanner) (segment : Segment) (lexeme : String) (kind : Kind) :
    (s.stepAt segment lexeme kind).token = ⟨kind, lexeme, s.position⟩ := by
  unfold stepAt
  cases segment.tag.cause? lexeme <;> rfl

/-- What a turn is good for: it is the end, or a later offset that fits 32 bits. -/
def Turn.Forward (s : Scanner) : Turn → Prop
  | .finished => True
  | .skipped t => s.offset < t.offset ∧ t.offset < offsetLimit
  | .found step => s.offset < step.scanner.offset ∧ step.scanner.offset < offsetLimit ∧
      step.token.isEof = false

/-- Every turn goes forward. -/
theorem forward_of_turn {s : Scanner} {r : Turn} (h : s.turn = .ok r) : r.Forward s := by
  obtain ⟨⟨segment, d⟩, hseg, h⟩ := bind_eq_ok_iff.1 h
  simp only at h
  split at h
  · cases pure_eq_ok_iff.1 h; trivial
  next htag =>
  have hpos := Cursor.len_pos_of_nextSegment hseg htag
  split at h
  · cases h
  split at h
  · cases pure_eq_ok_iff.1 h
    exact ⟨Nat.lt_add_of_pos_right hpos, Nat.lt_of_not_le ‹_›⟩
  · next kind hkind =>
    cases pure_eq_ok_iff.1 h
    simp only [Turn.Forward, offset_stepAt, token_stepAt]
    refine ⟨Nat.lt_add_of_pos_right hpos, by omega, ?_⟩
    have hne : kind ≠ .eof := fun he => Tag.kind?_ne_eof _ _ (he ▸ hkind)
    simp [Token.isEof, hne]

/-- A skipped segment leaves fewer offsets ahead. -/
theorem remaining_lt_of_turn {s t : Scanner} (h : s.turn = .ok (.skipped t)) :
    offsetLimit - t.offset < offsetLimit - s.offset := by
  obtain ⟨hlt, hfits⟩ := forward_of_turn h
  omega

/-! ### Tokens -/

/-- Reads the next token; at the end of the text, the end token at the final position. -/
def nextToken (s : Scanner) : Except Fault Step :=
  match h : s.turn with
  | .error fault => .error fault
  | .ok .finished => .ok ⟨.endAt s.position, s, []⟩
  | .ok (.found step) => .ok step
  | .ok (.skipped t) =>
    have := remaining_lt_of_turn h
    t.nextToken
termination_by offsetLimit - s.offset

/-- A token other than the end takes the scanner to a later offset, which fits 32 bits. -/
theorem lt_of_nextToken {s : Scanner} {step : Step} (h : s.nextToken = .ok step)
    (he : step.token.isEof = false) :
    s.offset < step.scanner.offset ∧ step.scanner.offset < offsetLimit := by
  fun_induction nextToken s with
  | case1 => cases h
  | case2 => cases h; simp [Token.isEof, Token.endAt] at he
  | case3 s step' ht =>
    cases h
    obtain ⟨hlt, hfits, -⟩ := forward_of_turn ht
    exact ⟨hlt, hfits⟩
  | case4 s t ht _ ih =>
    obtain ⟨hlt, -⟩ := forward_of_turn ht
    exact ⟨Nat.lt_trans hlt (ih h).1, (ih h).2⟩

/-- A token other than the end leaves fewer offsets ahead. -/
theorem remaining_lt_of_nextToken {s : Scanner} {step : Step} (h : s.nextToken = .ok step)
    (he : step.token.isEof = false) :
    offsetLimit - step.scanner.offset < offsetLimit - s.offset := by
  have := lt_of_nextToken h he
  omega

/-! ### The errors met so far -/

/-- The errors recorded since the log was last cleared, oldest first. -/
def errors (s : Scanner) : List LexicalError := s.recorded.reverse

/-- The errors as text. -/
def messages (s : Scanner) : List String := s.errors.map LexicalError.message

/-- The scanner with an empty log, where it stands. -/
def clearErrors (s : Scanner) : Scanner := { s with recorded := [] }

/-! ### Many tokens -/

/-- Tokens read, what was logged, and what is left. -/
structure Reading where
  tokens : Array Token
  events : Array Event
  scanner : Scanner

namespace Reading

/-- A reading with one more token. -/
def add (r : Reading) (step : Step) : Reading :=
  ⟨r.tokens.push step.token, r.events ++ step.events, step.scanner⟩

/-- Goes on until the end of the text; the end token is read and left out. -/
def finish (r : Reading) : Except Fault Reading :=
  match h : r.scanner.nextToken with
  | .error fault => .error fault
  | .ok step =>
    if he : step.token.isEof then .ok { r with scanner := step.scanner }
    else
      have := remaining_lt_of_nextToken h (Bool.eq_false_iff.2 he)
      (r.add step).finish
termination_by offsetLimit - r.scanner.offset
decreasing_by exact this

/-- Goes on for at most `n` tokens; an end token ends it and is left out. -/
def goOn (r : Reading) : Nat → Except Fault Reading
  | 0 => .ok r
  | n + 1 => do
    let step ← r.scanner.nextToken
    if step.token.isEof then return { r with scanner := step.scanner }
    else (r.add step).goOn n

end Reading

/-- All tokens up to the end of the text. -/
def collect (s : Scanner) : Except Fault Reading := Reading.finish ⟨#[], #[], s⟩

/-- The next tokens, at most `n` of them. -/
def take (s : Scanner) (n : Nat) : Except Fault Reading := Reading.goOn ⟨#[], #[], s⟩ n

end Scanner
end Lexico
