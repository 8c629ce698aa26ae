import Lexico.Analysis
import Lexico.Proofs.Scanner.Occurrence

/-!
# What a scanner records

Whatever bytes there are to read, a scanner records one error for each error token, and none for any
other. So an analysis has as many errors as error tokens, also that of a text of which not all is
kept:

    length_errors : ofText text = .ok a → a.errors.length = a.tokens.countP Token.isError
-/

namespace Lexico

namespace Scanner

open Fault (bind_eq_ok_iff pure_eq_ok_iff)

/-! ### One token -/

/-- The number of errors that are recorded for a token. -/
def charge (t : Token) : Nat := if t.isError then 1 else 0

/-- What is recorded after a turn. -/
def Turn.Records (s : Scanner) : Turn → Prop
  | .finished => True
  | .skipped t => t.recorded = s.recorded
  | .found step => step.scanner.recorded.length = s.recorded.length + charge step.token

theorem records_stepAt {s : Scanner} {segment : Segment} {lexeme : String} {kind : Kind}
    (h : segment.tag.kind? lexeme = some kind) :
    (Turn.found (s.stepAt segment lexeme kind)).Records s := by
  have hsome : (segment.tag.cause? lexeme).isSome = segment.tag.isError := Tag.isSome_cause?_iff
  have herror : segment.tag.kind? lexeme = some .error ↔ segment.tag.isError = true :=
    Tag.kind?_eq_error_iff
  rw [h, Option.some.injEq] at herror
  unfold Turn.Records charge stepAt
  cases hcause : segment.tag.cause? lexeme with
  | none =>
    have hkind : kind ≠ .error := by
      rw [hcause, Option.isSome_none] at hsome
      rw [Ne, herror, ← hsome]
      exact Bool.false_ne_true
    simp [pass, Token.isError, hkind]
  | some cause =>
    have hkind : kind = .error := by
      rw [hcause, Option.isSome_some] at hsome
      exact herror.mpr hsome.symm
    simp [pass, Token.isError, hkind]

/-- One turn records an error just for an error token. -/
theorem records_of_turn {s : Scanner} {r : Turn} (h : s.turn = .ok r) : r.Records s := by
  obtain ⟨⟨segment, d⟩, -, h⟩ := bind_eq_ok_iff.mp h
  simp only at h
  split at h
  · cases pure_eq_ok_iff.mp h
    trivial
  split at h
  · cases h
  split at h
  · cases pure_eq_ok_iff.mp h
    rfl
  · next kind hkind =>
    cases pure_eq_ok_iff.mp h
    exact records_stepAt hkind

/-- A token is recorded by what it is charged. -/
theorem length_recorded_of_nextToken {s : Scanner} {step : Step} (h : s.nextToken = .ok step) :
    step.scanner.recorded.length = s.recorded.length + charge step.token := by
  fun_induction nextToken s with
  | case1 => cases h
  | case2 => cases h; rfl
  | case3 s found hturn =>
    cases h
    exact records_of_turn hturn
  | case4 s t hturn _ ih =>
    have hskip : t.recorded = s.recorded := records_of_turn hturn
    rw [ih h, hskip]

/-! ### All tokens -/

/-- As many errors are recorded as there are error tokens. -/
def Reading.Balanced (r : Reading) : Prop :=
  r.scanner.recorded.length = r.tokens.toList.countP Token.isError

theorem Reading.Balanced.add {r : Reading} (h : r.Balanced) {step : Step}
    (hnext : r.scanner.nextToken = .ok step) : (r.add step).Balanced := by
  show step.scanner.recorded.length = (r.tokens.push step.token).toList.countP Token.isError
  rw [length_recorded_of_nextToken hnext, h, Array.toList_push, List.countP_append,
    List.countP_singleton]
  rfl

/-- Reading on to the end keeps the balance. -/
theorem Reading.Balanced.finish {r r' : Reading} (h : r.Balanced) (hr : r.finish = .ok r') :
    r'.Balanced := by
  fun_induction Reading.finish r with
  | case1 => cases hr
  | case2 r step hnext he =>
    cases hr
    have hcharge : charge step.token = 0 := by
      simp_all [charge, Token.isEof, Token.isError]
    show step.scanner.recorded.length = _
    rw [length_recorded_of_nextToken hnext, hcharge]
    exact h
  | case3 r step hnext he _ ih => exact ih (h.add hnext) hr

end Scanner

end Lexico
