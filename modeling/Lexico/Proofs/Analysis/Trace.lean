import Lexico.Proofs.Analysis.Lexemes
import Lexico.Proofs.Scanner.SinglePass

/-!
# What an analysis logs

The log of an analysis and its result tell the same. There is a line for each token, which names the
tag of the slice that the token stands for, and right before the line of an error token there is one
for its error. Blanks and line ends leave no line. The last line counts the others.
-/

namespace Lexico

/-- The line for a token that stands for the slice. -/
def Slice.line (x : Slice) (t : Token) : Event.Line :=
  ⟨.trace, "token", [("kind", .text t.kind.name), ("raw", .text x.tag.name),
    ("lexeme", .text t.lexeme), ("line", .number t.position.line.toNat),
    ("column", .number t.position.column.toNat)]⟩

/-- The lines are those that are logged for the tokens, each of which stands for one of the slices,
and for the errors. -/
inductive Logged : List Slice → List Token → List LexicalError → List Event.Line → Prop
  | nil : Logged [] [] [] []
  | token {x t slices tokens errors lines} : x.token? = some t → t.isError = false →
      Logged slices tokens errors lines →
      Logged (x :: slices) (t :: tokens) errors (x.line t :: lines)
  | error {x t e slices tokens errors lines} : x.token? = some t → t.isError = true →
      x.error? = some e → Logged slices tokens errors lines →
      Logged (x :: slices) (t :: tokens) (e :: errors)
        (⟨.debug, "lexical error", [("error", .text e.message)]⟩ :: x.line t :: lines)

namespace Logged

variable {slices : List Slice} {tokens : List Token} {errors : List LexicalError}
  {lines : List Event.Line}

/-- There are as many lines for tokens as tokens. -/
theorem countP_token (h : Logged slices tokens errors lines) :
    lines.countP (fun l => l.message = "token") = tokens.length := by
  induction h with
  | nil => rfl
  | token _ _ _ ih => simp [Slice.line, ih]
  | error _ _ _ _ ih => simp [Slice.line, ih]

/-- There are as many lines for errors as errors. -/
theorem countP_error (h : Logged slices tokens errors lines) :
    lines.countP (fun l => l.message = "lexical error") = errors.length := by
  induction h with
  | nil => rfl
  | token _ _ _ ih => simp [Slice.line, ih]
  | error _ _ _ _ ih => simp [Slice.line, ih]

end Logged

/-- The events of the occurrences in a text are the lines for their slices. -/
theorem Reads.logged {u r : List Char} {xs : List Occurrence} (h : Reads u r xs) :
    Logged (xs.map Occurrence.slice) (xs.map Occurrence.token) (xs.filterMap Occurrence.error?)
      ((xs.flatMap Occurrence.events).map Event.line) := by
  induction h with
  | done => exact .nil
  | @next u g t w r xs hg hcuts ht hxs ih =>
    have hfirst := Reads.next hg hcuts ht hxs
    have hisError := hfirst.isError_token _ List.mem_cons_self
    have htoken := Occurrence.token?_slice (o := ⟨t, w, u ++ g⟩) ht hcuts.1.ne_eof
    rw [List.flatMap_cons, List.map_append, Occurrence.events]
    cases herr : Occurrence.error? ⟨t, w, u ++ g⟩ with
    | none =>
      rw [herr] at hisError
      rw [List.filterMap_cons_none herr]
      exact .token htoken hisError ih
    | some e =>
      rw [herr] at hisError
      rw [List.filterMap_cons_some herr]
      exact .error htoken hisError ((Occurrence.error?_slice _).trans herr) ih

/-- **The log of an analysis** has the lines for its tokens and errors, in their order, and a last
line with the number of each. -/
theorem trace_logged (s : Source) :
    ∃ segments slices a events lines, s.segments = .ok segments ∧
      (Buffer.ofSource s).slices 0 .start segments = .ok slices ∧ s.analyze = .ok a ∧
      s.trace = .ok events ∧
      Logged (slices.filter fun x => !x.tag.isTrivia) a.tokens a.errors lines ∧
      events.map Event.line = lines ++ [⟨.debug, "analysis complete",
        [("tokens", .number (lines.countP fun l => l.message = "token")),
          ("errors", .number (lines.countP fun l => l.message = "lexical error"))]⟩] := by
  obtain ⟨ps, hps⟩ := exists_segmented s.text.toList
  have hslices := hps.slices_placed (s := s) (u := []) rfl
  rw [byteLength_nil, Position.after_nil] at hslices
  have hreads := hps.reads_placed []
  have hlogged := hreads.logged
  have htokens := hlogged.countP_token
  have herrors := hlogged.countP_error
  rw [List.length_map] at htokens
  -- Whether a slice stands for a token is a matter of its tag only.
  have hfilter : ((Piece.placed [] ps).map Occurrence.slice).filter (fun x => !x.tag.isTrivia) =
      ((Piece.placed [] ps).filter fun o => !o.tag.isTrivia).map Occurrence.slice := List.filter_map
  rw [← hfilter] at hlogged
  refine ⟨_, _, _, _, _, Source.segments_of_segmented hps, hslices,
    Source.analyze_of_reads hreads, Source.trace_of_reads hreads, hlogged, ?_⟩
  rw [htokens, herrors, List.map_append]
  rfl

end Lexico
