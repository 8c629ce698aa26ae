import Lexico.Proofs.Scanner.Reading

/-!
# One pass over a source

A scanner comes back to its offset for every segment. All segments may as well be cut in one go and
looked at afterwards: slices of their lengths, each one at the position behind the slices before it,
stand for the same tokens and the same errors. Between two tokens, a scanner is where a segment of
that one pass ends.
-/

namespace Lexico

open Piece (Cuts)

/-! ### Slices -/

/-- A stretch of the text, the rule by which it was cut, and where it starts. -/
structure Slice where
  tag : Tag
  text : String
  position : Position
  deriving DecidableEq, Repr

/-- The slices of the text that have the lengths of the segments, from an offset on. -/
def Buffer.slices (b : Buffer) (offset : Nat) (position : Position) :
    List Segment → Except Fault (List Slice)
  | [] => .ok []
  | x :: xs => do
    let text ← b.slice offset (offset + x.len)
    let rest ← b.slices (offset + x.len) (position.advanceOver text) xs
    return ⟨x.tag, text, position⟩ :: rest

namespace Slice

/-- The token that a slice stands for. -/
def token? (x : Slice) : Option Token := do
  let kind ← x.tag.kind? x.text
  return ⟨kind, x.text, x.position⟩

/-- What is wrong with a slice. -/
def error? (x : Slice) : Option LexicalError := do
  let cause ← x.tag.cause? x.text
  return ⟨cause, x.position⟩

end Slice

/-! ### Pieces and their places -/

/-- The pieces behind the text `u`, each with the text before it. -/
def Piece.placed (u : List Char) : List Piece → List Occurrence
  | [] => []
  | p :: ps => ⟨p.tag, p.text, u⟩ :: placed (u ++ p.text) ps

/-- An occurrence without the text before it. -/
def Occurrence.slice (o : Occurrence) : Slice := ⟨o.tag, o.lexeme, o.position⟩

@[simp] theorem Occurrence.tag_slice (o : Occurrence) : o.slice.tag = o.tag := rfl

theorem Occurrence.error?_slice (o : Occurrence) : o.slice.error? = o.error? := by
  rw [Slice.error?, Occurrence.error?]
  show (o.tag.cause? o.lexeme).bind _ = _
  cases o.tag.cause? o.lexeme <;> rfl

namespace Segmented

variable {s : Source} {u r : List Char} {ps : List Piece}

/-- The pieces that are no blanks and no line ends are the occurrences. -/
theorem reads_placed (h : Segmented r ps) (u : List Char) :
    Reads u r ((Piece.placed u ps).filter fun o => !o.tag.isTrivia) := by
  induction h generalizing u with
  | nil => exact .done gap_nil
  | @cons t w r ps hcuts _ ih =>
    rw [Piece.placed]
    cases ht : t.isTrivia with
    | true =>
      rw [List.filter_cons_of_neg (by simp [ht])]
      exact (ih (u ++ w)).behind_gap (hcuts.1.gap ht)
    | false =>
      rw [List.filter_cons_of_pos (by simp [ht])]
      have hrest := ih (u ++ w)
      rw [← List.append_nil u] at hrest ⊢
      simpa using Reads.next gap_nil hcuts ht hrest

/-- The slices are the pieces at their places. -/
theorem slices_placed (h : Segmented r ps) (htext : s.text.toList = u ++ r) :
    (Buffer.ofSource s).slices (byteLength u) (.after u) (ps.map Piece.segment) =
      .ok ((Piece.placed u ps).map Occurrence.slice) := by
  induction h generalizing u with
  | nil => rfl
  | @cons t w r ps hcuts _ ih =>
    have hslice := slice_of_toList htext
    have hrest := ih (u := u ++ w) (by rw [htext, List.append_assoc])
    rw [byteLength_append] at hrest
    show Buffer.slices _ _ _ (Piece.segment ⟨t, w⟩ :: ps.map Piece.segment) = _
    rw [Buffer.slices, Piece.segment, hslice, Fault.ok_bind, Position.advanceOver_after, hrest,
      Fault.ok_bind]
    rfl

theorem ne_eof (h : Segmented r ps) : ∀ o ∈ Piece.placed u ps, o.tag ≠ .eof := by
  induction h generalizing u with
  | nil => simp [Piece.placed]
  | cons hcuts _ ih =>
    intro o ho
    rcases List.mem_cons.mp ho with rfl | ho
    · exact hcuts.1.ne_eof
    · exact ih o ho

end Segmented

/-! ### Tokens and errors of slices -/

/-- The slice of a token stands for it. -/
theorem Occurrence.token?_slice {o : Occurrence} (ht : o.tag.isTrivia = false)
    (he : o.tag ≠ .eof) : o.slice.token? = some o.token := by
  show (o.tag.kind? o.lexeme).bind _ = _
  rw [o.kind?_eq ht he]
  rfl

/-- All slices but blanks and line ends stand for tokens. -/
theorem mapM_token?_slices {xs : List Occurrence} (h : ∀ o ∈ xs, o.tag ≠ .eof) :
    ((xs.map Occurrence.slice).filter fun x => !x.tag.isTrivia).mapM Slice.token? =
      some ((xs.filter fun o => !o.tag.isTrivia).map Occurrence.token) := by
  induction xs with
  | nil => rfl
  | cons o xs ih =>
    have hrest := ih fun o ho => h o (List.mem_cons_of_mem _ ho)
    rw [List.map_cons]
    cases ht : o.tag.isTrivia with
    | true => simpa [ht] using hrest
    | false =>
      have htoken := o.token?_slice ht (h o (List.mem_cons_self ..))
      simp [ht, htoken, hrest]

/-- The slices with an error tag have something wrong with them, and no other ones. -/
theorem mapM_error?_slices (xs : List Occurrence) :
    ((xs.map Occurrence.slice).filter fun x => x.tag.isError).mapM Slice.error? =
      some ((xs.filter fun o => !o.tag.isTrivia).filterMap Occurrence.error?) := by
  induction xs with
  | nil => rfl
  | cons o xs ih =>
    have hsome := o.isSome_error?
    rw [List.map_cons]
    cases he : o.tag.isError with
    | true =>
      obtain ⟨e, herr⟩ := Option.isSome_iff_exists.mp (hsome.trans he)
      have ht : o.tag.isTrivia = false := by
        cases htag : o.tag <;> simp_all [Tag.isError, Tag.isTrivia]
      simp [he, ht, herr, ih, Occurrence.error?_slice]
    | false =>
      rw [he, Option.isSome_eq_false_iff, Option.isNone_iff_eq_none] at hsome
      cases ht : o.tag.isTrivia <;> simp [he, ht, hsome, ih]

/-! ### Where a scanner stands -/

/-- The scanner after the given number of tokens, end tokens included. -/
def Scanner.drop (s : Scanner) : Nat → Except Fault Scanner
  | 0 => .ok s
  | n + 1 => do
    let step ← s.nextToken
    step.scanner.drop n

/-- The scanner stands behind some of the pieces. -/
def Source.Behind (s : Source) (ps : List Piece) (t : Scanner) : Prop :=
  ∃ done left r log, ps = done ++ left ∧ s.text.toList = done.flatMap Piece.text ++ r ∧
    Segmented r left ∧ t = s.scanner (done.flatMap Piece.text) log

namespace Source.Behind

variable {s : Source} {ps : List Piece} {t : Scanner}

/-- A token takes the scanner over pieces only. -/
theorem nextToken (h : s.Behind ps t) : ∃ step, t.nextToken = .ok step ∧ s.Behind ps step.scanner := by
  obtain ⟨done, left, r, log, rfl, htext, hleft, rfl⟩ := h
  induction hleft generalizing done log with
  | nil =>
    have hend : s.text.toList = done.flatMap Piece.text := by rw [htext, List.append_nil]
    exact ⟨_, Scanner.nextToken_of_finished (Scanner.turn_of_nil hend),
      done, [], [], log, rfl, htext, .nil, rfl⟩
  | @cons t w r left hcuts hleft ih =>
    -- One piece more is behind the scanner.
    have hpieces : done ++ ⟨t, w⟩ :: left = done ++ [⟨t, w⟩] ++ left := by simp
    have hchars : (done ++ [Piece.mk t w]).flatMap Piece.text = done.flatMap Piece.text ++ w := by
      simp
    have hbehind : s.text.toList = (done ++ [Piece.mk t w]).flatMap Piece.text ++ r := by
      rw [hchars, htext, List.append_assoc]
    cases ht : t.isTrivia with
    | true =>
      obtain ⟨step, hstep, hnext⟩ := ih (done ++ [⟨t, w⟩]) log hbehind
      rw [hchars] at hstep
      rw [← hpieces] at hnext
      refine ⟨step, ?_, hnext⟩
      rw [Scanner.nextToken_of_skipped (Scanner.turn_of_trivia htext hcuts ht), hstep]
    | false =>
      exact ⟨_, Scanner.nextToken_of_found (Scanner.turn_of_token htext hcuts ht),
        done ++ [⟨t, w⟩], left, r, _, hpieces, hbehind, hleft,
        congrArg (fun v => s.scanner v _) hchars.symm⟩

/-- So does any number of tokens. -/
theorem drop (h : s.Behind ps t) (n : Nat) : ∃ t', t.drop n = .ok t' ∧ s.Behind ps t' := by
  induction n generalizing t with
  | zero => exact ⟨t, rfl, h⟩
  | succ n ih =>
    obtain ⟨step, hstep, hnext⟩ := h.nextToken
    obtain ⟨t', hdrop, hbehind⟩ := ih hnext
    refine ⟨t', ?_, hbehind⟩
    rw [Scanner.drop, hstep, Fault.ok_bind, hdrop]

/-- The offset is the length of the segments behind. -/
theorem offset (h : s.Behind ps t) :
    ∃ xs, xs <+: ps.map Piece.segment ∧ t.offset = (xs.map Segment.len).sum := by
  obtain ⟨done, left, r, log, rfl, -, -, rfl⟩ := h
  refine ⟨done.map Piece.segment, ?_, ?_⟩
  · rw [List.map_append]
    exact List.prefix_append ..
  · exact (sum_len_segments done).symm

end Source.Behind

/-- **One pass over a source** finds what a scanner finds that comes back for every segment. It
cuts all segments and slices the text by their lengths; its tokens are the slices other than blanks
and line ends, and its errors those with an error tag. The offset of the scanner is, after any
number of tokens, where one of these segments ends, or the start. -/
theorem analyze_singlePass (s : Source) :
    ∃ segments slices a, s.segments = .ok segments ∧
      (Buffer.ofSource s).slices 0 .start segments = .ok slices ∧ s.analyze = .ok a ∧
      (slices.filter fun x => !x.tag.isTrivia).mapM Slice.token? = some a.tokens ∧
      (slices.filter fun x => x.tag.isError).mapM Slice.error? = some a.errors ∧
      ∀ n, ∃ t, (Scanner.ofSource s).drop n = .ok t ∧
        ∃ xs, xs <+: segments ∧ t.offset = (xs.map Segment.len).sum := by
  obtain ⟨ps, hps⟩ := exists_segmented s.text.toList
  have hslices := hps.slices_placed (s := s) (u := []) rfl
  rw [byteLength_nil, Position.after_nil] at hslices
  refine ⟨_, _, _, Source.segments_of_segmented hps, hslices,
    Source.analyze_of_reads (hps.reads_placed []), mapM_token?_slices hps.ne_eof,
    mapM_error?_slices _, ?_⟩
  intro n
  have hstart : s.Behind ps (.ofSource s) := ⟨[], ps, _, [], rfl, rfl, hps, Scanner.ofSource_eq s⟩
  obtain ⟨t, hdrop, hbehind⟩ := hstart.drop n
  exact ⟨t, hdrop, hbehind.offset⟩

end Lexico
