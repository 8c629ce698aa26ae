import Lexico.Output.Report
import Lexico.Proofs.Output.Sink

/-!
# Delivering a report

A report is delivered to a sink by writing it in pieces and then flushing. These are **requests**
to the sink, and they are made in order up to the first that is refused. Neither what the sink
takes nor the answer tells how the report was cut into pieces: the sink takes as much of it as there
is room for, a report that is too long is refused before anything is flushed, and else the last word
is with flushing:

    serve_delivery : s.serve (delivery pieces) =
      ⟨s.filledWith pieces, made, if s.Fits pieces then s.flush else .error .limitReached⟩
-/

namespace Lexico

namespace Sink

/-! ### Requests -/

/-- What a sink may be asked to do. -/
inductive Request where
  | write (text : String)
  | flush
  deriving DecidableEq, Repr

/-- What a sink does when asked. -/
def answer (s : Sink) : Request → Sink × Except SinkError Unit
  | .write text => s.write text
  | .flush => (s, s.flush)

/-- What comes of requests: the sink behind them, those that were made, and the last answer. -/
structure Session where
  sink : Sink
  made : List Request
  result : Except SinkError Unit

/-- Makes requests in order, up to the first that is refused. -/
def serve (s : Sink) : List Request → Session
  | [] => ⟨s, [], .ok ()⟩
  | r :: rs =>
    match s.answer r with
    | (s, .ok ()) =>
      let rest := s.serve rs
      { rest with made := r :: rest.made }
    | (s, .error e) => ⟨s, [r], .error e⟩

/-- The requests that deliver a text in pieces. -/
def delivery (pieces : List String) : List Request := pieces.map .write ++ [.flush]

variable {s : Sink} {text : String} {texts pieces : List String}

theorem serve_write_of_fits (h : s.Fits [text]) (rs : List Request) :
    s.serve (.write text :: rs) =
      { (s.filledWith [text]).serve rs with
        made := .write text :: ((s.filledWith [text]).serve rs).made } := by
  rw [serve, answer, write_eq, if_pos h]

theorem serve_write_of_not_fits (h : ¬ s.Fits [text]) (rs : List Request) :
    s.serve (.write text :: rs) =
      ⟨s.filledWith [text], [.write text], .error .limitReached⟩ := by
  rw [serve, answer, write_eq, if_neg h]

theorem serve_flush (s : Sink) : s.serve [.flush] = ⟨s, [.flush], s.flush⟩ := by
  rw [serve, answer]
  cases s.flush <;> rfl

/-- Where there is room for some texts, requests go on behind them. -/
theorem serve_of_fits (h : s.Fits texts) (rs : List Request) :
    s.serve (texts.map .write ++ rs) =
      { (s.filledWith texts).serve rs with
        made := texts.map .write ++ ((s.filledWith texts).serve rs).made } := by
  induction texts generalizing s with
  | nil => rw [filledWith_nil]; rfl
  | cons text texts ih =>
    have hsplit : text :: texts = [text] ++ texts := rfl
    rw [hsplit, fits_append] at h
    rw [List.map_cons, List.cons_append, serve_write_of_fits h.1, ih h.2, hsplit,
      filledWith_append]
    rfl

/-- Where there is no room for all of them, requests end with one of them. -/
theorem serve_of_not_fits (h : ¬ s.Fits texts) (rs : List Request) :
    ∃ made, made <+: texts ∧ s.serve (texts.map .write ++ rs) =
      ⟨s.filledWith texts, made.map .write, .error .limitReached⟩ := by
  induction texts generalizing s with
  | nil => exact absurd s.fits_nil h
  | cons text texts ih =>
    have hsplit : text :: texts = [text] ++ texts := rfl
    rw [hsplit, fits_append] at h
    rw [List.map_cons, List.cons_append, hsplit]
    -- either the first text is refused, or there is room for it and one behind it is refused
    by_cases hfits : s.Fits [text]
    · obtain ⟨made, hmade, hserve⟩ := ih fun hrest => h ⟨hfits, hrest⟩
      refine ⟨text :: made, List.cons_prefix_cons.mpr ⟨rfl, hmade⟩, ?_⟩
      rw [serve_write_of_fits hfits, hserve, filledWith_append, List.map_cons]
    · refine ⟨[text], ⟨texts, rfl⟩, ?_⟩
      rw [serve_write_of_not_fits hfits, filledWith_append_of_not_fits hfits, List.map_singleton]

/-- **A delivery** leaves what there is room for, and comes to flushing if that is all. -/
theorem serve_delivery (s : Sink) (pieces : List String) :
    ∃ made, s.serve (delivery pieces) = ⟨s.filledWith pieces, made,
        if s.Fits pieces then s.flush else .error .limitReached⟩ ∧
      (.flush ∈ made ↔ s.Fits pieces) := by
  by_cases h : s.Fits pieces
  · rw [delivery, serve_of_fits h, serve_flush, if_pos h]
    exact ⟨_, rfl, iff_of_true (List.mem_append_right _ (List.mem_singleton_self _)) h⟩
  · obtain ⟨made, -, hserve⟩ := serve_of_not_fits h [.flush]
    rw [delivery, hserve, if_neg h]
    refine ⟨_, rfl, iff_of_false ?_ h⟩
    intro hflush
    obtain ⟨_, -, hne⟩ := List.mem_map.mp hflush
    cases hne

/-- How a text is cut into pieces makes no difference. -/
theorem fits_congr (h : String.join texts = String.join pieces) : s.Fits texts ↔ s.Fits pieces := by
  rw [Fits, Fits, h]

theorem filledWith_congr (h : String.join texts = String.join pieces) :
    s.filledWith texts = s.filledWith pieces := by
  rw [filledWith, filledWith, h]

end Sink

namespace Report

theorem write_eq (s : Sink) (tokens : List Token) :
    write s tokens = (s.filledWith (lines tokens),
      if s.Fits (lines tokens) then s.flush else .error .limitReached) := by
  rw [write, Sink.writeAll_eq]
  by_cases h : s.Fits (lines tokens)
  · rw [if_pos h, if_pos h]
    rfl
  · rw [if_neg h, if_neg h]

/-- **A report on a sink with a limit.** However it is cut into pieces, as many bytes of it are
taken as the limit says, or all of it. The answer is that the limit is reached just when it is less
than the report is long, and then nothing is flushed; else it is what comes of flushing. -/
theorem write_limited (tokens : List Token) (limit : Nat) (flushFails : Bool)
    {pieces : List String} (h : String.join pieces = render tokens) :
    let text := (render tokens).toUTF8
    let sink := Sink.ofLimit (some limit) flushFails
    let result : Except SinkError Unit :=
      if limit < text.size then .error .limitReached
      else if flushFails then .error .flushFailed else .ok ()
    ∃ s made, s.accepted = text.extract 0 (min limit text.size) ∧ write sink tokens = (s, result) ∧
      sink.serve (Sink.delivery pieces) = ⟨s, made, result⟩ ∧
      (.flush ∈ made ↔ text.size ≤ limit) := by
  intro text sink result
  have hfits : sink.Fits (lines tokens) ↔ text.size ≤ limit := Sink.fits_ofLimit_iff
  have hresult :
      (if sink.Fits (lines tokens) then sink.flush else .error .limitReached) = result := by
    simp only [hfits, result, ← Nat.not_lt, ite_not]
    rfl
  have hmin : text.extract 0 limit = text.extract 0 (min limit text.size) := by
    rcases Nat.le_total text.size limit with hle | hle
    · rw [Nat.min_eq_right hle, Sink.extract_of_size_le hle,
        Sink.extract_of_size_le (Nat.le_refl _)]
    · rw [Nat.min_eq_left hle]
  obtain ⟨made, hserve, hflush⟩ := sink.serve_delivery pieces
  simp only [Sink.filledWith_congr h, Sink.fits_congr h] at hserve hflush
  refine ⟨sink.filledWith (lines tokens), made, ?_, ?_, ?_, hflush.trans hfits⟩
  · rw [← hmin]
    exact Sink.accepted_filledWith_ofLimit limit flushFails (lines tokens)
  · rw [write_eq, hresult]
  · rw [hserve, hresult]

/-- A limit of 74 bytes falls inside the `ñ` of the row, and the report is delivered in
characters. -/
theorem write_limited_inside :
    let tokens : List Token := [⟨.identifier, "ñ", .start⟩]
    let pieces := (render tokens).toList.map fun c => String.ofList [c]
    String.join pieces = render tokens ∧
      ∃ s made, s.accepted = (render tokens).toUTF8.extract 0 74 ∧
        write (Sink.ofLimit (some 74) true) tokens = (s, .error .limitReached) ∧
        (Sink.ofLimit (some 74) true).serve (Sink.delivery pieces) =
          ⟨s, made, .error .limitReached⟩ ∧
        .flush ∉ made := by
  intro tokens pieces
  have hsize : (render tokens).toUTF8.size = 124 := by decide +kernel
  have hpieces : String.join pieces = render tokens := by decide +kernel
  obtain ⟨s, made, haccepted, hwrite, hserve, hflush⟩ := write_limited tokens 74 true hpieces
  simp only [hsize] at haccepted hwrite hserve hflush
  have hnot : .flush ∉ made := fun hmade => absurd (hflush.mp hmade) (by decide)
  exact ⟨hpieces, s, made, haccepted, hwrite, hserve, hnot⟩

end Report

end Lexico
