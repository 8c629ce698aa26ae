import Lexico.Proofs.Source.Boundary
import Lexico.Proofs.Source.Searching

/-!
# Moving through a text

A cursor is moved through a text by searches, by eating bytes of a class, and by single steps. A
single step is allowed where the text is not at its end; all else is allowed anywhere, as long as
what is eaten has no zero byte. Such moves keep the cursor inside the text, from whatever offset it
starts and in whatever order they are made:

    exists_step : c.Inside s → m.Allowed c → ∃ d, m.make c = .ok d ∧ m.Leads s c d
    Route.inside : Route c ms d → c.Inside s → d.Inside s
-/

namespace Lexico

namespace Cursor

/-- A move. -/
inductive Move where
  | eatWhile (p : UInt8 → Bool) (h : p Byte.nul = false)
  | eatBlanks
  | eatLine
  | toStringDelimiter
  | pastCommentEnd
  | advance
  | advanceChar

namespace Move

/-- Makes a move. -/
def make (c : Cursor) : Move → Except Fault Cursor
  | .eatWhile p _ => c.eatWhile p
  | .eatBlanks => c.eatBlanks
  | .eatLine => c.eatLine
  | .toStringDelimiter => return (← c.toStringDelimiter).2
  | .pastCommentEnd => return (← c.pastCommentEnd).2
  | .advance => c.advance 1
  | .advanceChar => c.advanceChar

/-- Makes a move, audited. -/
def audit (c : Cursor) : Move → Audited Cursor
  | .eatWhile p _ => Audit.eatWhile c p
  | .eatBlanks => Audit.eatBlanks c
  | .eatLine => Audit.eatLine c
  | .toStringDelimiter => return (← Audit.toStringDelimiter c).2
  | .pastCommentEnd => return (← Audit.pastCommentEnd c).2
  | .advance => Audit.advance c 1
  | .advanceChar => Audit.advanceChar c

/-- Single steps are not made from the end of the text. -/
def Allowed (c : Cursor) : Move → Prop
  | .advance | .advanceChar => c.isEof = .ok false
  | _ => True

theorem result_audit (c : Cursor) (m : Move) : (m.audit c).result = m.make c := by
  cases m <;> simp [audit, make]

end Move

/-! ### One move -/

variable {s : Source} {c d : Cursor} {m : Move}

/-- Eating comes to an end at the sentinel. -/
theorem exists_skipWhile {p : UInt8 → Bool} (hp : p Byte.nul = false) {i : Nat}
    (hi : i ≤ s.text.utf8ByteSize) : ∃ j, (Buffer.ofSource s).skipWhile p i = .ok j := by
  fun_induction (Buffer.ofSource s).skipWhile p i with
  | case1 i hlt hbyte ih =>
    have hinside : Inside s ⟨.ofSource s, i⟩ := ⟨rfl, hi⟩
    -- what is eaten is no zero byte, so it is not the sentinel and there is text behind it
    have hon : On s ⟨.ofSource s, i⟩ := by
      apply hinside.on_of_current (b := (Buffer.ofSource s).bytes[i])
      · exact dif_pos hlt
      · intro hnul
        rw [hnul, hp] at hbyte
        cases hbyte
    exact ih hon.lt
  | case2 i => exact ⟨i, rfl⟩
  | case3 i hge =>
    have hinside : Inside s ⟨.ofSource s, i⟩ := ⟨rfl, hi⟩
    exact absurd hinside.lt_size hge

theorem On.exists_advanceChar (h : c.On s) : ∃ d, c.advanceChar = .ok d := by
  have hcurrent := h.inside.current_eq
  have hle := h.add_charWidth_le hcurrent
  exact ⟨_, Fault.bind_eq_ok_iff.mpr ⟨_, hcurrent, advance_of_le s hle⟩⟩

/-- A move that is allowed can be made. -/
theorem Inside.exists_make (h : c.Inside s) (hm : m.Allowed c) : ∃ d, m.make c = .ok d := by
  cases m with
  | eatWhile p hp =>
    obtain ⟨i, hi⟩ := exists_skipWhile hp h.le
    exact ⟨_, eatWhile_eq_ok_iff.mpr ⟨i, h.buffer ▸ hi, rfl⟩⟩
  | eatBlanks =>
    obtain ⟨i, hi⟩ := exists_skipWhile (p := Byte.isBlank) (by decide) h.le
    exact ⟨_, eatWhile_eq_ok_iff.mpr ⟨i, h.buffer ▸ hi, rfl⟩⟩
  | eatLine =>
    obtain ⟨x, -, heat⟩ := h.eatLine_first
    exact ⟨_, heat⟩
  | toStringDelimiter =>
    obtain ⟨x, -, hto⟩ := h.toStringDelimiter_first
    exact ⟨_, Fault.bind_eq_ok_iff.mpr ⟨_, hto, rfl⟩⟩
  | pastCommentEnd =>
    obtain ⟨x, -, hpast⟩ := h.pastCommentEnd_first
    exact ⟨_, Fault.bind_eq_ok_iff.mpr ⟨_, hpast, rfl⟩⟩
  | advance => exact ⟨_, advance_of_le s (h.isEof_eq_false_iff.mp hm).lt⟩
  | advanceChar => exact (h.isEof_eq_false_iff.mp hm).exists_advanceChar

/-- A move goes forward. -/
theorem le_of_make (h : m.make c = .ok d) : c ≤ d := by
  cases m with
  | eatWhile p hp => exact le_of_eatWhile h
  | eatBlanks => exact le_of_eatWhile h
  | eatLine => exact le_of_eatLine h
  | toStringDelimiter =>
    obtain ⟨⟨b, d⟩, hto, hd⟩ := Fault.bind_eq_ok_iff.mp h
    cases hd
    exact le_of_toStringDelimiter hto
  | pastCommentEnd =>
    obtain ⟨⟨closed, d⟩, hpast, hd⟩ := Fault.bind_eq_ok_iff.mp h
    cases hd
    exact le_of_pastCommentEnd hpast
  | advance => exact le_of_advance h
  | advanceChar => exact le_of_lt (lt_of_advanceChar h)

/-- What a move does that is allowed is safe, and it ends in the text. -/
theorem Inside.safe_audit (h : c.Inside s) (hm : m.Allowed c) :
    (m.audit c).Safe (.ofSource s) fun d => d.Inside s := by
  cases m with
  | eatWhile p hp => exact Audit.safe_eatWhile h hp
  | eatBlanks => exact Audit.safe_eatWhile h (by decide)
  | eatLine => exact Audit.safe_eatLine h
  | toStringDelimiter =>
    exact (Audit.safe_toStringDelimiter h).bind fun _ hx => Audited.Safe.pure hx.1
  | pastCommentEnd => exact (Audit.safe_pastCommentEnd h).bind fun _ hx => Audited.Safe.pure hx
  | advance => exact Audit.safe_advance_one (h.isEof_eq_false_iff.mp hm)
  | advanceChar => exact Audit.safe_advanceChar (h.isEof_eq_false_iff.mp hm)

end Cursor

/-- The next boundary is behind the next character. -/
theorem Source.isLeast_boundary_cons {s : Source} {u r : List Char} {x : Char}
    (htext : s.text.toList = u ++ x :: r) :
    IsLeast {i | byteLength u < i ∧ s.IsBoundary i} (byteLength (u ++ [x])) := by
  have hpos := x.utf8Size_pos
  refine ⟨⟨?_, isBoundary_iff.mpr ⟨u ++ [x], r, by simp [htext], rfl⟩⟩, ?_⟩
  · rw [byteLength_append, byteLength_cons]
    omega
  · rintro i ⟨hlt, hi⟩
    obtain ⟨v, w, hsplit, rfl⟩ := isBoundary_iff.mp hi
    obtain ⟨y, rfl, hy⟩ :=
      exists_append_of_byteLength_le (htext.symm.trans hsplit) (Nat.le_of_lt hlt)
    cases y with
    | nil => simp at hlt
    | cons y ys =>
      obtain ⟨rfl, -⟩ := List.cons.inj hy
      simp only [byteLength_append, byteLength_cons, byteLength_nil]
      omega

namespace Cursor

variable {s : Source} {c d : Cursor} {m : Move}

/-- From between two characters the cursor gets behind the next one. -/
theorem On.isLeast_advanceChar (h : c.On s) (hd : c.advanceChar = .ok d)
    (hc : s.IsBoundary c.offset) :
    IsLeast {i | c.offset < i ∧ s.IsBoundary i} d.offset := by
  obtain ⟨u, r, htext, hu⟩ := Source.isBoundary_iff.mp hc
  obtain ⟨b, i⟩ := c
  cases h.buffer
  cases hu
  cases r with
  | nil =>
    have hlt := h.lt
    rw [utf8ByteSize_eq, htext, List.append_nil] at hlt
    exact absurd hlt (Nat.lt_irrefl _)
  | cons x r =>
    have hafter := advanceChar_after htext
    cases hafter.symm.trans hd
    exact Source.isLeast_boundary_cons htext

/-- What a move does to a cursor in the text of the source. -/
structure Move.Leads (s : Source) (m : Move) (c d : Cursor) : Prop where
  le : c ≤ d
  inside : d.Inside s
  next : m = .advanceChar → s.IsBoundary c.offset →
    IsLeast {i | c.offset < i ∧ s.IsBoundary i} d.offset

/-- **One move** that is allowed can be made, forward and inside the text. -/
theorem Inside.exists_step (h : c.Inside s) (hm : m.Allowed c) :
    ∃ d, m.make c = .ok d ∧ m.Leads s c d := by
  obtain ⟨d, hd⟩ := h.exists_make hm
  refine ⟨d, hd, le_of_make hd, (h.safe_audit hm).2 d ((m.result_audit c).trans hd), ?_⟩
  rintro rfl hc
  exact (h.isEof_eq_false_iff.mp hm).isLeast_advanceChar hd hc

/-! ### Many moves -/

/-- Moves lead from one cursor to another, each allowed where it is made. -/
inductive Route (c : Cursor) : List Move → Cursor → Prop where
  | start : Route c [] c
  | step {ms : List Move} {m : Move} {d e : Cursor} (h : Route c ms d) (hm : m.Allowed d)
      (hmake : m.make d = .ok e) : Route c (ms ++ [m]) e

theorem Route.le {ms : List Move} (h : Route c ms d) : c ≤ d := by
  induction h with
  | start => exact le_refl c
  | step _ _ hmake ih =>
    have hle := le_of_make hmake
    exact ⟨hle.1.trans ih.1, Nat.le_trans ih.2 hle.2⟩

/-- **Many moves** stay inside the text. -/
theorem Route.inside {ms : List Move} (h : Route c ms d) (hc : c.Inside s) : d.Inside s := by
  induction h with
  | start => exact hc
  | step _ hm hmake ih =>
    obtain ⟨e, he, hleads⟩ := ih.exists_step hm
    cases he.symm.trans hmake
    exact hleads.inside

end Cursor

open Cursor (Move Route)

/-- **Moving through a text** from any offset, by any allowed moves: the cursor has not gone back,
it is inside the text, and it sees the end where the end is. Whatever move is allowed next can be
made, all that is done on the way is safe, and it leads on inside the text; from between two
characters `advanceChar` leads to the next place between two. -/
theorem Source.route_inside {s : Source} {k : Nat} {ms : List Move} {c : Cursor}
    (h : Route ((Buffer.ofSource s).cursorAt k) ms c) :
    (Buffer.ofSource s).cursorAt k ≤ c ∧ c.sourceLen = s.text.utf8ByteSize ∧
      c.offset ≤ c.sourceLen ∧ c.isEof = .ok (decide (c.offset = c.sourceLen)) ∧
      ∀ m : Move, m.Allowed c → ∃ d, m.make c = .ok d ∧ m.Leads s c d ∧
        (m.audit c).result = .ok d ∧ ∀ y ∈ (m.audit c).accesses, y.Safe (.ofSource s) := by
  have hc := h.inside (Cursor.inside_cursorAt s k)
  have hlen := hc.sourceLen
  refine ⟨h.le, hlen, hlen ▸ hc.le, hlen ▸ hc.isEof_eq, ?_⟩
  intro m hm
  obtain ⟨d, hd, hleads⟩ := hc.exists_step hm
  exact ⟨d, hd, hleads, (m.result_audit c).trans hd, (hc.safe_audit hm).1⟩

/-- From inside a character and over a zero byte, up to the last character and behind it. -/
theorem Source.route_inside_zero :
    let s : Source := ⟨"aé\x00€", by decide⟩
    let c : Cursor := ⟨.ofSource s, 4⟩
    Route ((Buffer.ofSource s).cursorAt 2) [.advanceChar, .advance] c ∧ c.isEof = .ok false ∧
      s.IsBoundary 4 ∧ ∃ d, c.advanceChar = .ok d ∧ d.Inside s ∧
        IsLeast {i | 4 < i ∧ s.IsBoundary i} d.offset := by
  intro s c
  let inside : Cursor := ⟨.ofSource s, 2⟩
  let zero : Cursor := ⟨.ofSource s, 3⟩
  have hstart : (Buffer.ofSource s).cursorAt 2 = inside := by
    rw [Buffer.cursorAt, Buffer.sourceLen_ofSource]
    rfl
  have hinside : inside.isEof = .ok false := Fault.eq_ok_of_toOption (by decide +kernel)
  have hzero : zero.isEof = .ok false := Fault.eq_ok_of_toOption (by decide +kernel)
  have hend : c.isEof = .ok false := Fault.eq_ok_of_toOption (by decide +kernel)
  have hcurrent : inside.current = .ok 0xa9 := Fault.eq_ok_of_toOption (by decide +kernel)
  have hchar : inside.advanceChar = .ok zero :=
    Fault.bind_eq_ok_iff.mpr ⟨_, hcurrent, if_pos (by decide)⟩
  have hbyte : zero.advance 1 = .ok c := if_pos (by decide)
  have hroute : Route ((Buffer.ofSource s).cursorAt 2) [.advanceChar, .advance] c := by
    rw [hstart]
    exact .step (.step .start (m := .advanceChar) hinside hchar) (m := .advance) hzero hbyte
  have hboundary : s.IsBoundary 4 :=
    isBoundary_iff.mpr ⟨['a', 'é', '\x00'], ['€'], by decide +kernel, by decide⟩
  obtain ⟨-, -, -, -, hmoves⟩ := Source.route_inside hroute
  obtain ⟨d, hd, hleads, -⟩ := hmoves .advanceChar hend
  exact ⟨hroute, hend, hboundary, d, hd, hleads.inside, hleads.next rfl hboundary⟩

end Lexico
