import Lexico.Proofs.Source.Cursor

/-!
# Audits

An **audited** computation lists what it does on the way: the bytes it reads, the places from which
it goes through the text, and the sums and differences it forms of numbers that have 32 bits. Lines
and columns are not among those: they saturate (`saturatingAdd`). Without the list it is the
computation as it was (`Audited.result_bind`), and each operation on cursors has an audited form with
the same result.

`x.Safe b Q` says that all of that is within bounds for the buffer `b`, and that a result satisfies
`Q`. The rules for `Safe` follow the way in which computations are put together. What the operations
need is only that a cursor is inside the text (`Cursor.Inside`), and for some of them that it is not
at the end (`Cursor.On`).
-/

namespace Lexico

/-! ### Accesses -/

/-- What may go wrong where nobody checks it. -/
inductive Access where
  /-- The byte at an offset is read. -/
  | read (offset : Nat)
  /-- The text is gone through from an offset to its end. -/
  | slice (start : Nat)
  /-- Two numbers are added. -/
  | add (a n : Nat)
  /-- One number is subtracted from another. -/
  | sub (a n : Nat)
  deriving DecidableEq, Repr

/-- Bytes are read up to the end of the padding, the text is gone through from a place in it, and
numbers do not wrap. -/
def Access.Safe (b : Buffer) : Access → Prop
  | read offset => offset < b.bytes.size
  | slice start => start ≤ b.sourceLen
  | add a n => a + n < offsetLimit
  | sub a n => n ≤ a

/-- A computation, and what it does on the way. -/
structure Audited (α : Type) where
  accesses : List Access
  result : Except Fault α

namespace Audited

variable {α β : Type}

/-- A fault ends a computation. -/
instance : Monad Audited where
  pure a := ⟨[], .ok a⟩
  bind x f :=
    match x.result with
    | .ok a => ⟨x.accesses ++ (f a).accesses, (f a).result⟩
    | .error fault => ⟨x.accesses, .error fault⟩

/-- Only an access. -/
def note (y : Access) : Audited Unit := ⟨[y], .ok ()⟩

/-- A computation without accesses. -/
def lift (x : Except Fault α) : Audited α := ⟨[], x⟩

/-- The result together with the proof that it is the one. -/
def attach : (x : Audited α) → Audited { a : α // x.result = .ok a }
  | ⟨accesses, .ok a⟩ => ⟨accesses, .ok ⟨a, rfl⟩⟩
  | ⟨accesses, .error fault⟩ => ⟨accesses, .error fault⟩

/-! ### Results -/

@[simp] theorem result_pure (a : α) : (Pure.pure a : Audited α).result = Pure.pure a := rfl

@[simp] theorem result_note (y : Access) : (note y).result = .ok () := rfl

theorem result_lift (x : Except Fault α) : (lift x).result = x := rfl

@[simp] theorem result_bind (x : Audited α) (f : α → Audited β) :
    (x >>= f).result = x.result >>= fun a => (f a).result := by
  obtain ⟨accesses, result⟩ := x
  cases result <;> rfl

theorem result_note_bind (y : Access) (f : Unit → Audited β) :
    (note y >>= f).result = (f ()).result := rfl

@[simp] theorem result_ite {p : Prop} [Decidable p] (x y : Audited α) :
    (if p then x else y).result = if p then x.result else y.result := apply_ite ..

theorem result_attach_bind {x : Audited α} {a : α} (h : x.result = .ok a)
    (f : { a : α // x.result = .ok a } → Audited β) :
    (x.attach >>= f).result = (f ⟨a, h⟩).result := by
  obtain ⟨accesses, result⟩ := x
  cases h
  rfl

theorem result_attach_bind_of_error {x : Audited α} {fault : Fault} (h : x.result = .error fault)
    (f : { a : α // x.result = .ok a } → Audited β) :
    (x.attach >>= f).result = .error fault := by
  obtain ⟨accesses, result⟩ := x
  cases h
  rfl

/-! ### Safety -/

/-- All that the computation does is safe, and a result satisfies `Q`. -/
def Safe (x : Audited α) (b : Buffer) (Q : α → Prop) : Prop :=
  (∀ y ∈ x.accesses, y.Safe b) ∧ ∀ a, x.result = .ok a → Q a

namespace Safe

variable {x : Audited α} {b : Buffer} {P : α → Prop}

theorem pure {a : α} (h : P a) : (Pure.pure a : Audited α).Safe b P := by
  refine ⟨nofun, ?_⟩
  intro _ ha
  cases ha
  exact h

theorem lift {x : Except Fault α} (h : ∀ a, x = .ok a → P a) : (Audited.lift x).Safe b P :=
  ⟨nofun, h⟩

theorem bind {f : α → Audited β} {Q : β → Prop} (h : x.Safe b P)
    (hf : ∀ a, P a → (f a).Safe b Q) : (x >>= f).Safe b Q := by
  obtain ⟨accesses, result⟩ := x
  cases result with
  | error fault => exact ⟨h.1, nofun⟩
  | ok a =>
    have hrest := hf a (h.2 a rfl)
    refine ⟨?_, hrest.2⟩
    intro y hy
    rcases List.mem_append.mp hy with hy | hy
    · exact h.1 y hy
    · exact hrest.1 y hy

theorem note_bind {y : Access} {f : Unit → Audited β} {Q : β → Prop} (hy : y.Safe b)
    (hf : (f ()).Safe b Q) : (note y >>= f).Safe b Q := by
  have hnote : (note y).Safe b fun _ => True := ⟨by simpa [note] using hy, fun _ _ => trivial⟩
  exact hnote.bind fun _ _ => hf

theorem read {i : Nat} {f : Unit → Audited β} {Q : β → Prop} (hi : i < b.bytes.size)
    (hf : (f ()).Safe b Q) : (note (.read i) >>= f).Safe b Q := note_bind hi hf

theorem slice {i : Nat} {f : Unit → Audited β} {Q : β → Prop} (hi : i ≤ b.sourceLen)
    (hf : (f ()).Safe b Q) : (note (.slice i) >>= f).Safe b Q := note_bind hi hf

theorem add {m n : Nat} {f : Unit → Audited β} {Q : β → Prop} (hn : m + n < offsetLimit)
    (hf : (f ()).Safe b Q) : (note (.add m n) >>= f).Safe b Q := note_bind hn hf

theorem sub {m n : Nat} {f : Unit → Audited β} {Q : β → Prop} (hn : n ≤ m)
    (hf : (f ()).Safe b Q) : (note (.sub m n) >>= f).Safe b Q := note_bind hn hf

theorem attach (h : x.Safe b P) : x.attach.Safe b fun a => P a.1 := by
  obtain ⟨accesses, result⟩ := x
  refine ⟨?_, fun a _ => h.2 a.1 a.2⟩
  cases result <;> exact h.1

end Safe
end Audited

/-! ### Looking and moving -/

namespace Audit

open Audited (note lift)

/-- `Cursor.current` -/
def current (c : Cursor) : Audited UInt8 := do
  note (.read c.offset)
  lift c.current

/-- `Cursor.peek` -/
def peek (c : Cursor) : Audited UInt8 := do
  note (.read (c.offset + 1))
  lift c.peek

/-- `Cursor.isEof` -/
def isEof (c : Cursor) : Audited Bool := do
  return (← current c) == Byte.nul && c.sourceLen ≤ c.offset

/-- `Cursor.advance` -/
def advance (c : Cursor) (n : Nat) : Audited Cursor := do
  note (.add c.offset n)
  lift (c.advance n)

/-- `Cursor.advanceChar` -/
def advanceChar (c : Cursor) : Audited Cursor := do
  advance c (Byte.charWidth (← current c))

/-- `Buffer.skipWhile`, which goes on by single bytes. -/
def skipWhile (b : Buffer) (p : UInt8 → Bool) (i : Nat) : Audited Nat := do
  note (.read i)
  if h : i < b.bytes.size then
    if p b.bytes[i] then
      note (.add i 1)
      skipWhile b p (i + 1)
    else return i
  else lift (.error (.readPastPadding i))
termination_by b.bytes.size - i

/-- `Cursor.eatWhile` -/
def eatWhile (c : Cursor) (p : UInt8 → Bool) : Audited Cursor := do
  return { c with offset := ← skipWhile c.buffer p c.offset }

/-- `Cursor.eatBlanks` -/
def eatBlanks (c : Cursor) : Audited Cursor := eatWhile c Byte.isBlank

/-- `Cursor.eatLine`, which adds how far the line feed is. -/
def eatLine (c : Cursor) : Audited Cursor := do
  note (.slice c.offset)
  let d ← lift c.eatLine
  if d.offset < c.sourceLen then note (.add c.offset (d.offset - c.offset))
  return d

/-- `Cursor.toStringDelimiter`, which adds how far the delimiter is and reads it. -/
def toStringDelimiter (c : Cursor) : Audited (UInt8 × Cursor) := do
  note (.slice c.offset)
  let (b, d) ← lift c.toStringDelimiter
  if d.offset < c.sourceLen then
    note (.add c.offset (d.offset - c.offset))
    note (.read d.offset)
  return (b, d)

/-- `Cursor.pastCommentEnd`, which adds the two bytes of the end to how far it is. -/
def pastCommentEnd (c : Cursor) : Audited (Bool × Cursor) := do
  note (.slice c.offset)
  let (closed, d) ← lift c.pastCommentEnd
  if closed then
    note (.add (d.offset - 2 - c.offset) 2)
    note (.add c.offset (d.offset - c.offset))
  return (closed, d)

/-- `Buffer.cursorAt`, which checks the sentinel. -/
def cursorAt (b : Buffer) (offset : Nat) : Audited Cursor := do
  note (.read b.sourceLen)
  note (.add 0 (min offset b.sourceLen))
  return b.cursorAt offset

/-! ### The results are the same -/

@[simp] theorem result_current (c : Cursor) : (current c).result = c.current := rfl

@[simp] theorem result_peek (c : Cursor) : (peek c).result = c.peek := rfl

@[simp] theorem result_isEof (c : Cursor) : (isEof c).result = c.isEof := by
  rw [isEof, Audited.result_bind, result_current]
  rfl

@[simp] theorem result_advance (c : Cursor) (n : Nat) : (advance c n).result = c.advance n := rfl

@[simp] theorem result_advanceChar (c : Cursor) : (advanceChar c).result = c.advanceChar := by
  rw [advanceChar, Audited.result_bind, result_current]
  rfl

@[simp] theorem result_skipWhile (b : Buffer) (p : UInt8 → Bool) (i : Nat) :
    (skipWhile b p i).result = b.skipWhile p i := by
  fun_induction Buffer.skipWhile b p i with
  | case1 i hi hp ih =>
    rw [skipWhile, Audited.result_note_bind, dif_pos hi, if_pos hp, Audited.result_note_bind, ih]
  | case2 i hi hp => rw [skipWhile, Audited.result_note_bind, dif_pos hi, if_neg hp]; rfl
  | case3 i hi => rw [skipWhile, Audited.result_note_bind, dif_neg hi]; rfl

@[simp] theorem result_eatWhile (c : Cursor) (p : UInt8 → Bool) :
    (eatWhile c p).result = c.eatWhile p := by
  rw [eatWhile, Audited.result_bind, result_skipWhile]
  rfl

@[simp] theorem result_eatBlanks (c : Cursor) : (eatBlanks c).result = c.eatBlanks :=
  result_eatWhile c _

@[simp] theorem result_eatLine (c : Cursor) : (eatLine c).result = c.eatLine := by
  rw [eatLine, Audited.result_note_bind, Audited.result_bind, Audited.result_lift]
  cases c.eatLine with
  | error fault => rfl
  | ok d =>
    show Audited.result (if _ then _ else _) = _
    split <;> rfl

@[simp] theorem result_toStringDelimiter (c : Cursor) :
    (toStringDelimiter c).result = c.toStringDelimiter := by
  rw [toStringDelimiter, Audited.result_note_bind, Audited.result_bind, Audited.result_lift]
  cases c.toStringDelimiter with
  | error fault => rfl
  | ok x =>
    show Audited.result (if _ then _ else _) = _
    split <;> rfl

@[simp] theorem result_pastCommentEnd (c : Cursor) :
    (pastCommentEnd c).result = c.pastCommentEnd := by
  rw [pastCommentEnd, Audited.result_note_bind, Audited.result_bind, Audited.result_lift]
  cases c.pastCommentEnd with
  | error fault => rfl
  | ok x =>
    show Audited.result (if _ then _ else _) = _
    split <;> rfl

@[simp] theorem result_cursorAt (b : Buffer) (offset : Nat) :
    (cursorAt b offset).result = .ok (b.cursorAt offset) := rfl

end Audit

/-! ### Inside the text -/

/-- The cursor is in the buffer of the source and no farther than at the end of the text. -/
structure Cursor.Inside (s : Source) (c : Cursor) : Prop where
  buffer : c.buffer = .ofSource s
  le : c.offset ≤ s.text.utf8ByteSize

/-- The cursor is at a byte of the text. -/
structure Cursor.On (s : Source) (c : Cursor) : Prop where
  buffer : c.buffer = .ofSource s
  lt : c.offset < s.text.utf8ByteSize

namespace Cursor

variable {s : Source} {c d : Cursor}

theorem On.inside (h : c.On s) : c.Inside s := ⟨h.buffer, Nat.le_of_lt h.lt⟩

theorem Inside.sourceLen (h : c.Inside s) : c.sourceLen = s.text.utf8ByteSize := by
  rw [Cursor.sourceLen, h.buffer, Buffer.sourceLen_ofSource]

theorem Inside.le_sourceLen (h : c.Inside s) : c.offset ≤ c.sourceLen := h.sourceLen ▸ h.le

theorem Inside.lt_size (h : c.Inside s) : c.offset < (Buffer.ofSource s).bytes.size :=
  Nat.lt_of_le_of_lt (Buffer.sourceLen_ofSource s ▸ h.le) (Buffer.sourceLen_lt_size_ofSource s)

/-- Behind the text there is the sentinel. -/
theorem Inside.on_of_current (h : c.Inside s) {b : UInt8} (hb : c.current = .ok b)
    (hne : b ≠ Byte.nul) : c.On s := by
  refine ⟨h.buffer, Nat.lt_of_le_of_ne h.le ?_⟩
  intro hend
  have hbyte : c.current = .ok Byte.nul := by
    have hafter : c = s.after s.text.toList := by
      obtain ⟨b, i⟩ := c
      cases h.buffer
      rw [Source.after, ← utf8ByteSize_eq]
      exact congrArg _ hend
    rw [hafter, current_after (List.append_nil _).symm, Byte.first_nil]
  rw [hbyte, Except.ok.injEq] at hb
  exact hne hb.symm

/-- The character at a byte of the text ends in the text. -/
theorem On.add_charWidth_le (h : c.On s) {b : UInt8} (hb : c.current = .ok b) :
    c.offset + Byte.charWidth b ≤ s.text.utf8ByteSize := by
  rw [current, h.buffer, Buffer.read_eq_byteAt h.inside.lt_size, Buffer.byteAt_ofSource,
    Except.ok.injEq] at hb
  have hlt : c.offset < (encode s.text.toList).length := by
    rw [length_encode, ← utf8ByteSize_eq]
    exact h.lt
  rw [List.getElem?_eq_getElem hlt, Option.getD_some] at hb
  rw [utf8ByteSize_eq]
  exact Byte.add_charWidth_le (hb ▸ List.getElem?_eq_getElem hlt)

theorem Inside.of_eatLine (h : c.Inside s) (hd : c.eatLine = .ok d) : c ≤ d ∧ d.Inside s := by
  have hle := le_of_eatLine hd
  refine ⟨hle, hle.1.trans h.buffer, ?_⟩
  rw [eatLine] at hd
  split at hd
  · next hstart =>
    cases hd
    exact h.sourceLen ▸ Buffer.find_le hstart
  · cases hd

theorem Inside.of_toStringDelimiter (h : c.Inside s) {b : UInt8}
    (hd : c.toStringDelimiter = .ok (b, d)) :
    c ≤ d ∧ d.Inside s ∧ (b ≠ Byte.nul → d.On s) := by
  have hle := le_of_toStringDelimiter hd
  have hbuffer := hle.1.trans h.buffer
  refine ⟨hle, ⟨hbuffer, ?_⟩, fun hb => ⟨hbuffer, h.sourceLen ▸ lt_of_toStringDelimiter hd hb⟩⟩
  rw [toStringDelimiter] at hd
  split at hd
  · next hstart =>
    cases hd
    exact h.sourceLen ▸ Buffer.find_le hstart
  · cases hd

theorem Inside.of_pastCommentEnd (h : c.Inside s) {closed : Bool}
    (hd : c.pastCommentEnd = .ok (closed, d)) :
    d.Inside s ∧ (closed = true → c.offset + 2 ≤ d.offset) := by
  have hlen := h.sourceLen
  rw [pastCommentEnd] at hd
  split at hd
  · split at hd
    · next i hi =>
      cases hd
      have hbounds := Buffer.bounds_of_findPair? hi
      refine ⟨⟨h.buffer, ?_⟩, fun _ => ?_⟩
      · show i + 2 ≤ _
        omega
      · show c.offset + 2 ≤ i + 2
        omega
    · cases hd
      exact ⟨⟨h.buffer, Nat.le_of_eq hlen⟩, nofun⟩
  · cases hd

end Cursor

/-! ### Operations inside the text are safe -/

namespace Audit

open Cursor (Inside On)
open Audited (Safe)

variable {s : Source} {c : Cursor}

/-- What is at a cursor is a byte of the text unless it is zero. -/
theorem safe_current (h : c.Inside s) :
    (current c).Safe (.ofSource s) fun b => c.current = .ok b ∧ (b ≠ Byte.nul → c.On s) := by
  apply Safe.read h.lt_size
  apply Safe.lift
  intro b hb
  exact ⟨hb, h.on_of_current hb⟩

/-- Behind a byte of the text one more byte may be looked at. -/
theorem safe_peek (h : c.On s) :
    (peek c).Safe (.ofSource s) fun b =>
      b ≠ Byte.nul → c.offset + 1 < s.text.utf8ByteSize := by
  have hnext : Inside s ⟨c.buffer, c.offset + 1⟩ := ⟨h.buffer, h.lt⟩
  apply Safe.read hnext.lt_size
  apply Safe.lift
  intro b hb hne
  exact (hnext.on_of_current hb hne).lt

theorem safe_isEof (h : c.Inside s) :
    (isEof c).Safe (.ofSource s) fun e => e = false → c.On s := by
  apply (safe_current h).bind
  rintro b ⟨-, hon⟩
  apply Safe.pure
  intro he
  rcases Bool.and_eq_false_iff.mp he with hb | hlen
  · exact hon (by simpa using hb)
  · refine ⟨h.buffer, ?_⟩
    rw [h.sourceLen] at hlen
    simpa using hlen

theorem safe_advance (h : c.Inside s) {n : Nat} (hn : c.offset + n ≤ s.text.utf8ByteSize) :
    (advance c n).Safe (.ofSource s) fun d => d.Inside s := by
  apply Safe.add (Nat.lt_of_le_of_lt hn s.size_lt)
  apply Safe.lift
  intro d hd
  obtain ⟨-, rfl⟩ := Cursor.advance_eq_ok_iff.mp hd
  exact ⟨h.buffer, hn⟩

theorem safe_advance_one (h : c.On s) : (advance c 1).Safe (.ofSource s) fun d => d.Inside s :=
  safe_advance h.inside h.lt

theorem safe_advanceChar (h : c.On s) :
    (advanceChar c).Safe (.ofSource s) fun d => d.Inside s := by
  apply (safe_current h.inside).bind
  rintro b ⟨hb, -⟩
  exact safe_advance h.inside (h.add_charWidth_le hb)

/-- Bytes are skipped up to the sentinel at most. -/
theorem safe_skipWhile {p : UInt8 → Bool} (hp : p Byte.nul = false) {i : Nat}
    (hi : i ≤ s.text.utf8ByteSize) :
    (skipWhile (.ofSource s) p i).Safe (.ofSource s) fun j => j ≤ s.text.utf8ByteSize := by
  have hinside : Inside s ⟨.ofSource s, i⟩ := ⟨rfl, hi⟩
  have hlt : i < (Buffer.ofSource s).bytes.size := hinside.lt_size
  induction hn : (Buffer.ofSource s).bytes.size - i using Nat.strongRecOn generalizing i with
  | ind n ih =>
    rw [skipWhile]
    apply Safe.read hlt
    rw [dif_pos hlt]
    split
    · next hbyte =>
      have hon : On s ⟨.ofSource s, i⟩ := by
        apply hinside.on_of_current (b := (Buffer.ofSource s).bytes[i])
        · exact dif_pos hlt
        · intro hnul
          rw [hnul, hp] at hbyte
          cases hbyte
      have hnext : i + 1 ≤ s.text.utf8ByteSize := hon.lt
      have hinside' : Inside s ⟨.ofSource s, i + 1⟩ := ⟨rfl, hnext⟩
      apply Safe.add (Nat.lt_of_le_of_lt hnext s.size_lt)
      exact ih _ (by omega) hnext hinside' hinside'.lt_size rfl
    · exact Safe.pure hi

theorem safe_eatWhile (h : c.Inside s) {p : UInt8 → Bool} (hp : p Byte.nul = false) :
    (eatWhile c p).Safe (.ofSource s) fun d => d.Inside s := by
  rw [eatWhile, h.buffer]
  apply (safe_skipWhile hp h.le).bind
  intro i hi
  exact Safe.pure ⟨rfl, hi⟩

/-- How far a place in the text is from an earlier one may be added. -/
theorem add_sub_lt {i j : Nat} (hij : i ≤ j) (hj : j ≤ s.text.utf8ByteSize) :
    i + (j - i) < offsetLimit := by
  have := s.size_lt
  omega

theorem safe_eatLine (h : c.Inside s) : (eatLine c).Safe (.ofSource s) fun d => d.Inside s := by
  apply Safe.slice (h.buffer ▸ h.le_sourceLen)
  apply Safe.bind (Safe.lift fun d hd => h.of_eatLine hd)
  rintro d ⟨hcd, hd⟩
  split
  · apply Safe.add (add_sub_lt hcd.2 hd.le)
    exact Safe.pure hd
  · exact Safe.pure hd

theorem safe_toStringDelimiter (h : c.Inside s) :
    (toStringDelimiter c).Safe (.ofSource s) fun x =>
      x.2.Inside s ∧ (x.1 ≠ Byte.nul → x.2.On s) := by
  apply Safe.slice (h.buffer ▸ h.le_sourceLen)
  apply Safe.bind (Safe.lift fun x hx => h.of_toStringDelimiter hx)
  rintro ⟨b, d⟩ ⟨hcd, hd, hon⟩
  show Safe (if d.offset < c.sourceLen then _ else _) _ _
  split
  · apply Safe.add (add_sub_lt hcd.2 hd.le)
    apply Safe.read hd.lt_size
    exact Safe.pure ⟨hd, hon⟩
  · exact Safe.pure ⟨hd, hon⟩

theorem safe_pastCommentEnd (h : c.Inside s) :
    (pastCommentEnd c).Safe (.ofSource s) fun x => x.2.Inside s := by
  apply Safe.slice (h.buffer ▸ h.le_sourceLen)
  apply Safe.bind (Safe.lift fun x hx => h.of_pastCommentEnd hx)
  rintro ⟨closed, d⟩ ⟨hd, hclosed⟩
  show Safe (if closed = true then _ else _) _ _
  split
  · next hc =>
    have hfar := hclosed hc
    have hlen := hd.le
    have hlimit : s.text.utf8ByteSize < offsetLimit := s.size_lt
    apply Safe.add
    · show d.offset - 2 - c.offset + 2 < offsetLimit
      simp only at hfar hlen
      omega
    · apply Safe.add (add_sub_lt (Nat.le_of_add_right_le hfar) hlen)
      exact Safe.pure hd
  · exact Safe.pure hd

/-- A cursor may be put at any offset: it goes no farther than to the end of the text. -/
theorem safe_cursorAt (s : Source) (offset : Nat) :
    (cursorAt (.ofSource s) offset).Safe (.ofSource s) fun c =>
      c.Inside s ∧ c.offset = min offset s.text.utf8ByteSize := by
  have hmin : min offset s.text.utf8ByteSize ≤ s.text.utf8ByteSize := Nat.min_le_right ..
  have hoffset := Buffer.offset_cursorAt s offset
  apply Safe.read (Buffer.sourceLen_lt_size_ofSource s)
  apply Safe.add
  · rw [Nat.zero_add, Buffer.sourceLen_ofSource]
    exact Nat.lt_of_le_of_lt hmin s.size_lt
  · exact Safe.pure ⟨⟨rfl, hoffset ▸ hmin⟩, hoffset⟩

end Audit
end Lexico
