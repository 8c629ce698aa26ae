import Lexico.Proofs.Source.Looking
import Mathlib.Order.Bounds.Basic

/-!
# Searching a text

A cursor searches the text byte by byte, and stops at the first place of what it looks for, or at
the end of the text if there is no such place. A **searcher** offers routines that find first places
in a stretch of bytes: of one byte, of one byte out of three, and of a word. With any of them the
cursor may search the rest of the text at once. Where there are more than three bytes to look for,
two searches are made, and the earlier place counts. The cursor comes to the same place with the
same answer (`Searcher.finds`).
-/

namespace Lexico

/-! ### First places -/

/-- The first place at which `p` holds, if there is any. -/
def First (p : Nat → Prop) : Option Nat → Prop
  | some i => IsLeast {j | p j} i
  | none => ∀ j, ¬ p j

/-- The earlier one of two places. -/
def earlier : Option Nat → Option Nat → Option Nat
  | some i, some j => some (min i j)
  | some i, none => some i
  | none, some j => some j
  | none, none => none

namespace First

variable {p q : Nat → Prop} {x y : Option Nat}

theorem unique (hx : First p x) (hy : First p y) : x = y := by
  cases x with
  | none =>
    cases y with
    | none => rfl
    | some j => exact absurd hy.1 (hx j)
  | some i =>
    cases y with
    | none => exact absurd hx.1 (hy i)
    | some j => exact congrArg some (IsLeast.unique hx hy)

theorem congr (h : First p x) (hpq : ∀ i, p i ↔ q i) : First q x := by
  rwa [← funext fun i => propext (hpq i)]

/-- Of two things the first place is the earlier one of their first places. -/
theorem earlier (hx : First p x) (hy : First q y) :
    First (fun i => p i ∨ q i) (earlier x y) := by
  cases x with
  | none =>
    have hq : ∀ i, q i ↔ p i ∨ q i := fun i => (or_iff_right (hx i)).symm
    cases y <;> exact hy.congr hq
  | some i =>
    cases y with
    | none =>
      have hp : ∀ i, p i ↔ p i ∨ q i := fun i => (or_iff_left (hy i)).symm
      exact hx.congr hp
    | some j => exact IsLeast.union hx hy

/-- A place in what is left of the bytes is a place in all of them. -/
theorem add {n : Nat} (h : First (fun i => p (n + i)) x) :
    First (fun i => n ≤ i ∧ p i) (x.map (n + ·)) := by
  cases x with
  | none =>
    rintro j ⟨hnj, hj⟩
    rw [← Nat.add_sub_cancel' hnj] at hj
    exact h (j - n) hj
  | some i =>
    refine ⟨⟨Nat.le_add_right n i, h.1⟩, ?_⟩
    rintro j ⟨hnj, hj⟩
    rw [← Nat.add_sub_cancel' hnj] at hj
    have hle : i ≤ j - n := h.2 hj
    rw [← Nat.add_sub_cancel' hnj]
    exact Nat.add_le_add_left hle n

/-- The first place from `n + 1` on is the first one from `n` on if `n` is none. -/
theorem of_succ {n : Nat} (h : First (fun i => n + 1 ≤ i ∧ p i) x) (hn : ¬ p n) :
    First (fun i => n ≤ i ∧ p i) x := by
  apply h.congr
  intro i
  refine and_congr_left ?_
  intro hi
  have hne : n ≠ i := fun heq => hn (heq ▸ hi)
  omega

end First

/-! ### Byte by byte -/

namespace Buffer

variable {b : Buffer} {s : Source}

theorem find_first (p : UInt8 → Bool) {i stop : Nat} (h : i ≤ stop) :
    ∃ x, First (fun j => i ≤ j ∧ j < stop ∧ p (b.byteAt j) = true) x ∧
      b.find p i stop = x.getD stop := by
  fun_induction b.find p i stop with
  | case1 i hlt hp => exact ⟨some i, ⟨⟨Nat.le_refl i, hlt, hp⟩, fun _ hj => hj.1⟩, rfl⟩
  | case2 i hlt hp ih =>
    obtain ⟨x, hx, hfind⟩ := ih hlt
    exact ⟨x, hx.of_succ fun hi => hp hi.2, hfind⟩
  | case3 i hle =>
    refine ⟨none, ?_, rfl⟩
    rintro j ⟨hij, hj, -⟩
    omega

theorem findPair?_first (x y : UInt8) (i stop : Nat) :
    First (fun j => i ≤ j ∧ j + 1 < stop ∧ b.byteAt j = x ∧ b.byteAt (j + 1) = y)
      (b.findPair? x y i stop) := by
  fun_induction b.findPair? x y i stop with
  | case1 i hlt hxy =>
    simp only [Bool.and_eq_true, beq_iff_eq] at hxy
    exact ⟨⟨Nat.le_refl i, hlt, hxy⟩, fun _ hj => hj.1⟩
  | case2 i hlt hxy ih =>
    simp only [Bool.and_eq_true, beq_iff_eq] at hxy
    exact ih.of_succ fun hi => hxy hi.2
  | case3 i hle =>
    rintro j ⟨hij, hj, -⟩
    omega

/-- The bytes below the end of the text are those of the text. -/
theorem byteAt_eq_iff {i : Nat} {x : UInt8} :
    i < s.text.utf8ByteSize ∧ (ofSource s).byteAt i = x ↔
      (encode s.text.toList)[i]? = some x := by
  rw [byteAt_ofSource, List.getElem?_eq_some_iff, ← s.length_encode]
  constructor
  · rintro ⟨hi, hx⟩
    rw [List.getElem?_eq_getElem hi, Option.getD_some] at hx
    exact ⟨hi, hx⟩
  · rintro ⟨hi, hx⟩
    rw [List.getElem?_eq_getElem hi, Option.getD_some]
    exact ⟨hi, hx⟩

end Buffer

/-- At `i` there is a byte with a meaning inside a string literal. -/
def DelimitsString (bs : List UInt8) (i : Nat) : Prop :=
  bs[i]? = some Byte.quote ∨ bs[i]? = some Byte.backslash ∨ bs[i]? = some Byte.lineFeed ∨
    bs[i]? = some Byte.carriageReturn

theorem DelimitsString.exists {bs : List UInt8} {i : Nat} (h : DelimitsString bs i) :
    ∃ b, bs[i]? = some b ∧ b ≠ Byte.nul := by
  rcases h with h | h | h | h <;> exact ⟨_, h, by decide⟩

/-- A cursor can be moved on in the text. -/
theorem Cursor.advance_of_le (s : Source) {c : Cursor} {n : Nat}
    (h : c.offset + n ≤ s.text.utf8ByteSize) :
    c.advance n = .ok { c with offset := c.offset + n } :=
  advance_eq_ok_iff.mpr ⟨Nat.lt_of_le_of_lt h s.size_lt, rfl⟩

namespace Cursor.Inside

variable {s : Source} {c : Cursor}

/-- A line goes up to the first line feed. -/
theorem eatLine_first (h : c.Inside s) :
    ∃ x, First (fun i => c.offset ≤ i ∧ (encode s.text.toList)[i]? = some Byte.lineFeed) x ∧
      c.eatLine = .ok { c with offset := x.getD s.text.utf8ByteSize } := by
  obtain ⟨x, hx, hfind⟩ := Buffer.find_first (b := c.buffer) (· == Byte.lineFeed) h.le
  refine ⟨x, hx.congr ?_, ?_⟩
  · intro i
    rw [h.buffer, beq_iff_eq, Buffer.byteAt_eq_iff]
  · rw [eatLine, if_pos h.le_sourceLen, h.sourceLen, hfind]

/-- The search through a string literal goes to the first byte with a meaning there. -/
theorem toStringDelimiter_first (h : c.Inside s) :
    ∃ x, First (fun i => c.offset ≤ i ∧ DelimitsString (encode s.text.toList) i) x ∧
      c.toStringDelimiter = .ok ((x.bind ((encode s.text.toList)[·]?)).getD Byte.nul,
        { c with offset := x.getD s.text.utf8ByteSize }) := by
  obtain ⟨x, hx, hfind⟩ := Buffer.find_first (b := c.buffer) Byte.isStringDelimiter h.le
  refine ⟨x, hx.congr ?_, ?_⟩
  · intro i
    rw [h.buffer]
    simp only [DelimitsString, ← Buffer.byteAt_eq_iff, Byte.isStringDelimiter, Bool.or_eq_true,
      beq_iff_eq, ← and_or_left, or_assoc]
  · rw [toStringDelimiter, if_pos h.le_sourceLen]
    simp only [h.sourceLen, hfind]
    cases x with
    | none => rw [Option.getD_none, if_neg (Nat.lt_irrefl _), Option.bind_none, Option.getD_none]
    | some i =>
      have hi : i < s.text.utf8ByteSize := hx.1.2.1
      rw [Option.getD_some, if_pos hi, Option.bind_some, h.buffer,
        Buffer.byteAt_eq_iff.mp ⟨hi, rfl⟩, Option.getD_some]

/-- A comment goes up to the first star with a slash behind it, and over both. -/
theorem pastCommentEnd_first (h : c.Inside s) :
    ∃ x, First (fun i => c.offset ≤ i ∧ (encode s.text.toList)[i]? = some Byte.star ∧
        (encode s.text.toList)[i + 1]? = some Byte.slash) x ∧
      c.pastCommentEnd = .ok (x.isSome,
        { c with offset := (x.map (· + 2)).getD s.text.utf8ByteSize }) := by
  have hx := Buffer.findPair?_first (b := c.buffer) Byte.star Byte.slash c.offset c.sourceLen
  refine ⟨_, hx.congr ?_, ?_⟩
  · intro i
    rw [h.sourceLen, h.buffer, ← Buffer.byteAt_eq_iff, ← Buffer.byteAt_eq_iff]
    constructor
    · rintro ⟨hi, hlt, hstar, hslash⟩
      exact ⟨hi, ⟨by omega, hstar⟩, hlt, hslash⟩
    · rintro ⟨hi, ⟨-, hstar⟩, hlt, hslash⟩
      exact ⟨hi, hlt, hstar, hslash⟩
  · rw [pastCommentEnd, if_pos h.le_sourceLen, h.sourceLen]
    cases c.buffer.findPair? Byte.star Byte.slash c.offset s.text.utf8ByteSize <;> rfl

end Cursor.Inside

/-! ### The rest of the text at once -/

/-- Routines that find the first place of something in a stretch of bytes. -/
structure Searcher where
  /-- The place of a byte. -/
  byte : UInt8 → List UInt8 → Option Nat
  /-- The place of one of three bytes. -/
  oneOf : UInt8 → UInt8 → UInt8 → List UInt8 → Option Nat
  /-- The place where a word begins. -/
  word : List UInt8 → List UInt8 → Option Nat
  byte_first : ∀ x bs, First (fun i => bs[i]? = some x) (byte x bs)
  oneOf_first : ∀ x y z bs,
    First (fun i => bs[i]? = some x ∨ bs[i]? = some y ∨ bs[i]? = some z) (oneOf x y z bs)
  word_first : ∀ w bs, First (fun i => i ≤ bs.length ∧ w <+: bs.drop i) (word w bs)

theorem lt_length_of_getElem? {bs : List UInt8} {i : Nat} {b : UInt8} (h : bs[i]? = some b) :
    i < bs.length :=
  (List.getElem?_eq_some_iff.mp h).1

theorem find?_range_first (p : Nat → Bool) (n : Nat) :
    First (fun i => i < n ∧ p i = true) ((List.range n).find? p) := by
  cases h : (List.range n).find? p with
  | none =>
    rw [List.find?_range_eq_none] at h
    rintro i ⟨hi, hp⟩
    simpa [hp] using h i hi
  | some i =>
    obtain ⟨hp, hi, hbefore⟩ := List.find?_range_eq_some.mp h
    refine ⟨⟨List.mem_range.mp hi, hp⟩, ?_⟩
    rintro j ⟨-, hj⟩
    apply Nat.le_of_not_lt
    intro hji
    simpa [hj] using hbefore j hji

/-- The searcher that looks at one place after another. -/
def Searcher.stepwise : Searcher where
  byte x bs := (List.range bs.length).find? fun i => bs[i]? == some x
  oneOf x y z bs := (List.range bs.length).find? fun i =>
    bs[i]? == some x || bs[i]? == some y || bs[i]? == some z
  word w bs := (List.range (bs.length + 1)).find? fun i => w.isPrefixOf (bs.drop i)
  byte_first x bs := by
    apply (find?_range_first _ _).congr
    intro i
    simp only [beq_iff_eq]
    exact and_iff_right_of_imp lt_length_of_getElem?
  oneOf_first x y z bs := by
    apply (find?_range_first _ _).congr
    intro i
    simp only [Bool.or_eq_true, beq_iff_eq, or_assoc]
    refine and_iff_right_of_imp ?_
    rintro (h | h | h) <;> exact lt_length_of_getElem? h
  word_first w bs := by
    apply (find?_range_first _ _).congr
    intro i
    rw [Nat.lt_succ_iff, List.isPrefixOf_iff_prefix]

/-- Where a word of two bytes begins. -/
theorem Searcher.pair_iff {bs : List UInt8} {x y : UInt8} {n i : Nat} :
    i ≤ (bs.drop n).length ∧ [x, y] <+: (bs.drop n).drop i ↔
      bs[n + i]? = some x ∧ bs[n + i + 1]? = some y := by
  rw [List.drop_drop, List.prefix_iff_getElem?]
  constructor
  · rintro ⟨-, h⟩
    exact ⟨by simpa using h 0 (by simp), by simpa using h 1 (by simp)⟩
  · rintro ⟨hx, hy⟩
    obtain ⟨hlt, -⟩ := List.getElem?_eq_some_iff.mp hy
    refine ⟨by rw [List.length_drop]; omega, ?_⟩
    intro j hj
    match j with
    | 0 => simpa using hx
    | 1 => simpa using hy

/-- The bytes of the text from the cursor on. -/
def Cursor.rest (c : Cursor) : Except Fault (List UInt8) :=
  if c.offset ≤ c.sourceLen then .ok (c.buffer.content.data.toList.drop c.offset)
  else .error (.searchPastEnd c.offset)

namespace Searcher

open Fault (bind_eq_ok_iff)

variable (m : Searcher)

/-- `Cursor.eatLine` -/
def eatLine (c : Cursor) : Except Fault Cursor := do
  match m.byte Byte.lineFeed (← c.rest) with
  | some i => c.advance i
  | none => return { c with offset := c.sourceLen }

/-- `Cursor.toStringDelimiter`, in two searches. -/
def toStringDelimiter (c : Cursor) : Except Fault (UInt8 × Cursor) := do
  let rest ← c.rest
  match earlier (m.oneOf Byte.quote Byte.backslash Byte.lineFeed rest)
    (m.byte Byte.carriageReturn rest) with
  | some i =>
    let d ← c.advance i
    return (← d.current, d)
  | none => return (Byte.nul, { c with offset := c.sourceLen })

/-- `Cursor.pastCommentEnd` -/
def pastCommentEnd (c : Cursor) : Except Fault (Bool × Cursor) := do
  match m.word [Byte.star, Byte.slash] (← c.rest) with
  | some i => return (true, ← c.advance (i + 2))
  | none => return (false, { c with offset := c.sourceLen })

variable {s : Source} {c : Cursor}

theorem rest_eq (h : c.Inside s) : c.rest = .ok ((encode s.text.toList).drop c.offset) := by
  rw [Cursor.rest, if_pos h.le_sourceLen, h.buffer, Buffer.content_ofSource, Buffer.data_toUTF8]

theorem lt_of_getElem? {i : Nat} {x : UInt8} (hi : (encode s.text.toList)[i]? = some x) :
    i < s.text.utf8ByteSize :=
  (Buffer.byteAt_eq_iff.mpr hi).1

theorem eatLine_eq (h : c.Inside s) : m.eatLine c = c.eatLine := by
  have hfirst := m.byte_first Byte.lineFeed ((encode s.text.toList).drop c.offset)
  simp only [List.getElem?_drop] at hfirst
  obtain ⟨x, hx, heat⟩ := h.eatLine_first
  -- a place in the rest, counted from the start of the text, is the place the loop stops at
  obtain rfl := hx.unique hfirst.add
  rw [heat]
  refine bind_eq_ok_iff.mpr ⟨_, rest_eq h, ?_⟩
  generalize m.byte Byte.lineFeed ((encode s.text.toList).drop c.offset) = y at hfirst
  cases y with
  | none =>
    rw [h.sourceLen]
    rfl
  | some i => exact Cursor.advance_of_le s (Nat.le_of_lt (lt_of_getElem? hfirst.1))

theorem toStringDelimiter_eq (h : c.Inside s) : m.toStringDelimiter c = c.toStringDelimiter := by
  have hmost := m.oneOf_first Byte.quote Byte.backslash Byte.lineFeed
    ((encode s.text.toList).drop c.offset)
  have hreturn := m.byte_first Byte.carriageReturn ((encode s.text.toList).drop c.offset)
  have hfirst := hmost.earlier hreturn
  simp only [List.getElem?_drop, or_assoc] at hfirst
  obtain ⟨x, hx, hto⟩ := h.toStringDelimiter_first
  obtain rfl := hx.unique (hfirst.add (p := DelimitsString (encode s.text.toList)))
  rw [hto]
  refine bind_eq_ok_iff.mpr ⟨_, rest_eq h, ?_⟩
  generalize earlier (m.oneOf _ _ _ ((encode s.text.toList).drop c.offset)) (m.byte _ _) = y
    at hfirst
  cases y with
  | none =>
    rw [h.sourceLen]
    rfl
  | some i =>
    have hi : DelimitsString (encode s.text.toList) (c.offset + i) := hfirst.1
    obtain ⟨b, hb, -⟩ := hi.exists
    have hlt := lt_of_getElem? hb
    have hinside : Cursor.Inside s ⟨c.buffer, c.offset + i⟩ := ⟨h.buffer, Nat.le_of_lt hlt⟩
    refine bind_eq_ok_iff.mpr ⟨_, Cursor.advance_of_le s (Nat.le_of_lt hlt), ?_⟩
    exact bind_eq_ok_iff.mpr ⟨_, hinside.current_eq, rfl⟩

theorem pastCommentEnd_eq (h : c.Inside s) : m.pastCommentEnd c = c.pastCommentEnd := by
  have hfirst := (m.word_first [Byte.star, Byte.slash] ((encode s.text.toList).drop c.offset)).congr
    fun _ => pair_iff
  obtain ⟨x, hx, hpast⟩ := h.pastCommentEnd_first
  obtain rfl := hx.unique hfirst.add
  rw [hpast]
  refine bind_eq_ok_iff.mpr ⟨_, rest_eq h, ?_⟩
  generalize m.word _ ((encode s.text.toList).drop c.offset) = y at hfirst
  cases y with
  | none =>
    rw [h.sourceLen]
    rfl
  | some i =>
    have hlt := lt_of_getElem? hfirst.1.2
    exact bind_eq_ok_iff.mpr ⟨_, Cursor.advance_of_le s hlt, rfl⟩

end Searcher

/-- **Searching the rest of a text at once** comes from any offset to the same place as going
through it byte by byte, with the same answer. That is the first byte with a meaning inside a string
literal, and the answer is that byte; or the first line feed; or the place behind the first star
that has a slash behind it, and the answer is whether there is any. Where there is no such place,
that is the end of the text, and a zero byte is the answer only there. -/
theorem Searcher.finds (m : Searcher) {s : Source} {c : Cursor} (h : c.Inside s) :
    let bs := encode s.text.toList
    let n := s.text.utf8ByteSize
    (∃ x, First (fun i => c.offset ≤ i ∧ DelimitsString bs i) x ∧
      m.toStringDelimiter c = c.toStringDelimiter ∧
      match x with
      | some i => ∃ b, bs[i]? = some b ∧ b ≠ Byte.nul ∧
          c.toStringDelimiter = .ok (b, { c with offset := i })
      | none => c.toStringDelimiter = .ok (Byte.nul, { c with offset := n })) ∧
    (∃ x, First (fun i => c.offset ≤ i ∧ bs[i]? = some Byte.lineFeed) x ∧
      m.eatLine c = c.eatLine ∧ c.eatLine = .ok { c with offset := x.getD n }) ∧
    ∃ x, First (fun i => c.offset ≤ i ∧ bs[i]? = some Byte.star ∧ bs[i + 1]? = some Byte.slash) x ∧
      m.pastCommentEnd c = c.pastCommentEnd ∧
      c.pastCommentEnd = .ok (x.isSome, { c with offset := (x.map (· + 2)).getD n }) := by
  intro bs n
  obtain ⟨x, hx, hto⟩ := h.toStringDelimiter_first
  obtain ⟨y, hy, heat⟩ := h.eatLine_first
  obtain ⟨z, hz, hpast⟩ := h.pastCommentEnd_first
  refine ⟨⟨x, hx, m.toStringDelimiter_eq h, ?_⟩, ⟨y, hy, m.eatLine_eq h, heat⟩,
    ⟨z, hz, m.pastCommentEnd_eq h, hpast⟩⟩
  cases x with
  | none => exact hto
  | some i =>
    obtain ⟨b, hb, hne⟩ := hx.1.2.exists
    rw [Option.bind_some, hb] at hto
    exact ⟨b, hb, hne, hto⟩

/-- From inside a character a search passes a zero byte, and takes the second of two stars. -/
theorem Searcher.finds_stepwise :
    let s : Source := ⟨"é\x00**/\r", by decide⟩
    let c := (Buffer.ofSource s).cursorAt 1
    c.Inside s ∧
      (stepwise.toStringDelimiter c).toOption.map (fun (b, d) => (b, d.offset)) =
        some (Byte.carriageReturn, 6) ∧
      (stepwise.eatLine c).toOption.map Cursor.offset = some 7 ∧
      (stepwise.pastCommentEnd c).toOption.map (fun (b, d) => (b, d.offset)) = some (true, 6) := by
  intro s c
  have hinside : c.Inside s := Cursor.inside_cursorAt s 1
  obtain ⟨⟨_, -, hto, -⟩, ⟨_, -, heat, -⟩, ⟨_, -, hpast, -⟩⟩ := stepwise.finds hinside
  rw [hto, heat, hpast]
  refine ⟨hinside, ?_, ?_, ?_⟩ <;> decide +kernel

end Lexico
