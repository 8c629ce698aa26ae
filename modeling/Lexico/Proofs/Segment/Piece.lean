import Lexico.Proofs.Source.Bytes
import Lexico.Segment.Basic

/-!
# Pieces of a text

A **piece** is what a segment is in characters: a tag and the text cut. `cut?` says by a function on
characters alone which piece comes first in a text; it knows no offsets, no sentinel and no faults.
Everything below the tokens is proved by way of it: the scan of a cursor cuts what `cut?` says, and
what `cut?` says is exactly what the shapes of the tags allow.
-/

namespace Lexico

/-- A tag and the characters cut. -/
structure Piece where
  tag : Tag
  text : List Char
  deriving DecidableEq, Repr

/-- A piece as a tag and a number of bytes. -/
def Piece.segment (p : Piece) : Segment := ⟨p.tag, byteLength p.text⟩

/-! ### The rule that a character selects -/

namespace Lead

/-- The rule for a piece that starts with the character `c`. -/
def ofChar (c : Char) : Lead := if c.utf8Size = 1 then ofByte (Byte.ofAscii c) else .other

theorem ofChar_of_ascii {c : Char} (hc : c.utf8Size = 1) : ofChar c = ofByte (Byte.ofAscii c) :=
  if_pos hc

/-- The first byte of a character selects the rule for the character. -/
theorem ofByte_first (c : Char) (cs : List Char) : ofByte (Byte.first (c :: cs)) = ofChar c := by
  by_cases hc : c.utf8Size = 1
  · rw [Byte.first_of_ascii hc, ofChar_of_ascii hc]
  · have h := forall_byte (P := fun b => 0x80 ≤ b → ofByte b = .other) (by decide +kernel)
    rw [h _ (Byte.le_first_of_not_ascii hc cs), ofChar, if_neg hc]

/-- The characters for which there is a rule, by rule. -/
def Starts (c : Char) : Lead → Prop
  | .nul => c = '\x00'
  | .blank => Text.isBlank c = true
  | .carriageReturn => c = '\r'
  | .lineFeed => c = '\n'
  | .word => Text.isWordStart c = true
  | .digit => c.isDigit = true
  | .quote => c = '"'
  | .slash => c = '/'
  | .single tag => (c, tag) ∈ singles
  | .paired alone joined => (c, alone, joined) ∈ pairs
  | .other => True

instance (c : Char) : (l : Lead) → Decidable (Starts c l)
  | .nul => inferInstanceAs (Decidable (c = '\x00'))
  | .blank => inferInstanceAs (Decidable (Text.isBlank c = true))
  | .carriageReturn => inferInstanceAs (Decidable (c = '\r'))
  | .lineFeed => inferInstanceAs (Decidable (c = '\n'))
  | .word => inferInstanceAs (Decidable (Text.isWordStart c = true))
  | .digit => inferInstanceAs (Decidable (c.isDigit = true))
  | .quote => inferInstanceAs (Decidable (c = '"'))
  | .slash => inferInstanceAs (Decidable (c = '/'))
  | .single tag => inferInstanceAs (Decidable ((c, tag) ∈ singles))
  | .paired alone joined => inferInstanceAs (Decidable ((c, alone, joined) ∈ pairs))
  | .other => inferInstanceAs (Decidable True)

/-- A rule is selected by a character that it is for. -/
theorem starts_ofChar (c : Char) : Starts c (ofChar c) := by
  by_cases hc : c.utf8Size = 1
  · rw [ofChar_of_ascii hc]
    exact forall_ascii (P := fun c => Starts c (ofByte (Byte.ofAscii c))) (by decide +kernel) hc
  · rw [ofChar, if_neg hc]
    trivial

/-- A character outside ASCII starts nothing. -/
theorem size_of_starts {c : Char} {l : Lead} (hl : l ≠ .other) (h : Starts c l) :
    c.utf8Size = 1 := by
  cases l with
  | nul => exact h ▸ rfl
  | blank => exact Byte.Class.blank.size h
  | carriageReturn => exact h ▸ rfl
  | lineFeed => exact h ▸ rfl
  | word =>
    apply Byte.Class.wordPart.size
    unfold Starts Text.isWordStart at h
    unfold Text.isWordPart Char.isAlphanum
    rcases Bool.or_eq_true_iff.mp h with h | h <;> simp [h]
  | digit => exact Byte.Class.digit.size h
  | quote => exact h ▸ rfl
  | slash => exact h ▸ rfl
  | single tag =>
    have hall : ∀ x ∈ singles, x.1.utf8Size = 1 := by decide
    exact hall _ h
  | paired alone joined =>
    have hall : ∀ x ∈ pairs, x.1.utf8Size = 1 := by decide
    exact hall _ h
  | other => exact absurd rfl hl

/-- No character is for two rules. -/
theorem ofChar_of_starts {c : Char} {l : Lead} (hl : l ≠ .other) (h : Starts c l) :
    ofChar c = l := by
  have hc := size_of_starts hl h
  rw [ofChar_of_ascii hc]
  cases l with
  | nul => exact h ▸ rfl
  | blank =>
    exact forall_ascii (P := fun c => Text.isBlank c = true → ofByte (Byte.ofAscii c) = .blank)
      (by decide +kernel) hc h
  | carriageReturn => exact h ▸ rfl
  | lineFeed => exact h ▸ rfl
  | word =>
    exact forall_ascii (P := fun c => Text.isWordStart c = true → ofByte (Byte.ofAscii c) = .word)
      (by decide +kernel) hc h
  | digit =>
    exact forall_ascii (P := fun c => c.isDigit = true → ofByte (Byte.ofAscii c) = .digit)
      (by decide +kernel) hc h
  | quote => exact h ▸ rfl
  | slash => exact h ▸ rfl
  | single tag =>
    have hall : ∀ x ∈ singles, ofByte (Byte.ofAscii x.1) = .single x.2 := by decide +kernel
    exact hall _ h
  | paired alone joined =>
    have hall : ∀ x ∈ pairs, ofByte (Byte.ofAscii x.1) = .paired x.2.1 x.2.2 := by decide +kernel
    exact hall _ h
  | other => exact absurd rfl hl

end Lead

/-! ### The first piece -/

namespace Piece

/-- The digits of a fraction: those after a point, if there is one. -/
def fraction : List Char → List Char
  | [] => []
  | c :: r => if c = '.' then r.takeWhile Char.isDigit else []

/-- The number at the start of a text: with a fraction, if there are digits in it. -/
def number (cs : List Char) : Piece :=
  let whole := cs.takeWhile Char.isDigit
  let digits := fraction (cs.dropWhile Char.isDigit)
  if digits = [] then ⟨.int, whole⟩ else ⟨.decimal, whole ++ '.' :: digits⟩

/-- A line or the text ends here. -/
def lineEnds : List Char → Bool
  | [] => true
  | c :: r => c == '\n' || (c == '\r' && r.head? == some '\n')

/-- The state after a character of a string literal: the next character is escaped. -/
def escapes (escaped : Bool) (c : Char) : Bool := !escaped && c == '\\'

/-- What is left of a string literal, up to the closing quote or the end of the line, and whether
it is closed. -/
def literalRest (escaped : Bool) : List Char → Bool × List Char
  | [] => (false, [])
  | c :: r =>
    if lineEnds (c :: r) then (false, [])
    else if c = '"' ∧ escaped = false then (true, [c])
    else ((literalRest (escapes escaped c) r).1, c :: (literalRest (escapes escaped c) r).2)

/-- What is left of a block comment, up to the first star and slash or the end of the text, and
whether it is closed. -/
def commentRest : List Char → Bool × List Char
  | [] => (false, [])
  | c :: r =>
    if c = '*' ∧ r.head? = some '/' then (true, ['*', '/'])
    else ((commentRest r).1, c :: (commentRest r).2)

/-- The piece that starts with a slash, in front of `cs`. -/
def afterSlash (cs : List Char) : Piece :=
  if cs.head? = some '/' then ⟨.lineComment, '/' :: cs.takeWhile (· != '\n')⟩
  else if cs.head? = some '*' then
    ⟨if (commentRest cs.tail).1 then .blockComment else .unterminatedBlockComment,
      '/' :: '*' :: (commentRest cs.tail).2⟩
  else ⟨.slash, ['/']⟩

/-- The piece that starts with the character `c`, in front of `cs`, by the rule for `c`. -/
def start (c : Char) (cs : List Char) : Lead → Piece
  | .nul | .other => ⟨.unrecognizedChar, [c]⟩
  | .blank => ⟨.whitespace, c :: cs.takeWhile Text.isBlank⟩
  | .carriageReturn =>
    if cs.head? = some '\n' then ⟨.newline, [c, '\n']⟩ else ⟨.whitespace, [c]⟩
  | .lineFeed => ⟨.newline, [c]⟩
  | .word => ⟨.ident, c :: cs.takeWhile Text.isWordPart⟩
  | .digit => number (c :: cs)
  | .quote =>
    ⟨if (literalRest false cs).1 then .string else .unterminatedString,
      c :: (literalRest false cs).2⟩
  | .slash => afterSlash cs
  | .single tag => ⟨tag, [c]⟩
  | .paired alone joined =>
    if cs.head? = some '=' then ⟨joined, [c, '=']⟩ else ⟨alone, [c]⟩

/-- The first piece of a text. -/
def cut? : List Char → Option Piece
  | [] => none
  | c :: cs => some (start c cs (Lead.ofChar c))

end Piece
end Lexico
