import Lexico.Segment.Lead
import Lexico.Source.Cursor

/-!
# The rules for cutting

`Cursor.scan` cuts one segment off the text at a cursor: the first byte selects the rule
(`Lead.ofByte`), and the rule looks at most two bytes past what it takes. Every rule but the one
for the end of the text takes at least one byte:

    lt_of_scan : c.scan = .ok (t, d) → t ≠ .eof → c < d
-/

namespace Lexico
namespace Cursor

open Fault (bind_eq_ok_iff pure_eq_ok_iff)

/-! ### The rules -/

/-- A zero byte is the end of the text, or inside the text a character that nothing accepts. -/
def scanNul (c : Cursor) : Except Fault (Tag × Cursor) := do
  if ← c.isEof then return (.eof, c)
  else return (.unrecognizedChar, ← c.advance 1)

/-- A carriage return before a line feed ends the line with it; alone it is a blank. -/
def scanCarriageReturn (c : Cursor) : Except Fault (Tag × Cursor) := do
  let d ← c.advance 1
  if (← d.current) = Byte.lineFeed then return (.newline, ← d.advance 1)
  else return (.whitespace, d)

/-- A word takes all letters, underscores and digits that follow. -/
def scanWord (c : Cursor) : Except Fault (Tag × Cursor) := do
  let d ← c.advance 1
  return (.ident, ← d.eatWhile Byte.isWordPart)

/-- A number takes all digits; a point belongs to it if a digit follows the point. -/
def scanNumber (c : Cursor) : Except Fault (Tag × Cursor) := do
  let d ← c.eatWhile Byte.isDigit
  if (← d.current) = Byte.point then
    if Byte.isDigit (← d.peek) then
      let e ← d.advance 1
      return (.decimal, ← e.eatWhile Byte.isDigit)
    else return (.int, d)
  else return (.int, d)

/-- An operator of one byte, or of two if the second is an equals sign. -/
def scanPaired (alone joined : Tag) (c : Cursor) : Except Fault (Tag × Cursor) := do
  let d ← c.advance 1
  if (← d.current) = Byte.equal then return (joined, ← d.advance 1)
  else return (alone, d)

/-- A slash starts a line comment, a block comment, which does not nest, or stands for itself. -/
def scanSlash (c : Cursor) : Except Fault (Tag × Cursor) := do
  let d ← c.advance 1
  let b ← d.current
  if b = Byte.slash then
    let e ← d.advance 1
    return (.lineComment, ← e.eatLine)
  else if b = Byte.star then
    let e ← d.advance 1
    let (closed, e) ← e.pastCommentEnd
    return (if closed then .blockComment else .unterminatedBlockComment, e)
  else return (.slash, d)

/-- The cursor stands on a line feed, or on a carriage return before one. -/
def atLineEnd (c : Cursor) : Except Fault Bool := do
  let b ← c.current
  if b = Byte.lineFeed then return true
  else if b = Byte.carriageReturn then return (← c.peek) = Byte.lineFeed
  else return false

/-- How the text of a string literal goes on at its next delimiter. -/
inductive StringStep where
  /-- The closing quote is taken. -/
  | closed (c : Cursor)
  /-- The line or the text ends first. -/
  | cut (c : Cursor)
  /-- The delimiter belongs to the text of the literal and is taken. -/
  | more (c : Cursor)

/-- One step through a string literal: to the next delimiter, and over it unless the line ends
there. A backslash takes the character after it along, but neither a line end nor the end. -/
def stringStep (c : Cursor) : Except Fault StringStep := do
  let (b, d) ← c.toStringDelimiter
  if b = Byte.quote then return .closed (← d.advance 1)
  else if b = Byte.backslash then
    let e ← d.advance 1
    if ← e.atLineEnd then return .more e
    else if ← e.isEof then return .more e
    else return .more (← e.advanceChar)
  else if b = Byte.carriageReturn then
    if (← d.peek) = Byte.lineFeed then return .cut d
    else return .more (← d.advance 1)
  else return .cut d

/-- What a step is good for: it does not go back, and if it goes on, it does so inside the text
and farther on. -/
def StringStep.Forward (c : Cursor) : StringStep → Prop
  | .closed d => c < d
  | .cut d => c ≤ d
  | .more d => c < d ∧ c.offset < c.sourceLen

/-- Every step goes forward. -/
theorem forward_of_stringStep {c : Cursor} {r : StringStep} (h : c.stringStep = .ok r) :
    r.Forward c := by
  obtain ⟨⟨b, d⟩, hfind, h⟩ := bind_eq_ok_iff.1 h
  have hle := le_of_toStringDelimiter hfind
  have hin (hb : b ≠ Byte.nul) : c.offset < c.sourceLen :=
    Nat.lt_of_le_of_lt hle.2 (lt_of_toStringDelimiter hfind hb)
  simp only at h
  split at h
  · obtain ⟨e, he, h⟩ := bind_eq_ok_iff.1 h
    cases pure_eq_ok_iff.1 h
    exact lt_of_le_of_lt hle (lt_of_advance he)
  split at h
  · next hb =>
    obtain ⟨e, he, h⟩ := bind_eq_ok_iff.1 h
    have hlt := lt_of_le_of_lt hle (lt_of_advance he)
    have hin := hin (hb ▸ by decide)
    obtain ⟨_, -, h⟩ := bind_eq_ok_iff.1 h
    split at h
    · cases pure_eq_ok_iff.1 h; exact ⟨hlt, hin⟩
    obtain ⟨_, -, h⟩ := bind_eq_ok_iff.1 h
    split at h
    · cases pure_eq_ok_iff.1 h; exact ⟨hlt, hin⟩
    · obtain ⟨g, hg, h⟩ := bind_eq_ok_iff.1 h
      cases pure_eq_ok_iff.1 h
      exact ⟨lt_of_lt_of_le hlt (le_of_lt (lt_of_advanceChar hg)), hin⟩
  split at h
  · next hb =>
    obtain ⟨_, -, h⟩ := bind_eq_ok_iff.1 h
    split at h
    · cases pure_eq_ok_iff.1 h; exact hle
    · obtain ⟨e, he, h⟩ := bind_eq_ok_iff.1 h
      cases pure_eq_ok_iff.1 h
      exact ⟨lt_of_le_of_lt hle (lt_of_advance he), hin (hb ▸ by decide)⟩
  · cases pure_eq_ok_iff.1 h; exact hle

/-- A step that goes on leaves less of the text. -/
theorem remaining_lt_of_stringStep {c d : Cursor} (h : c.stringStep = .ok (.more d)) :
    d.sourceLen - d.offset < c.sourceLen - c.offset := by
  obtain ⟨⟨hbuf, hlt⟩, hin⟩ := forward_of_stringStep h
  simp only [sourceLen, hbuf] at hin ⊢
  omega

/-- The rest of a string literal whose opening quote is taken. -/
def scanStringBody (c : Cursor) : Except Fault (Tag × Cursor) :=
  match h : c.stringStep with
  | .error fault => .error fault
  | .ok (.closed d) => .ok (.string, d)
  | .ok (.cut d) => .ok (.unterminatedString, d)
  | .ok (.more d) =>
    have := remaining_lt_of_stringStep h
    d.scanStringBody
termination_by c.sourceLen - c.offset

/-- A string literal goes from its quote to the next one that is not escaped, on the same line. -/
def scanString (c : Cursor) : Except Fault (Tag × Cursor) := do
  let d ← c.advance 1
  d.scanStringBody

/-- The tag of the segment at a cursor and the cursor after it. -/
def scan (c : Cursor) : Except Fault (Tag × Cursor) := do
  match Lead.ofByte (← c.current) with
  | .nul => c.scanNul
  | .blank => return (.whitespace, ← c.eatBlanks)
  | .carriageReturn => c.scanCarriageReturn
  | .lineFeed => return (.newline, ← c.advance 1)
  | .word => c.scanWord
  | .digit => c.scanNumber
  | .quote => c.scanString
  | .slash => c.scanSlash
  | .single tag => return (tag, ← c.advance 1)
  | .paired alone joined => c.scanPaired alone joined
  | .other => return (.unrecognizedChar, ← c.advanceChar)

/-! ### Every rule goes forward -/

theorem lt_of_scanNul {c d : Cursor} {t : Tag} (h : c.scanNul = .ok (t, d)) (ht : t ≠ .eof) :
    c < d := by
  obtain ⟨_, -, h⟩ := bind_eq_ok_iff.1 h
  split at h
  · cases pure_eq_ok_iff.1 h; exact absurd rfl ht
  · obtain ⟨e, he, h⟩ := bind_eq_ok_iff.1 h
    cases pure_eq_ok_iff.1 h
    exact lt_of_advance he

theorem lt_of_scanCarriageReturn {c d : Cursor} {t : Tag}
    (h : c.scanCarriageReturn = .ok (t, d)) : c < d := by
  obtain ⟨e, he, h⟩ := bind_eq_ok_iff.1 h
  obtain ⟨_, -, h⟩ := bind_eq_ok_iff.1 h
  split at h
  · obtain ⟨g, hg, h⟩ := bind_eq_ok_iff.1 h
    cases pure_eq_ok_iff.1 h
    exact lt_of_lt_of_le (lt_of_advance he) (le_of_advance hg)
  · cases pure_eq_ok_iff.1 h; exact lt_of_advance he

theorem lt_of_scanWord {c d : Cursor} {t : Tag} (h : c.scanWord = .ok (t, d)) : c < d := by
  obtain ⟨e, he, h⟩ := bind_eq_ok_iff.1 h
  obtain ⟨g, hg, h⟩ := bind_eq_ok_iff.1 h
  cases pure_eq_ok_iff.1 h
  exact lt_of_lt_of_le (lt_of_advance he) (le_of_eatWhile hg)

theorem lt_of_scanNumber {c d : Cursor} {t : Tag} {b : UInt8} (hb : c.current = .ok b)
    (hd : Byte.isDigit b = true) (h : c.scanNumber = .ok (t, d)) : c < d := by
  obtain ⟨e, he, h⟩ := bind_eq_ok_iff.1 h
  have hlt := lt_of_eatWhile hb hd he
  obtain ⟨_, -, h⟩ := bind_eq_ok_iff.1 h
  split at h
  · obtain ⟨_, -, h⟩ := bind_eq_ok_iff.1 h
    split at h
    · obtain ⟨g, hg, h⟩ := bind_eq_ok_iff.1 h
      obtain ⟨k, hk, h⟩ := bind_eq_ok_iff.1 h
      cases pure_eq_ok_iff.1 h
      exact lt_of_lt_of_le (lt_of_lt_of_le hlt (le_of_advance hg)) (le_of_eatWhile hk)
    · cases pure_eq_ok_iff.1 h; exact hlt
  · cases pure_eq_ok_iff.1 h; exact hlt

theorem lt_of_scanPaired {c d : Cursor} {alone joined t : Tag}
    (h : c.scanPaired alone joined = .ok (t, d)) : c < d := by
  obtain ⟨e, he, h⟩ := bind_eq_ok_iff.1 h
  obtain ⟨_, -, h⟩ := bind_eq_ok_iff.1 h
  split at h
  · obtain ⟨g, hg, h⟩ := bind_eq_ok_iff.1 h
    cases pure_eq_ok_iff.1 h
    exact lt_of_lt_of_le (lt_of_advance he) (le_of_advance hg)
  · cases pure_eq_ok_iff.1 h; exact lt_of_advance he

theorem lt_of_scanSlash {c d : Cursor} {t : Tag} (h : c.scanSlash = .ok (t, d)) : c < d := by
  obtain ⟨e, he, h⟩ := bind_eq_ok_iff.1 h
  have hlt := lt_of_advance he
  obtain ⟨_, -, h⟩ := bind_eq_ok_iff.1 h
  split at h
  · obtain ⟨g, hg, h⟩ := bind_eq_ok_iff.1 h
    obtain ⟨k, hk, h⟩ := bind_eq_ok_iff.1 h
    cases pure_eq_ok_iff.1 h
    exact lt_of_lt_of_le (lt_of_lt_of_le hlt (le_of_advance hg)) (le_of_eatLine hk)
  split at h
  · obtain ⟨g, hg, h⟩ := bind_eq_ok_iff.1 h
    obtain ⟨⟨closed, k⟩, hk, h⟩ := bind_eq_ok_iff.1 h
    cases pure_eq_ok_iff.1 h
    exact lt_of_lt_of_le (lt_of_lt_of_le hlt (le_of_advance hg)) (le_of_pastCommentEnd hk)
  · cases pure_eq_ok_iff.1 h; exact hlt

theorem le_of_scanStringBody {c d : Cursor} {t : Tag} (h : c.scanStringBody = .ok (t, d)) :
    c ≤ d := by
  fun_induction scanStringBody c with
  | case1 => cases h
  | case2 c e hs =>
    cases h
    have hlt : c < d := forward_of_stringStep hs
    exact le_of_lt hlt
  | case3 c e hs => cases h; exact forward_of_stringStep hs
  | case4 c e hs _ ih =>
    obtain ⟨hlt, -⟩ := forward_of_stringStep hs
    exact le_of_lt (lt_of_lt_of_le hlt (ih h))

theorem lt_of_scanString {c d : Cursor} {t : Tag} (h : c.scanString = .ok (t, d)) : c < d := by
  obtain ⟨e, he, h⟩ := bind_eq_ok_iff.1 h
  exact lt_of_lt_of_le (lt_of_advance he) (le_of_scanStringBody h)

/-- A segment other than the end of the text takes at least one byte. -/
theorem lt_of_scan {c d : Cursor} {t : Tag} (h : c.scan = .ok (t, d)) (ht : t ≠ .eof) : c < d := by
  obtain ⟨b, hb, h⟩ := bind_eq_ok_iff.1 h
  split at h
  case h_1 => exact lt_of_scanNul h ht
  case h_2 hl =>
    obtain ⟨e, he, h⟩ := bind_eq_ok_iff.1 h
    cases pure_eq_ok_iff.1 h
    exact lt_of_eatWhile hb (Lead.isBlank_of_ofByte hl) he
  case h_3 => exact lt_of_scanCarriageReturn h
  case h_5 => exact lt_of_scanWord h
  case h_6 hl => exact lt_of_scanNumber hb (Lead.isDigit_of_ofByte hl) h
  case h_7 => exact lt_of_scanString h
  case h_8 => exact lt_of_scanSlash h
  case h_10 => exact lt_of_scanPaired h
  case h_11 =>
    obtain ⟨e, he, h⟩ := bind_eq_ok_iff.1 h
    cases pure_eq_ok_iff.1 h
    exact lt_of_advanceChar he
  all_goals
    obtain ⟨e, he, h⟩ := bind_eq_ok_iff.1 h
    cases pure_eq_ok_iff.1 h
    exact lt_of_advance he

end Cursor
end Lexico
