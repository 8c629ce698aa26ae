import Lexico.Segment.Tag
import Lexico.Source.Byte

/-!
# What the first byte decides

The first byte of a segment selects the rule by which it is cut. `Lead.ofByte` is total: a byte
that starts nothing selects the rule for a character that no token has.
-/

namespace Lexico

/-- The rule that a first byte selects. -/
inductive Lead where
  | nul | blank | carriageReturn | lineFeed | word | digit | quote | slash
  | single (tag : Tag)
  | paired (alone joined : Tag)
  | other
  deriving DecidableEq, Repr

namespace Lead

/-- The one-byte operators and delimiters. -/
def singles : List (Char × Tag) :=
  [('+', .plus), ('-', .minus), ('*', .star), ('(', .leftParen), (')', .rightParen),
   ('\x7b', .leftBrace), ('\x7d', .rightBrace), ('[', .leftBracket), (']', .rightBracket),
   (';', .semicolon), (',', .comma)]

/-- The operators that an equals sign may follow, with the tags of both spellings. A lone
exclamation mark is no operator. -/
def pairs : List (Char × Tag × Tag) :=
  [('=', .equal, .equalEqual), ('!', .unrecognizedChar, .bangEqual), ('<', .less, .lessEqual),
   ('>', .greater, .greaterEqual)]

/-- The rule for a segment that starts with byte `b`. -/
def ofByte (b : UInt8) : Lead :=
  if b = Byte.nul then .nul
  else if Byte.isBlank b then .blank
  else if b = Byte.carriageReturn then .carriageReturn
  else if b = Byte.lineFeed then .lineFeed
  else if Byte.isWordStart b then .word
  else if Byte.isDigit b then .digit
  else if b = Byte.quote then .quote
  else if b = Byte.slash then .slash
  else
    match singles.lookup (Char.ofUInt8 b), pairs.lookup (Char.ofUInt8 b) with
    | some tag, _ => .single tag
    | none, some (alone, joined) => .paired alone joined
    | none, none => .other

/-- A first byte that selects the rule for numbers is a digit. -/
theorem isDigit_of_ofByte {b : UInt8} (h : ofByte b = .digit) : Byte.isDigit b = true := by
  unfold ofByte at h
  grind

/-- A first byte that selects the rule for blanks is one. -/
theorem isBlank_of_ofByte {b : UInt8} (h : ofByte b = .blank) : Byte.isBlank b = true := by
  unfold ofByte at h
  grind

end Lead
end Lexico
