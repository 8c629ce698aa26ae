/-!
# Bytes with a meaning

The lexical structure is decided by ASCII bytes alone: in UTF-8 every byte of a longer character is
at least `0x80`, so none of the classes below holds of one.
-/

namespace Lexico.Byte

/-- The byte of an ASCII character. -/
abbrev ofAscii (c : Char) : UInt8 := c.toUInt8

/-- The sentinel that ends a buffer's text. -/
def nul : UInt8 := 0x00
/-- The line feed, which ends a line. -/
def lineFeed : UInt8 := 0x0a
/-- The carriage return, part of a line end only before a line feed. -/
def carriageReturn : UInt8 := 0x0d
/-- The quote around a string literal. -/
def quote : UInt8 := 0x22
/-- The star of a comment delimiter. -/
def star : UInt8 := 0x2a
/-- The point of a decimal literal. -/
def point : UInt8 := 0x2e
/-- The slash of a comment delimiter. -/
def slash : UInt8 := 0x2f
/-- The second half of a two-byte operator. -/
def equal : UInt8 := 0x3d
/-- The escape inside a string literal. -/
def backslash : UInt8 := 0x5c

/-- Space and tab separate tokens without ending the line. -/
def isBlank (b : UInt8) : Bool := b == 0x20 || b == 0x09

/-- Decimal digits. -/
def isDigit (b : UInt8) : Bool := 0x30 ≤ b && b ≤ 0x39

/-- ASCII letters of either case. -/
def isLetter (b : UInt8) : Bool := (0x41 ≤ b && b ≤ 0x5a) || (0x61 ≤ b && b ≤ 0x7a)

/-- A word starts with a letter or an underscore. -/
def isWordStart (b : UInt8) : Bool := isLetter b || b == 0x5f

/-- A word goes on with letters, underscores and digits. -/
def isWordPart (b : UInt8) : Bool := isWordStart b || isDigit b

/-- The bytes at which the search through a string literal stops. -/
def isStringDelimiter (b : UInt8) : Bool :=
  b == quote || b == backslash || b == lineFeed || b == carriageReturn

/-- The number of bytes of the character that starts with byte `b`; a byte that starts no
character counts as one of its own. -/
def charWidth (b : UInt8) : Nat :=
  if 0xc0 ≤ b && b ≤ 0xdf then 2
  else if 0xe0 ≤ b && b ≤ 0xef then 3
  else if 0xf0 ≤ b && b ≤ 0xf7 then 4
  else 1

/-- Every character has a byte of its own, so moving over one makes progress. -/
theorem charWidth_pos (b : UInt8) : 0 < charWidth b := by
  unfold charWidth
  split
  · decide
  · split
    · decide
    · split <;> decide

end Lexico.Byte
