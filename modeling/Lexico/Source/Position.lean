/-!
# Positions

A **position** is a line and a column, both from 1, of 32 bits each. They saturate: a text with
more lines or columns than fit leaves the position at the largest number. `advanceOver` moves a
position over a text by counting its line feeds and the characters after the last one.
-/

namespace Lexico

/-- The sum of a 32-bit number and a count, or the largest 32-bit number if it is more. -/
def saturatingAdd (a : UInt32) (n : Nat) : UInt32 :=
  if a.toNat + n < UInt32.size then UInt32.ofNat (a.toNat + n) else UInt32.ofNat (UInt32.size - 1)

/-- The sum is exact up to the largest number. -/
theorem toNat_saturatingAdd (a : UInt32) (n : Nat) :
    (saturatingAdd a n).toNat = min (a.toNat + n) (UInt32.size - 1) := by
  unfold saturatingAdd
  split
  · next h => rw [UInt32.toNat_ofNat_of_lt' h]; omega
  · next h => rw [UInt32.toNat_ofNat_of_lt' (by decide)]; omega

/-- A line and a column. -/
structure Position where
  line : UInt32
  column : UInt32
  deriving DecidableEq, Repr

namespace Position

/-- The position of the first character of a text. -/
def start : Position := ⟨1, 1⟩

/-- Earlier lines come first, and in one line earlier columns. -/
instance : Ord Position :=
  ⟨fun p q => (compare p.line q.line).then (compare p.column q.column)⟩

/-- The characters of a text after its last line feed. -/
def lastLine (cs : List Char) : List Char := (cs.reverse.takeWhile (· != '\n')).reverse

/-- The position after a text that starts at `p`. -/
def advanceOver (p : Position) (text : String) : Position :=
  let cs := text.toList
  let breaks := cs.count '\n'
  if breaks = 0 then { p with column := saturatingAdd p.column cs.length }
  else ⟨saturatingAdd p.line breaks, saturatingAdd 1 (lastLine cs).length⟩

instance : ToString Position :=
  ⟨fun p => s!"line {p.line.toNat}, column {p.column.toNat}"⟩

end Position
end Lexico
