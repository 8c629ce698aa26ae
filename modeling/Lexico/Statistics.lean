import Lexico.Token.Basic
import Std.Data.HashMap

/-!
# Statistics

Counts over a list of tokens, found in one pass by kind, and the last few tokens.
-/

namespace Lexico

/-- How many tokens of each kind there are, groups of kinds together, and the last tokens. -/
structure Statistics where
  perKind : Std.HashMap Kind Nat
  total : Nat
  reservedWords : Nat
  identifiers : Nat
  numbers : Nat
  operators : Nat
  recent : List Token

namespace Statistics

/-- The number of last tokens that are kept. -/
def recentCount : Nat := 5

/-- The number of tokens of each kind. -/
def tally (tokens : List Token) : Std.HashMap Kind Nat :=
  tokens.foldl (fun counts t => counts.insert t.kind (counts.getD t.kind 0 + 1)) ∅

/-- The statistics of some tokens. -/
def ofTokens (tokens : List Token) : Statistics :=
  let perKind := tally tokens
  { perKind
    total := tokens.length
    reservedWords := perKind.getD .reservedWord 0
    identifiers := perKind.getD .identifier 0
    numbers := perKind.getD .integerLiteral 0 + perKind.getD .decimalLiteral 0
    operators := tokens.countP (·.kind.isOperator)
    recent := tokens.drop (tokens.length - recentCount) }

/-- The number of tokens of a kind. -/
def count (s : Statistics) (k : Kind) : Nat := s.perKind.getD k 0

/-- The lines that show the statistics. -/
def lines (s : Statistics) : List String :=
  [s!"Statistics:\n",
   s!"  Tokens:         {s.total}\n",
   s!"  Reserved words: {s.reservedWords}\n",
   s!"  Identifiers:    {s.identifiers}\n",
   s!"  Numbers:        {s.numbers}\n",
   s!"  Operators:      {s.operators}\n",
   s!"Last tokens:\n"]
  ++ s.recent.map fun t => s!"  {t.kind.displayName}: {t.lexeme}\n"

instance : ToString Statistics := ⟨fun s => String.join s.lines⟩

end Statistics
end Lexico
