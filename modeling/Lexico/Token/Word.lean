import Lexico.Token.Kind

/-!
# Words with a meaning of their own

A word of the text is an identifier unless it is in one of two tables. `Word.kind?` finds a word
among those of its length, so a word of an unusual length is compared with none.
-/

namespace Lexico.Word

/-- The reserved words. -/
def reserved : List String :=
  ["if", "else", "while", "for", "do", "return", "break", "continue", "switch", "case", "default",
   "int", "float", "double", "char", "string", "bool", "boolean", "void", "const", "var",
   "function", "class", "new", "null", "print", "read", "main"]

/-- The boolean literals. -/
def booleans : List String := ["true", "false"]

/-- The words of a length, in bytes, that have a meaning of their own: reserved ones, then boolean
literals. -/
def bucket : Nat → List String × List String
  | 2 => (["if", "do"], [])
  | 3 => (["for", "int", "new", "var"], [])
  | 4 => (["else", "case", "char", "bool", "void", "null", "read", "main"], ["true"])
  | 5 => (["while", "break", "float", "const", "class", "print"], ["false"])
  | 6 => (["return", "switch", "double", "string"], [])
  | 7 => (["default", "boolean"], [])
  | 8 => (["continue", "function"], [])
  | _ => ([], [])

/-- The kind of a word that is no identifier. -/
def kind? (w : String) : Option Kind :=
  let (words, literals) := bucket w.utf8ByteSize
  if words.contains w then some .reservedWord
  else if literals.contains w then some .booleanLiteral
  else none

/-- A word is reserved. -/
def isReserved (w : String) : Bool := kind? w = some .reservedWord

end Lexico.Word
