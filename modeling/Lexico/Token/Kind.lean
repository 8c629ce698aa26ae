/-!
# Token kinds

The **kind** of a token is what a parser looks at. Kinds have a canonical name, in Spanish, an
order (`Kind.all`), and a category each; every kind is in the list once (`mem_all`, `nodup_all`).
-/

namespace Lexico

/-- The groups of kinds. -/
inductive Category where
  | reservedWord | identifier | literal | operator | delimiter | comment | endOfInput | error
  deriving DecidableEq, Repr

/-- The kinds of tokens. -/
inductive Kind where
  | reservedWord | identifier
  | integerLiteral | decimalLiteral | stringLiteral | booleanLiteral
  | plus | minus | star | slash | assign | equalEqual | notEqual
  | less | greater | lessEqual | greaterEqual
  | leftParen | rightParen | leftBrace | rightBrace | leftBracket | rightBracket
  | semicolon | comma
  | lineComment | blockComment
  | eof | error
  deriving DecidableEq, Repr, Hashable

namespace Kind

/-- The kinds in their order. -/
def all : List Kind :=
  [reservedWord, identifier, integerLiteral, decimalLiteral, stringLiteral, booleanLiteral,
   plus, minus, star, slash, assign, equalEqual, notEqual, less, greater, lessEqual, greaterEqual,
   leftParen, rightParen, leftBrace, rightBrace, leftBracket, rightBracket, semicolon, comma,
   lineComment, blockComment, eof, error]

/-- No kind is left out. -/
theorem mem_all (k : Kind) : k ∈ all := by cases k <;> decide

/-- No kind is listed twice. -/
theorem nodup_all : all.Nodup := by decide

/-- The place of a kind in the order, from 0. -/
def ordinal (k : Kind) : Nat := all.idxOf k

/-- Kinds are ordered as listed. -/
instance : Ord Kind := ⟨fun k l => compare k.ordinal l.ordinal⟩

/-- The canonical name. -/
def name : Kind → String
  | reservedWord => "PALABRA_RESERVADA"
  | identifier => "IDENTIFICADOR"
  | integerLiteral => "NUMERO_ENTERO"
  | decimalLiteral => "NUMERO_DECIMAL"
  | stringLiteral => "CADENA_TEXTO"
  | booleanLiteral => "BOOLEANO"
  | plus => "OPERADOR_SUMA"
  | minus => "OPERADOR_RESTA"
  | star => "OPERADOR_MULTIPLICACION"
  | slash => "OPERADOR_DIVISION"
  | assign => "OPERADOR_ASIGNACION"
  | equalEqual => "OPERADOR_IGUAL"
  | notEqual => "OPERADOR_DIFERENTE"
  | less => "OPERADOR_MENOR"
  | greater => "OPERADOR_MAYOR"
  | lessEqual => "OPERADOR_MENOR_IGUAL"
  | greaterEqual => "OPERADOR_MAYOR_IGUAL"
  | leftParen => "PARENTESIS_IZQ"
  | rightParen => "PARENTESIS_DER"
  | leftBrace => "LLAVE_IZQ"
  | rightBrace => "LLAVE_DER"
  | leftBracket => "CORCHETE_IZQ"
  | rightBracket => "CORCHETE_DER"
  | semicolon => "PUNTO_COMA"
  | comma => "COMA"
  | lineComment => "COMENTARIO_LINEA"
  | blockComment => "COMENTARIO_BLOQUE"
  | eof => "FIN_ARCHIVO"
  | error => "ERROR"

instance : ToString Kind := ⟨name⟩

/-- The name for people to read: spaces stand for underscores. -/
def displayName (k : Kind) : String :=
  String.ofList (k.name.toList.map fun c => if c = '_' then ' ' else c)

/-- The category of a kind. -/
def category : Kind → Category
  | reservedWord => .reservedWord
  | identifier => .identifier
  | integerLiteral | decimalLiteral | stringLiteral | booleanLiteral => .literal
  | plus | minus | star | slash | assign | equalEqual | notEqual
  | less | greater | lessEqual | greaterEqual => .operator
  | leftParen | rightParen | leftBrace | rightBrace | leftBracket | rightBracket
  | semicolon | comma => .delimiter
  | lineComment | blockComment => .comment
  | eof => .endOfInput
  | error => .error

/-- Arithmetic, comparison and assignment. -/
def isOperator (k : Kind) : Bool := k.category = .operator
/-- Brackets of all forms, the semicolon and the comma. -/
def isDelimiter (k : Kind) : Bool := k.category = .delimiter
/-- Values written out. -/
def isLiteral (k : Kind) : Bool := k.category = .literal
/-- Text for readers only. -/
def isComment (k : Kind) : Bool := k.category = .comment

/-- Numbers are the integer and decimal literals. -/
def isNumber (k : Kind) : Bool := k = .integerLiteral || k = .decimalLiteral

end Kind
end Lexico
