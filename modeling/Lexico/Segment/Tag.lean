/-!
# Tags of segments

A text is first cut into **segments**, blanks included; the **tag** of a segment says by which rule
it was cut. Tags have fixed codes, grouped by role, and names for logs. Operators and delimiters
have one spelling each (`spelling?`).
-/

namespace Lexico

/-- The rule by which a segment was cut. -/
inductive Tag where
  | ident | int | decimal | string
  | plus | minus | star | slash
  | equal | equalEqual | bangEqual | less | greater | lessEqual | greaterEqual
  | leftParen | rightParen | leftBrace | rightBrace | leftBracket | rightBracket
  | semicolon | comma
  | lineComment | blockComment
  | whitespace | newline
  | unrecognizedChar | unterminatedString | unterminatedBlockComment
  | eof
  deriving DecidableEq, Repr

namespace Tag

/-- The code of a tag: literals from 0, operators from 32, delimiters from 80, comments from 100,
blanks from 112, errors from 240, and the end at 255. -/
def code : Tag → UInt8
  | ident => 0 | int => 1 | decimal => 2 | string => 3
  | plus => 32 | minus => 33 | star => 34 | slash => 35
  | equal => 36 | equalEqual => 37 | bangEqual => 38 | less => 39 | greater => 40
  | lessEqual => 41 | greaterEqual => 42
  | leftParen => 80 | rightParen => 81 | leftBrace => 82 | rightBrace => 83
  | leftBracket => 84 | rightBracket => 85 | semicolon => 86 | comma => 87
  | lineComment => 100 | blockComment => 101
  | whitespace => 112 | newline => 113
  | unrecognizedChar => 240 | unterminatedString => 241 | unterminatedBlockComment => 242
  | eof => 255

/-- The spelling of an operator or delimiter; the text of any other segment varies. -/
def spelling? : Tag → Option String
  | plus => some "+" | minus => some "-" | star => some "*" | slash => some "/"
  | equal => some "=" | equalEqual => some "==" | bangEqual => some "!="
  | less => some "<" | greater => some ">" | lessEqual => some "<=" | greaterEqual => some ">="
  | leftParen => some "(" | rightParen => some ")"
  | leftBrace => some "\x7b" | rightBrace => some "\x7d"
  | leftBracket => some "[" | rightBracket => some "]"
  | semicolon => some ";" | comma => some ","
  | _ => none

/-- The name of a tag: the quoted spelling if it has one. -/
def name : Tag → String
  | ident => "identifier"
  | int => "integer literal"
  | decimal => "decimal literal"
  | string => "string literal"
  | lineComment => "line comment"
  | blockComment => "block comment"
  | whitespace => "whitespace"
  | newline => "newline"
  | unrecognizedChar => "unrecognized character"
  | unterminatedString => "unterminated string"
  | unterminatedBlockComment => "unterminated block comment"
  | eof => "end of file"
  | operator => "`" ++ operator.spelling?.getD "" ++ "`"

/-- Blanks and line ends separate tokens and are none themselves. -/
def isTrivia : Tag → Bool
  | whitespace | newline => true
  | _ => false

/-- The tags of text that no token has. -/
def isError : Tag → Bool
  | unrecognizedChar | unterminatedString | unterminatedBlockComment => true
  | _ => false

end Tag
end Lexico
