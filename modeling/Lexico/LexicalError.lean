import Lexico.Source.Position
import Lexico.Text.Escape

/-!
# Lexical errors

What is wrong with a stretch of text that no token has, and where it starts.
-/

namespace Lexico

/-- Why a stretch of text has no token. -/
inductive LexicalError.Cause where
  /-- No token starts with the character. -/
  | unrecognizedChar (c : Char)
  /-- The line or the text ends inside a string literal. -/
  | unterminatedString
  /-- The text ends inside a block comment. -/
  | unterminatedBlockComment
  deriving DecidableEq, Repr

/-- A cause and the position at which its stretch of text starts. -/
structure LexicalError where
  cause : LexicalError.Cause
  position : Position
  deriving DecidableEq, Repr

namespace LexicalError

/-- The text for a cause; a character is quoted and escaped. -/
def Cause.message : Cause → String
  | unrecognizedChar c => "unrecognized character '" ++ Text.escapeChar c ++ "'"
  | unterminatedString => "unterminated string literal"
  | unterminatedBlockComment => "unterminated block comment"

/-- The text for an error: where, then why. -/
def message (e : LexicalError) : String := toString e.position ++ ": " ++ e.cause.message

end LexicalError
end Lexico
