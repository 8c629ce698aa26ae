import Lexico.LexicalError
import Lexico.Segment.Tag
import Lexico.Token.Word

/-!
# What a segment stands for

Each segment stands for a token of some kind, except for blanks and line ends. Segments that have
no token of their own stand for an error token, and have a cause (`isSome_cause?_iff`).
-/

namespace Lexico.Tag

/-- The kind of the token that a segment with the given text stands for. -/
def kind? (tag : Tag) (lexeme : String) : Option Kind :=
  match tag with
  | whitespace | newline | eof => none
  | ident => some ((Word.kind? lexeme).getD .identifier)
  | int => some .integerLiteral
  | decimal => some .decimalLiteral
  | string => some .stringLiteral
  | plus => some .plus
  | minus => some .minus
  | star => some .star
  | slash => some .slash
  | equal => some .assign
  | equalEqual => some .equalEqual
  | bangEqual => some .notEqual
  | less => some .less
  | greater => some .greater
  | lessEqual => some .lessEqual
  | greaterEqual => some .greaterEqual
  | leftParen => some .leftParen
  | rightParen => some .rightParen
  | leftBrace => some .leftBrace
  | rightBrace => some .rightBrace
  | leftBracket => some .leftBracket
  | rightBracket => some .rightBracket
  | semicolon => some .semicolon
  | comma => some .comma
  | lineComment => some .lineComment
  | blockComment => some .blockComment
  | unrecognizedChar | unterminatedString | unterminatedBlockComment => some .error

/-- What is wrong with a segment with the given text. -/
def cause? (tag : Tag) (lexeme : String) : Option LexicalError.Cause :=
  match tag with
  | unrecognizedChar => some (.unrecognizedChar (lexeme.toList.headD '\ufffd'))
  | unterminatedString => some .unterminatedString
  | unterminatedBlockComment => some .unterminatedBlockComment
  | _ => none

/-- Exactly the error tags have something wrong with them. -/
theorem isSome_cause?_iff {tag : Tag} {lexeme : String} :
    (tag.cause? lexeme).isSome = tag.isError := by
  cases tag <;> rfl

/-- No segment stands for the end of the text. -/
theorem kind?_ne_eof (tag : Tag) (lexeme : String) : tag.kind? lexeme ≠ some .eof := by
  cases tag <;> simp only [kind?, ne_eq, Option.some.injEq, reduceCtorEq, not_false_eq_true]
  unfold Word.kind?
  split
  split
  · simp
  · split <;> simp

end Lexico.Tag
