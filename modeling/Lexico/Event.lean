import Lexico.LexicalError
import Lexico.Segment.Tag
import Lexico.Token.Basic

/-!
# Events

The log of a run is a list of events, each with the values that its line shows (`Event.line`).
Scanning logs every token, and an error before the token that stands for its text.
-/

namespace Lexico

/-- What a run logs. -/
inductive Event where
  /-- A token was read, from a segment with the given tag. -/
  | token (tag : Tag) (token : Token)
  /-- An error was recorded. -/
  | lexicalError (error : LexicalError)
  /-- The end of a source was reached. -/
  | analysisComplete (tokens errors : Nat)
  /-- A file was read, before its bytes were looked at. -/
  | loadedSource (path : String) (size : Nat)
  /-- The report was written in full. -/
  | reportWritten (path : String)
  deriving DecidableEq, Repr

namespace Event

/-- How much detail a line of the log is. -/
inductive Level where
  | trace | debug
  deriving DecidableEq, Repr

/-- A value on a line of the log. -/
inductive Value where
  | number (n : Nat)
  | text (s : String)
  deriving DecidableEq, Repr

/-- A line of the log: a message with named values. -/
structure Line where
  level : Level
  message : String
  fields : List (String × Value)
  deriving DecidableEq, Repr

/-- The line that shows an event. -/
def line : Event → Line
  | token tag t => ⟨.trace, "token", [("kind", .text t.kind.name), ("raw", .text tag.name),
      ("lexeme", .text t.lexeme), ("line", .number t.position.line.toNat),
      ("column", .number t.position.column.toNat)]⟩
  | lexicalError e => ⟨.debug, "lexical error", [("error", .text e.message)]⟩
  | analysisComplete tokens errors =>
      ⟨.debug, "analysis complete", [("tokens", .number tokens), ("errors", .number errors)]⟩
  | loadedSource path size =>
      ⟨.debug, "loaded source", [("path", .text path), ("bytes", .number size)]⟩
  | reportWritten path => ⟨.debug, "report written", [("path", .text path)]⟩

end Event

end Lexico
