import Lexico.Source.Position
import Lexico.Token.Kind

/-!
# Tokens

A **token** is a kind, its text in the source (the **lexeme**), and the position of that.
-/

namespace Lexico

/-- A kind, the text it stands for, and where that starts. -/
structure Token where
  kind : Kind
  lexeme : String
  position : Position
  deriving DecidableEq, Repr

namespace Token

/-- The token for the end of the text, which has no lexeme. -/
def endAt (p : Position) : Token := ⟨.eof, "", p⟩

/-- The token stands for the end of the text. -/
def isEof (t : Token) : Bool := t.kind = .eof

/-- The token stands for text that no token has. -/
def isError (t : Token) : Bool := t.kind = .error

instance : ToString Token :=
  ⟨fun t =>
    s!"Token[{t.kind.displayName}, '{t.lexeme}', L:{t.position.line.toNat}, C:{t.position.column.toNat}]"⟩

end Token
end Lexico
