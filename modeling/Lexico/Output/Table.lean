import Lexico.Output.Sink
import Lexico.Text.Column
import Lexico.Text.Escape
import Lexico.Token.Basic

/-!
# The token table

The table shows tokens for people to read, one row each; lexemes are escaped so that none of them
breaks its row.
-/

namespace Lexico.Table

/-- The head of the columns. -/
def header : String :=
  Text.padRight 30 "TYPE" ++ " " ++ Text.padRight 20 "LEXEME" ++ " " ++ Text.padRight 6 "LINE"
    ++ " COLUMN\n"

/-- The row of a token. -/
def row (t : Token) : String :=
  Text.padRight 30 t.kind.displayName ++ " " ++ Text.padRight 20 (Text.escape t.lexeme)
    ++ " " ++ Text.padRight 6 (toString t.position.line.toNat)
    ++ " " ++ toString t.position.column.toNat ++ "\n"

/-- The lines of the table of some tokens. -/
def lines (tokens : List Token) : List String := header :: tokens.map row

/-- Writes the table line by line. -/
def write (sink : Sink) (tokens : List Token) : Sink × Except SinkError Unit :=
  sink.writeAll (lines tokens)

end Lexico.Table
