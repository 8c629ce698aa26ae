import Lexico.Output.Sink
import Lexico.Text.Column
import Lexico.Token.Basic

/-!
# The report

The report lists tokens under a title, one row each, with the lexeme as it is in the source.
-/

namespace Lexico.Report

/-- The title of every report. -/
def title : String := "TOKENS IDENTIFICADOS"

/-- The lines before the rows: the title, a rule below it, and an empty line. -/
def header : List String := [title ++ "\n", "===================\n", "\n"]

/-- The row of a token. -/
def row (t : Token) : String :=
  Text.padRight 30 t.kind.displayName ++ " " ++ Text.padRight 20 t.lexeme
    ++ " Línea: " ++ Text.padRight 5 (toString t.position.line.toNat)
    ++ " Columna: " ++ Text.padRight 5 (toString t.position.column.toNat) ++ "\n"

/-- The lines of the report on some tokens. -/
def lines (tokens : List Token) : List String := header ++ tokens.map row

/-- The whole report as one text. -/
def render (tokens : List Token) : String := String.join (lines tokens)

/-- Writes the report line by line and flushes. -/
def write (sink : Sink) (tokens : List Token) : Sink × Except SinkError Unit :=
  match sink.writeAll (lines tokens) with
  | (sink, .ok ()) => (sink, sink.flush)
  | (sink, .error e) => (sink, .error e)

end Lexico.Report
