import Lexico.Analysis
import Lexico.Command.Options
import Lexico.Command.Script
import Lexico.Files.Load
import Lexico.Output.Report
import Lexico.Output.Table
import Lexico.Statistics

/-!
# Runs

A run loads a source file, analyses it, and prints the table of its tokens, its errors, and on
request statistics; on request it writes a report; last it prints a summary. Errors in the source
do not stop a run: they show in its status.
-/

namespace Lexico.Run

/-- The end of a run that could not do its work. -/
def fail (message : String) : Script := .complain ["error: " ++ message ++ "\n"] (.done .failure)

/-- The tokens that a run shows and reports. -/
def shown (o : Options) (a : Analysis) : List Token :=
  if o.noComments then a.withoutComments else a.tokens

/-- The list of errors, if there are any. -/
def errorLines (a : Analysis) : List String :=
  if a.hasErrors then "\n" :: "Lexical errors:\n" :: a.messages.map fun m => s!"  {m}\n" else []

/-- The statistics, if they are asked for. -/
def statsLines (o : Options) (tokens : List Token) : List String :=
  if o.stats then "\n" :: (Statistics.ofTokens tokens).lines else []

/-- All that is printed before a report is written. -/
def body (o : Options) (a : Analysis) : List String :=
  Table.lines (shown o a) ++ errorLines a ++ statsLines o (shown o a)

/-- The last lines of a run. -/
def summary (tokens : List Token) : List String :=
  ["\n", s!"Analysis complete: {tokens.length} tokens found\n"]

/-- The status of a run that did its work. -/
def status (a : Analysis) : Status := if a.hasErrors then .lexicalErrors else .success

/-- The end of a run that did its work. -/
def finish (o : Options) (a : Analysis) : Script :=
  .print (summary (shown o a)) (.done (status a))

/-- Prints an analysis, and writes the report on it if there is anything to report. -/
def present (o : Options) (a : Analysis) : Script :=
  .print (body o a) <|
    match o.report with
    | none => finish o a
    | some path =>
      if (shown o a).isEmpty then fail "no tokens to save"
      else
        .create path (Report.render (shown o a)) fun
          | .error e => fail s!"cannot write report '{path}': {e.message}"
          | .ok () =>
            .log [.reportWritten path] <|
              .print ["\n", s!"Report written to {path}\n"] (finish o a)

/-- Analyses a source text and presents what was found. -/
def analyze (o : Options) (text : String) : Script :=
  if text = "" then fail "no source code to analyze"
  else
    match Analysis.runText text with
    | .error fault => .faulted fault
    | .ok (a, events) => .log events (present o a)

/-- A whole run. -/
def script (o : Options) : Script :=
  .read o.file fun content =>
    let (events, text) := loadText o.file content
    .log events <|
      match text with
      | .error e => fail e.message
      | .ok text => analyze o text

end Lexico.Run
