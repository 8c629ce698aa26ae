import Lexico.Command.Run

/-!
# The command

The command reads its arguments and runs, or explains how it is used: on request on the standard
output, after a usage error on the standard error.
-/

namespace Lexico.Command

/-- How the command is used, line by line. -/
def usageLines : List String :=
  ["Usage: analex <file> [options]",
   "",
   "Options:",
   "  --no-comments       Leave comment tokens out of the table and report",
   "  --stats             Print token statistics after the table",
   "  -o <path>           Write the token report to <path>",
   "  -h, --help          Show this help message",
   "",
   "Exit status: 0 if the source is lexically clean, 2 if lexical errors",
   "were found, 1 on any other failure.",
   "",
   "Set RUST_LOG (e.g. RUST_LOG=analex=trace) for diagnostic logging."]

/-- How the command is used. -/
def usage : String := "\n".intercalate usageLines

/-- What the command does with its arguments. -/
def script (args : List String) : Script :=
  match Options.parse args with
  | .error e => .complain [s!"error: {e.message}\n", "\n", usage ++ "\n"] (.done .failure)
  | .ok .help => .print [usage ++ "\n"] (.done .success)
  | .ok (.analyze options) => Run.script options

end Lexico.Command
