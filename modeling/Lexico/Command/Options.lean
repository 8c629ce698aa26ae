/-!
# Command-line options

The arguments of the command are read once, from the left; the first that decides the outcome wins.
Reading is by recursion on the arguments, so what follows a deciding argument is never looked at.
-/

namespace Lexico

/-- What a run is to do. -/
structure Options where
  file : String
  noComments : Bool
  stats : Bool
  report : Option String
  deriving DecidableEq, Repr

/-- Why the arguments make no command. -/
inductive UsageError where
  | missingFile
  | missingReportPath
  | unknownOption (arg : String)
  | unexpectedArgument (arg : String)
  deriving DecidableEq, Repr

/-- What the arguments ask for. -/
inductive Command where
  | help
  | analyze (options : Options)
  deriving DecidableEq, Repr

/-- The text for a usage error. -/
def UsageError.message : UsageError → String
  | missingFile => "missing source file"
  | missingReportPath => "`-o` requires a path"
  | unknownOption arg => s!"unknown option `{arg}`"
  | unexpectedArgument arg => s!"unexpected argument `{arg}`"

namespace Options

/-- What the arguments read so far have set. -/
structure Draft where
  file : Option String
  noComments : Bool
  stats : Bool
  report : Option String

/-- An argument that starts with a dash is an option, or nothing. -/
def isDashed (arg : String) : Bool := arg.toList.head? == some '-'

/-- Reads the arguments that follow those which have set `d`. -/
def parseAfter (d : Draft) : List String → Except UsageError Command
  | [] =>
    match d.file with
    | some file => .ok (.analyze ⟨file, d.noComments, d.stats, d.report⟩)
    | none => .error .missingFile
  | arg :: rest =>
    if arg = "-h" || arg = "--help" then .ok .help
    else if arg = "--no-comments" then parseAfter { d with noComments := true } rest
    else if arg = "--stats" then parseAfter { d with stats := true } rest
    else if arg = "-o" then
      match rest with
      | [] => .error .missingReportPath
      | path :: rest =>
        if isDashed path then .error .missingReportPath
        else parseAfter { d with report := some path } rest
    else if isDashed arg then .error (.unknownOption arg)
    else if d.file.isSome then .error (.unexpectedArgument arg)
    else parseAfter { d with file := some arg } rest

/-- Reads the arguments after the name of the program. -/
def parse (args : List String) : Except UsageError Command :=
  parseAfter ⟨none, false, false, none⟩ args

end Options
end Lexico
