/-!
# File errors

Why a file cannot be read or created, in the words of the operating system.
-/

namespace Lexico

/-- Why a path cannot be opened. -/
inductive FileError where
  /-- A name on the path is missing. -/
  | notFound
  /-- A name that has to be a directory is a file. -/
  | notADirectory
  /-- The path leads to a directory. -/
  | isADirectory
  /-- The path or a name on it is too long. -/
  | nameTooLong
  /-- No path holds a zero character. -/
  | nulInName
  /-- Any other refusal. -/
  | other (code : Nat) (details : String)
  deriving DecidableEq, Repr

/-- The text for a file error, with the number of the error. -/
def FileError.message : FileError → String
  | notFound => "No such file or directory (os error 2)"
  | notADirectory => "Not a directory (os error 20)"
  | isADirectory => "Is a directory (os error 21)"
  | nameTooLong => "File name too long (os error 36)"
  | nulInName => "file name contained an unexpected NUL byte"
  | other code details => s!"{details} (os error {code})"

end Lexico
