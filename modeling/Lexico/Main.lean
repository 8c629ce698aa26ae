import Lexico.Command.Usage

/-!
# The program

Carries out the script of the command with real files and streams. Events are not shown.
-/

namespace Lexico

/-- The number of an error, which some operations give negated. -/
def errorNumber (code : UInt32) : Nat := min code.toNat (-code).toNat

/-- The cause for an error number of the operating system. -/
def FileError.ofCode (code : UInt32) (details : String) : FileError :=
  match errorNumber code with
  | 2 => .notFound
  | 20 => .notADirectory
  | 21 => .isADirectory
  | 36 => .nameTooLong
  | number => .other number details

/-- The cause of a failed file operation. -/
def FileError.ofSystem : IO.Error → FileError
  | .alreadyExists _ code details | .interrupted _ code details
  | .noFileOrDirectory _ code details | .invalidArgument _ code details
  | .permissionDenied _ code details | .resourceExhausted _ code details
  | .inappropriateType _ code details | .noSuchThing _ code details
  | .otherError code details | .resourceBusy code details | .resourceVanished code details
  | .unsupportedOperation code details | .hardwareFault code details
  | .unsatisfiedConstraints code details | .illegalOperation code details
  | .protocolError code details | .timeExpired code details => .ofCode code details
  | .unexpectedEof => .other 0 "end of file"
  | .userError details => .other 0 details

/-- A file operation on a path, or why it failed. -/
def attempt {α : Type} (path : String) (act : IO α) : IO (Except FileError α) :=
  if '\x00' ∈ path.toList then return .error .nulInName
  else
    try return .ok (← act)
    catch e => return .error (.ofSystem e)

/-- Carries out a script and answers its exit code. -/
def Script.perform : Script → IO UInt32
  | .done status => return status.code
  | .faulted fault => throw (IO.userError (reprStr fault))
  | .print texts next => do
    let out ← IO.getStdout
    texts.forM out.putStr
    out.flush
    next.perform
  | .complain texts next => do
    let err ← IO.getStderr
    texts.forM err.putStr
    next.perform
  | .log _ next => next.perform
  | .read path next => do (next (← attempt path (IO.FS.readBinFile path))).perform
  | .create path content next => do
    (next (← attempt path (IO.FS.writeFile path content))).perform

end Lexico

/-- Runs the command; a stream that fails is an error of its own. -/
def main (args : List String) : IO UInt32 := do
  try (Lexico.Command.script args).perform
  catch e =>
    IO.eprintln s!"error: {e}"
    return Lexico.Status.failure.code
