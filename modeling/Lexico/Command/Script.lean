import Lexico.Event
import Lexico.Files.Tree
import Lexico.Output.Sink
import Lexico.Source.Fault

/-!
# Scripts

What a run does to its surroundings is a **script**: a list of actions, in which those that may fail
say how to go on in either case. A script is data, so one and the same run can be played in a
**world** of values (`Script.play`) or carried out for real.

A write that a sink refuses ends the script; all else that goes wrong is for the script to answer.
-/

namespace Lexico

/-- How a run ends when nothing breaks off its output. -/
inductive Status where
  /-- The source is lexically clean. -/
  | success
  /-- The run could not do its work. -/
  | failure
  /-- The source has lexical errors. -/
  | lexicalErrors
  deriving DecidableEq, Repr

/-- The exit code of a status. -/
def Status.code : Status → UInt32
  | success => 0
  | failure => 1
  | lexicalErrors => 2

/-- Actions in order, up to the end of a run. -/
inductive Script where
  /-- The end of the run. -/
  | done (status : Status)
  /-- The byte level refused a request. -/
  | faulted (fault : Fault)
  /-- Writes to the standard output. -/
  | print (texts : List String) (next : Script)
  /-- Writes to the standard error. -/
  | complain (texts : List String) (next : Script)
  /-- Logs events. -/
  | log (events : List Event) (next : Script)
  /-- Reads a file. -/
  | read (path : String) (next : Except FileError ByteArray → Script)
  /-- Creates a file, or replaces its content. -/
  | create (path : String) (content : String) (next : Except FileError Unit → Script)

/-- The surroundings of a run. -/
structure World where
  files : Files.Tree
  out : Sink
  err : Sink
  events : Array Event

/-- How a script ends. -/
inductive Outcome where
  | finished (status : Status)
  | refused (error : SinkError)
  | faulted (fault : Fault)
  deriving DecidableEq, Repr

/-- Plays a script in a world. -/
def Script.play : Script → World → World × Outcome
  | .done status, w => (w, .finished status)
  | .faulted fault, w => (w, .faulted fault)
  | .print texts next, w =>
    match w.out.writeAll texts with
    | (out, .ok ()) => next.play { w with out }
    | (out, .error e) => ({ w with out }, .refused e)
  | .complain texts next, w =>
    match w.err.writeAll texts with
    | (err, .ok ()) => next.play { w with err }
    | (err, .error e) => ({ w with err }, .refused e)
  | .log events next, w => next.play { w with events := w.events ++ events }
  | .read path next, w => (next (w.files.read path)).play w
  | .create path content next, w =>
    match w.files.create path content.toUTF8 with
    | .ok files => (next (.ok ())).play { w with files }
    | .error e => (next (.error e)).play w

end Lexico
