/-!
# Sinks

A **sink** takes bytes and may have room for only so many. A write takes the bytes that there is
room for and fails if there are more; an empty write never fails. Lines written in sequence leave
in a sink the longest beginning of the whole text that fits.
-/

namespace Lexico

/-- Why a sink refuses. -/
inductive SinkError where
  | limitReached
  | flushFailed
  deriving DecidableEq, Repr

/-- The text for a refusal. -/
def SinkError.message : SinkError → String
  | limitReached => "limit reached"
  | flushFailed => "flush failed"

/-- What was taken so far, the number of bytes it may come to, and whether flushing fails. -/
structure Sink where
  accepted : ByteArray
  limit : Option Nat
  flushFails : Bool

namespace Sink

/-- An empty sink. -/
def ofLimit (limit : Option Nat) (flushFails : Bool) : Sink := ⟨ByteArray.empty, limit, flushFails⟩

/-- The bytes that there is room for. -/
def fitting (s : Sink) (bytes : ByteArray) : ByteArray :=
  match s.limit with
  | none => bytes
  | some limit => bytes.extract 0 (limit - s.accepted.size)

/-- Takes what there is room for, and fails if that is not all. -/
def write (s : Sink) (text : String) : Sink × Except SinkError Unit :=
  let bytes := text.toUTF8
  let taken := s.fitting bytes
  ({ s with accepted := s.accepted ++ taken },
    if taken.size < bytes.size then .error .limitReached else .ok ())

/-- Writes texts in order, up to the first failure. -/
def writeAll (s : Sink) : List String → Sink × Except SinkError Unit
  | [] => (s, .ok ())
  | text :: rest =>
    match s.write text with
    | (s, .ok ()) => s.writeAll rest
    | (s, .error e) => (s, .error e)

/-- Nothing is held back, so flushing only fails or succeeds. -/
def flush (s : Sink) : Except SinkError Unit :=
  if s.flushFails then .error .flushFailed else .ok ()

end Sink
end Lexico
