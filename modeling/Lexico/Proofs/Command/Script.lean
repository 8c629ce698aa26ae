import Lexico.Command.Script
import Lexico.Proofs.Output.Sink

/-!
# Scripts that come to their end

Where no write is refused, a script runs to its end unless it faults. What it prints, what it
complains about, and the files and status it leaves depend on the files it finds alone. This is the
relation `Script.Completes`, with a rule for each action; `Completes.play` says that a script played
in any world without limits does what the relation says.
-/

namespace Lexico

/-- The world with some files in which nothing is written yet and no write is refused. -/
def World.unlimited (files : Files.Tree) : World :=
  ⟨files, .ofLimit none false, .ofLimit none false, #[]⟩

namespace Script

/-- From the files it finds, a script prints and complains, and leaves files and a status. -/
inductive Completes :
    Script → Files.Tree → List String → List String → Files.Tree → Status → Prop where
  | done {files : Files.Tree} {st : Status} : Completes (.done st) files [] [] files st
  | print {texts out err : List String} {next : Script} {files files' : Files.Tree} {st : Status}
      (hnext : Completes next files out err files' st) :
      Completes (.print texts next) files (texts ++ out) err files' st
  | complain {texts out err : List String} {next : Script} {files files' : Files.Tree}
      {st : Status} (hnext : Completes next files out err files' st) :
      Completes (.complain texts next) files out (texts ++ err) files' st
  | log {events : List Event} {out err : List String} {next : Script} {files files' : Files.Tree}
      {st : Status} (hnext : Completes next files out err files' st) :
      Completes (.log events next) files out err files' st
  | read {path : String} {out err : List String} {next : Except FileError ByteArray → Script}
      {files files' : Files.Tree} {st : Status}
      (hnext : Completes (next (files.read path)) files out err files' st) :
      Completes (.read path next) files out err files' st
  | create {path content : String} {out err : List String} {next : Except FileError Unit → Script}
      {files made files' : Files.Tree} {st : Status}
      (hcreate : files.create path content.toUTF8 = .ok made)
      (hnext : Completes (next (.ok ())) made out err files' st) :
      Completes (.create path content next) files out err files' st
  | uncreated {path content : String} {out err : List String}
      {next : Except FileError Unit → Script} {files files' : Files.Tree} {st : Status}
      {e : FileError} (hcreate : files.create path content.toUTF8 = .error e)
      (hnext : Completes (next (.error e)) files out err files' st) :
      Completes (.create path content next) files out err files' st

/-- **A script that completes** does so in every world without limits. -/
theorem Completes.play {s : Script} {files files' : Files.Tree} {out err : List String}
    {st : Status} (h : s.Completes files out err files' st) {w : World} (hfiles : w.files = files)
    (hout : w.out.limit = none) (herr : w.err.limit = none) :
    ∃ events, s.play w = (⟨files', w.out.taking out, w.err.taking err, events⟩, .finished st) := by
  induction h generalizing w with
  | done =>
    rw [Script.play, Sink.taking_nil, Sink.taking_nil, ← hfiles]
    exact ⟨_, rfl⟩
  | print _ ih =>
    rw [Script.play, Sink.writeAll_of_endless hout, Sink.taking_append]
    exact ih hfiles hout herr
  | complain _ ih =>
    rw [Script.play, Sink.writeAll_of_endless herr, Sink.taking_append]
    exact ih hfiles hout herr
  | log _ ih =>
    rw [Script.play]
    exact ih hfiles hout herr
  | read _ ih =>
    rw [Script.play, hfiles]
    exact ih hfiles hout herr
  | create hcreate _ ih =>
    rw [Script.play, hfiles, hcreate]
    exact ih rfl hout herr
  | uncreated hcreate _ ih =>
    rw [Script.play, hfiles, hcreate]
    exact ih hfiles hout herr

/-- From the start, a script that completes has written what it prints and complains about. -/
theorem Completes.play_unlimited {s : Script} {files files' : Files.Tree} {out err : List String}
    {st : Status} (h : s.Completes files out err files' st) :
    ∃ w, s.play (.unlimited files) = (w, .finished st) ∧ w.files = files' ∧
      w.out.accepted = (String.join out).toUTF8 ∧ w.err.accepted = (String.join err).toUTF8 := by
  obtain ⟨events, hplay⟩ := h.play (w := .unlimited files) rfl rfl rfl
  exact ⟨_, hplay, rfl, ByteArray.empty_append, ByteArray.empty_append⟩

end Script
end Lexico
