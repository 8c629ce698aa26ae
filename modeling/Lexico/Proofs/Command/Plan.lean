import Lexico.Proofs.Command.Script

/-!
# Scripts whose writes may be refused

A refused write ends a script, so what a script leaves depends on the order of what it does. A
**plan** is such an order: some texts are printed, the files are left as they are to be, more texts
are printed, and complaints come last. A script that follows a plan (`Script.Follows`) does in any
world what the sinks of that world have room for, and no more (`Follows.play`).
-/

namespace Lexico

/-- The world with some files in which nothing is written yet and sinks have limits. -/
def World.limited (files : Files.Tree) (out err : Option Nat) : World :=
  ⟨files, .ofLimit out false, .ofLimit err false, #[]⟩

namespace Script

/-- What is done, in order. -/
structure Plan where
  /-- What is printed before the files change. -/
  before : List String
  /-- The files that are left. -/
  files : Files.Tree
  /-- What is printed after that. -/
  after : List String
  /-- What is complained about when all is printed. -/
  complaints : List String
  /-- The status at the end. -/
  status : Status

/-- From the files it finds, a script does what is planned, in that order. -/
inductive Follows : Script → Files.Tree → Plan → Prop where
  | done {files : Files.Tree} {st : Status} : Follows (.done st) files ⟨[], files, [], [], st⟩
  | print {texts before after complaints : List String} {next : Script}
      {files files' : Files.Tree} {st : Status}
      (hnext : Follows next files ⟨before, files', after, complaints, st⟩) :
      Follows (.print texts next) files ⟨texts ++ before, files', after, complaints, st⟩
  | complain {texts complaints : List String} {next : Script} {files : Files.Tree} {st : Status}
      (hnext : Follows next files ⟨[], files, [], complaints, st⟩) :
      Follows (.complain texts next) files ⟨[], files, [], texts ++ complaints, st⟩
  | log {events : List Event} {next : Script} {files : Files.Tree} {p : Plan}
      (hnext : Follows next files p) : Follows (.log events next) files p
  | read {path : String} {next : Except FileError ByteArray → Script} {files : Files.Tree}
      {p : Plan} (hnext : Follows (next (files.read path)) files p) :
      Follows (.read path next) files p
  | create {path content : String} {texts complaints : List String}
      {next : Except FileError Unit → Script} {files made : Files.Tree} {st : Status}
      (hcreate : files.create path content.toUTF8 = .ok made)
      (hnext : Follows (next (.ok ())) made ⟨texts, made, [], complaints, st⟩) :
      Follows (.create path content next) files ⟨[], made, texts, complaints, st⟩
  | uncreated {path content : String} {next : Except FileError Unit → Script} {files : Files.Tree}
      {e : FileError} {p : Plan} (hcreate : files.create path content.toUTF8 = .error e)
      (hnext : Follows (next (.error e)) files p) : Follows (.create path content next) files p

/-- Texts may be all that is printed before the files change. -/
theorem Follows.print_last {texts after complaints : List String} {next : Script}
    {files files' : Files.Tree} {st : Status}
    (h : next.Follows files ⟨[], files', after, complaints, st⟩) :
    (Script.print texts next).Follows files ⟨texts, files', after, complaints, st⟩ := by
  have hprint : (Script.print texts next).Follows files
      ⟨texts ++ [], files', after, complaints, st⟩ := .print h
  rwa [List.append_nil] at hprint

variable {s : Script} {files : Files.Tree} {p : Plan}

/-- Where nothing is refused, the order does not matter. -/
theorem Follows.completes (h : s.Follows files p) :
    s.Completes files (p.before ++ p.after) p.complaints p.files p.status := by
  induction h with
  | done => exact .done
  | print _ ih =>
    rw [List.append_assoc]
    exact .print ih
  | complain _ ih => exact .complain ih
  | log _ ih => exact .log ih
  | read _ ih => exact .read ih
  | create hcreate _ ih =>
    rw [List.append_nil] at ih
    exact .create hcreate ih
  | uncreated hcreate _ ih => exact .uncreated hcreate ih

/-- **A script that follows a plan** prints what there is room for. Its files are left once all
before them is printed, it complains once all is printed, and it comes to its end if nothing of all
this is refused. -/
theorem Follows.play (h : s.Follows files p) {w : World} (hfiles : w.files = files) :
    ∃ events, s.play w =
      (⟨if w.out.Fits p.before then p.files else files, w.out.filledWith (p.before ++ p.after),
        if w.out.Fits (p.before ++ p.after) then w.err.filledWith p.complaints else w.err, events⟩,
      if w.out.Fits (p.before ++ p.after) ∧ w.err.Fits p.complaints then .finished p.status
      else .refused .limitReached) := by
  -- What is left to do is done in a world whose sinks hold what was printed before.
  induction h generalizing w with
  | done =>
    refine ⟨w.events, ?_⟩
    rw [Script.play, ← hfiles]
    simp [Sink.fits_nil, Sink.filledWith_nil]
  | @print texts before after complaints next files files' st _ ih =>
    rw [Script.play, Sink.writeAll_eq]
    by_cases hfits : w.out.Fits texts
    · obtain ⟨events, hplay⟩ := ih (w := { w with out := w.out.filledWith texts }) hfiles
      refine ⟨events, ?_⟩
      simp only [hfits, if_true, hplay, List.append_assoc, Sink.fits_append, true_and,
        Sink.filledWith_append]
    · refine ⟨w.events, ?_⟩
      simp only [hfits, if_false, List.append_assoc, Sink.fits_append, false_and,
        Sink.filledWith_append_of_not_fits hfits, hfiles]
  | @complain texts complaints next files st _ ih =>
    rw [Script.play, Sink.writeAll_eq]
    by_cases hfits : w.err.Fits texts
    · obtain ⟨events, hplay⟩ := ih (w := { w with err := w.err.filledWith texts }) hfiles
      refine ⟨events, ?_⟩
      simp only [hfits, if_true, hplay, List.append_nil, Sink.fits_nil, Sink.fits_append, true_and,
        Sink.filledWith_append]
    · refine ⟨w.events, ?_⟩
      simp only [hfits, if_false, List.append_nil, Sink.fits_nil, Sink.fits_append, true_and,
        false_and, if_true, Sink.filledWith_nil, Sink.filledWith_append_of_not_fits hfits, hfiles]
  | log _ ih =>
    rw [Script.play]
    exact ih hfiles
  | read _ ih =>
    rw [Script.play, hfiles]
    exact ih hfiles
  | @create path content texts complaints next files made st hcreate _ ih =>
    rw [Script.play, hfiles, hcreate]
    obtain ⟨events, hplay⟩ := ih (w := { w with files := made }) rfl
    refine ⟨events, hplay.trans ?_⟩
    simp only [ite_self, Sink.fits_nil, if_true, List.append_nil, List.nil_append]
  | uncreated hcreate _ ih =>
    rw [Script.play, hfiles, hcreate]
    exact ih hfiles

end Script
end Lexico
