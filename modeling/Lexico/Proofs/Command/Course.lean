import Lexico.Command.Run
import Lexico.Proofs.Command.Plan
import Lexico.Proofs.Scanner.Reading

/-!
# Courses of a run

A run that comes to its end goes one of seven ways, by what the source file holds, whether a report
is asked for, and whether its file can be created. A **course** says what each way prints, what it
complains about, and which files and status it leaves. Else the run faults, and it does so only over
a text of which not all is kept, cut inside a character:

    exists_course : (∃ out err files' st, Course files o out err files' st) ∨
      ∃ fault, Faults files o fault
    Course.completes : Course files o out err files' st →
      (script o).Completes files out err files' st
    Faults.cutSource : Faults files o fault → CutSource files o

So what holds of every run is a fact about seven courses. Where a write may be refused, it matters
too in which order things are done; of that, `Course.follows` says that the files change for a
report alone, and between what is printed of the analysis and the rest.
-/

namespace Lexico.Run

/-- The source file holds a text, and `a` is the analysis of it. -/
def Finds (files : Files.Tree) (o : Options) (a : Analysis) : Prop :=
  ∃ content text, files.read o.file = .ok content ∧ String.fromUTF8? content = some text ∧
    text ≠ "" ∧ Analysis.ofText text = .ok a

/-- The source file holds a text, and the analysis of it faults. -/
def Faults (files : Files.Tree) (o : Options) (fault : Fault) : Prop :=
  ∃ content text, files.read o.file = .ok content ∧ String.fromUTF8? content = some text ∧
    text ≠ "" ∧ Analysis.ofText text = .error fault

/-- The source file has more bytes than a source may have, and those that are kept of them end
inside a character. -/
def CutSource (files : Files.Tree) (o : Options) : Prop :=
  ∃ content, files.read o.file = .ok content ∧ offsetLimit ≤ content.size ∧
    ¬ (content.extract 0 (offsetLimit - 1)).IsValidUTF8

/-- What a run that fails complains about. -/
def complaint (message : String) : List String := ["error: " ++ message ++ "\n"]

/-- What is printed about a report that is written. -/
def written (path : String) : List String := ["\n", s!"Report written to {path}\n"]

/-- The ways a run can go: what it prints and complains about, and what it leaves. -/
inductive Course (files : Files.Tree) (o : Options) :
    List String → List String → Files.Tree → Status → Prop where
  | unreadable {e : FileError} (hread : files.read o.file = .error e) :
      Course files o [] (complaint (LoadError.unreadable o.file e).message) files .failure
  | notUtf8 {content : ByteArray} (hread : files.read o.file = .ok content)
      (htext : String.fromUTF8? content = none) :
      Course files o [] (complaint (LoadError.notUtf8 o.file).message) files .failure
  | empty {content : ByteArray} (hread : files.read o.file = .ok content)
      (htext : String.fromUTF8? content = some "") :
      Course files o [] (complaint "no source code to analyze") files .failure
  | noTokens {a : Analysis} {path : String} (hfinds : Finds files o a)
      (hreport : o.report = some path) (hnone : shown o a = []) :
      Course files o (body o a) (complaint "no tokens to save") files .failure
  | unwritable {a : Analysis} {path : String} {e : FileError} (hfinds : Finds files o a)
      (hreport : o.report = some path) (hsome : shown o a ≠ [])
      (hcreate : files.create path (Report.render (shown o a)).toUTF8 = .error e) :
      Course files o (body o a) (complaint s!"cannot write report '{path}': {e.message}") files
        .failure
  | reported {a : Analysis} {path : String} {files' : Files.Tree} (hfinds : Finds files o a)
      (hreport : o.report = some path) (hsome : shown o a ≠ [])
      (hcreate : files.create path (Report.render (shown o a)).toUTF8 = .ok files') :
      Course files o (body o a ++ (written path ++ summary (shown o a))) [] files' (status a)
  | unreported {a : Analysis} (hfinds : Finds files o a) (hreport : o.report = none) :
      Course files o (body o a ++ summary (shown o a)) [] files (status a)

/-- The run has a report to write, and `made` is the tree with that report. -/
inductive Reports (files : Files.Tree) (o : Options) (a : Analysis) (made : Files.Tree) : Prop where
  | intro {path : String} (hreport : o.report = some path) (hsome : shown o a ≠ [])
      (hcreate : files.create path (Report.render (shown o a)).toUTF8 = .ok made)

variable {files files' : Files.Tree} {o : Options} {a : Analysis}

/-! ### What is found -/

/-- A file with a text in it is found to have the analysis of the text. -/
theorem finds_of_text (text : String) (hread : files.read o.file = .ok text.toUTF8)
    (hne : text ≠ "") (ha : (Analysis.ofText text).toOption = some a) : Finds files o a :=
  ⟨text.toUTF8, text, hread, fromUTF8?_eq_some_iff.mpr rfl, hne, Fault.eq_ok_of_toOption ha⟩

/-- Any text that is not empty has an analysis, or its analysis faults. -/
theorem exists_finds {content : ByteArray} {text : String}
    (hread : files.read o.file = .ok content) (htext : String.fromUTF8? content = some text)
    (hne : text ≠ "") : (∃ a, Finds files o a) ∨ ∃ fault, Faults files o fault := by
  cases hanalysis : Analysis.ofText text with
  | ok a => exact .inl ⟨a, content, text, hread, htext, hne, hanalysis⟩
  | error fault => exact .inr ⟨fault, content, text, hread, htext, hne, hanalysis⟩

/-- **A text that is kept as a text** has an analysis, so only one that is cut inside a character
faults. -/
theorem Faults.cutSource {fault : Fault} (h : Faults files o fault) : CutSource files o := by
  obtain ⟨content, text, hread, htext, -, hfault⟩ := h
  obtain rfl := fromUTF8?_eq_some_iff.mp htext
  have hanalysis (s : Source) (hkept : s.text.toUTF8 = Source.kept text) : False := by
    obtain ⟨xs, hxs⟩ := exists_reads [] s.text.toList
    have hok := Source.analyze_of_reads hxs
    rw [Source.analyze, ← Analysis.runText_of_kept hkept, ← Analysis.ofText, hfault] at hok
    cases hok
  refine ⟨text.toUTF8, hread, ?_, ?_⟩
  · apply Nat.le_of_not_lt
    intro hlt
    exact hanalysis ⟨text, hlt⟩ (Source.kept_text ⟨text, hlt⟩).symm
  · intro hvalid
    obtain ⟨s, hs⟩ := Source.exists_of_isValidUTF8_kept hvalid
    exact hanalysis s hs

/-- There is one analysis of a source file. -/
theorem Finds.unique {a' : Analysis} (h : Finds files o a) (h' : Finds files o a') : a = a' := by
  obtain ⟨content, text, hread, htext, -, ha⟩ := h
  obtain ⟨content', text', hread', htext', -, ha'⟩ := h'
  obtain rfl : content = content' := Except.ok.inj (hread.symm.trans hread')
  obtain rfl : text = text' := Option.some.inj (htext.symm.trans htext')
  exact Except.ok.inj (ha.symm.trans ha')

/-! ### Each run has a course -/

theorem Finds.exists_course (h : Finds files o a) :
    ∃ out err files' st, Course files o out err files' st := by
  cases hreport : o.report with
  | none => exact ⟨_, _, _, _, .unreported h hreport⟩
  | some path =>
    by_cases hnone : shown o a = []
    · exact ⟨_, _, _, _, .noTokens h hreport hnone⟩
    · cases hcreate : files.create path (Report.render (shown o a)).toUTF8 with
      | error e => exact ⟨_, _, _, _, .unwritable h hreport hnone hcreate⟩
      | ok files' => exact ⟨_, _, _, _, .reported h hreport hnone hcreate⟩

/-- **Each run has a course**, unless it faults. -/
theorem exists_course (files : Files.Tree) (o : Options) :
    (∃ out err files' st, Course files o out err files' st) ∨ ∃ fault, Faults files o fault := by
  cases hread : files.read o.file with
  | error e => exact .inl ⟨_, _, _, _, .unreadable hread⟩
  | ok content =>
    cases htext : String.fromUTF8? content with
    | none => exact .inl ⟨_, _, _, _, .notUtf8 hread htext⟩
    | some text =>
      by_cases hempty : text = ""
      · exact .inl ⟨_, _, _, _, .empty hread (hempty ▸ htext)⟩
      · exact (exists_finds hread htext hempty).imp_left fun ⟨_, hfinds⟩ => hfinds.exists_course

/-! ### Each course follows a plan -/

theorem follows_fail (message : String) :
    (fail message).Follows files ⟨[], files, [], complaint message, .failure⟩ :=
  .complain .done

theorem follows_finish :
    (finish o a).Follows files ⟨summary (shown o a), files, [], [], status a⟩ :=
  .print .done

/-- A run does with a text that is found what the analysis of it says. -/
theorem Finds.follows (h : Finds files o a) {p : Script.Plan}
    (hpresent : (present o a).Follows files p) : (script o).Follows files p := by
  obtain ⟨content, text, hread, htext, hne, ha⟩ := h
  obtain ⟨⟨a', events⟩, hrun, ha⟩ := Fault.bind_eq_ok_iff.mp ha
  obtain rfl : a' = a := Fault.pure_eq_ok_iff.mp ha
  refine .read ?_
  rw [hread, loadText, htext]
  refine .log ?_
  show (analyze o text).Follows _ _
  rw [analyze, if_neg hne, hrun]
  exact .log hpresent

/-- **A course follows a plan.** Files change only for a report, and that is after all that is
printed of the analysis itself. -/
theorem Course.follows {out err : List String} {st : Status}
    (h : Course files o out err files' st) :
    (files' = files ∧ (script o).Follows files ⟨out, files, [], err, st⟩) ∨
      ∃ a rest, Finds files o a ∧ Reports files o a files' ∧ st = status a ∧
        out = body o a ++ rest ∧ (script o).Follows files ⟨body o a, files', rest, err, st⟩ := by
  cases h with
  | unreadable hread =>
    refine .inl ⟨rfl, .read ?_⟩
    rw [hread]
    exact .log (follows_fail _)
  | notUtf8 hread htext =>
    refine .inl ⟨rfl, .read ?_⟩
    rw [hread, loadText, htext]
    exact .log (follows_fail _)
  | empty hread htext =>
    refine .inl ⟨rfl, .read ?_⟩
    rw [hread, loadText, htext]
    exact .log (follows_fail _)
  | noTokens hfinds hreport hnone =>
    refine .inl ⟨rfl, hfinds.follows ?_⟩
    rw [present, hreport, hnone]
    exact (follows_fail _).print_last
  | unwritable hfinds hreport hsome hcreate =>
    refine .inl ⟨rfl, hfinds.follows ?_⟩
    simp only [present, hreport, List.isEmpty_iff, hsome, if_false]
    exact (Script.Follows.uncreated hcreate (follows_fail _)).print_last
  | reported hfinds hreport hsome hcreate =>
    refine .inr ⟨_, _, hfinds, ⟨hreport, hsome, hcreate⟩, rfl, rfl, hfinds.follows ?_⟩
    simp only [present, hreport, List.isEmpty_iff, hsome, if_false]
    exact (Script.Follows.create hcreate (.log (.print follows_finish))).print_last
  | unreported hfinds hreport =>
    refine .inl ⟨rfl, hfinds.follows ?_⟩
    rw [present, hreport]
    exact .print follows_finish

/-- **A course is what a run does.** -/
theorem Course.completes {out err : List String} {st : Status}
    (h : Course files o out err files' st) : (script o).Completes files out err files' st := by
  obtain ⟨rfl, hfollows⟩ | ⟨a, rest, -, -, -, rfl, hfollows⟩ := h.follows
  · have hcompletes := hfollows.completes
    rwa [List.append_nil] at hcompletes
  · exact hfollows.completes

/-- **A run that faults** does nothing before. -/
theorem Faults.play {fault : Fault} {w : World} (h : Faults w.files o fault) :
    ∃ events, (script o).play w = ({ w with events }, .faulted fault) := by
  obtain ⟨content, text, hread, htext, hne, hfault⟩ := h
  have hrun : Analysis.runText text = .error fault := by
    cases hrun : Analysis.runText text with
    | error fault' =>
      rw [Analysis.ofText, hrun] at hfault
      cases hfault
      rfl
    | ok r =>
      rw [Analysis.ofText, hrun] at hfault
      cases hfault
  refine ⟨w.events ++ [Event.loadedSource o.file content.size], ?_⟩
  rw [script, Script.play, hread, loadText, htext]
  show (Script.log _ (analyze o text)).play w = _
  rw [Script.play, analyze, if_neg hne, hrun]
  rfl

end Lexico.Run
