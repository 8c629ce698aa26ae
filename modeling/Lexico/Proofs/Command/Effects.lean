import Lexico.Proofs.Command.Status
import Lexico.Proofs.Files.Tree

/-!
# The files of a run

A run changes its report and nothing else, and it never leaves part of a report: the file is as it
was, or it holds the report on the very tokens of the table. This holds wherever the output of the
run is cut off, and also where the report takes the place of the source.
-/

namespace Lexico

namespace Run

variable {files files' made : Files.Tree} {o : Options} {a : Analysis} {out err : List String}
  {st : Status}

/-! ### Reports -/

/-- All files are as they were, but for the one at the path of the report. -/
structure ChangesReportOnly (files : Files.Tree) (o : Options) (files' : Files.Tree) : Prop where
  node?_eq : ∀ place, (∀ path ∈ o.report, ¬ files.LeadsTo path place) →
    files'.node? place = files.node? place
  read_iff : ∀ other, (∀ path ∈ o.report, ∀ place, files.LeadsTo other place →
      ¬ files.LeadsTo path place) →
    ∀ content, files'.read other = .ok content ↔ files.read other = .ok content

/-- The file at the path of the report holds the whole report. -/
def HoldsReport (o : Options) (a : Analysis) (files : Files.Tree) : Prop :=
  ∃ path, o.report = some path ∧ files.Holds path (Report.render (shown o a)).toUTF8

theorem changesReportOnly_refl (files : Files.Tree) (o : Options) :
    ChangesReportOnly files o files :=
  ⟨fun _ _ => rfl, fun _ _ _ => Iff.rfl⟩

theorem Reports.changesReportOnly (h : Reports files o a made) :
    ChangesReportOnly files o made := by
  obtain ⟨hreport, -, hcreate⟩ := h
  constructor
  · intro place hne
    exact Files.Tree.node?_create_of_ne hcreate (hne _ hreport)
  · intro other hne content
    exact Files.Tree.read_create_of_ne hcreate (hne _ hreport)

theorem Reports.holdsReport (h : Reports files o a made) : HoldsReport o a made := by
  obtain ⟨hreport, -, hcreate⟩ := h
  exact ⟨_, hreport, Files.Tree.holds_create_self hcreate⟩

/-! ### Courses where writes may be refused -/

/-- **A course in any world** prints what there is room for and complains when all is printed. The
files change for a report alone, as soon as all before it is printed. -/
theorem Course.play (h : Course files o out err files' st) {w : World} (hfiles : w.files = files) :
    ∃ made events, (script o).play w =
        (⟨made, w.out.filledWith out, if w.out.Fits out then w.err.filledWith err else w.err,
          events⟩,
        if w.out.Fits out ∧ w.err.Fits err then .finished st else .refused .limitReached) ∧
      (w.out.Fits out → made = files') ∧
      ((files' = files ∧ made = files) ∨
        ∃ a rest, Finds files o a ∧ Reports files o a files' ∧ out = body o a ++ rest ∧
          made = if w.out.Fits (body o a) then files' else files) := by
  obtain ⟨rfl, hfollows⟩ | ⟨a, rest, hfinds, hreports, -, rfl, hfollows⟩ := h.follows
  · obtain ⟨events, hplay⟩ := hfollows.play hfiles
    rw [List.append_nil, ite_self] at hplay
    exact ⟨_, events, hplay, fun _ => rfl, .inl ⟨rfl, rfl⟩⟩
  · obtain ⟨events, hplay⟩ := hfollows.play hfiles
    refine ⟨_, events, hplay, ?_, .inr ⟨a, rest, hfinds, hreports, rfl, rfl⟩⟩
    intro hfits
    exact if_pos (Sink.fits_append.mp hfits).1

theorem Course.files_of_failure (h : Course files o out err files' st) (hst : st = .failure) :
    files' = files := by
  cases h with
  | unreadable | notUtf8 | empty | noTokens | unwritable | unreported => rfl
  | @reported a => exact absurd hst (status_ne_failure a)

/-- A run that does its work prints the table first and the number of its rows last. -/
theorem Course.succeeds (h : Course files o out err files' st) (hst : st ≠ .failure) :
    ∃ a middle, Finds files o a ∧
      out = Table.lines (shown o a) ++ middle ++
        [s!"Analysis complete: {(shown o a).length} tokens found\n"] ∧
      (o.report = none ∨ Reports files o a files') := by
  cases h with
  | unreadable | notUtf8 | empty | noTokens | unwritable => exact absurd rfl hst
  | @reported a path _ hfinds hreport hsome hcreate =>
    refine ⟨a, errorLines a ++ statsLines o (shown o a) ++ written path ++ ["\n"], hfinds, ?_,
      .inr ⟨hreport, hsome, hcreate⟩⟩
    simp only [body, summary, List.append_assoc, List.cons_append, List.nil_append]
  | @unreported a hfinds hreport =>
    refine ⟨a, errorLines a ++ statsLines o (shown o a) ++ ["\n"], hfinds, ?_, .inl hreport⟩
    simp only [body, summary, List.append_assoc, List.cons_append, List.nil_append]

end Run

open Run

/-- **The files of a run**, whatever room there is for its output: nothing but the report changes. A
run that fails changes nothing. One that does its work leaves the report on the tokens of the table,
and prints their number last. One that is cut off leaves that report or changes nothing. One that is
kept from its end by a source with more bytes than a text may have does nothing at all. -/
theorem run_files (files : Files.Tree) (o : Options) (outLimit errLimit : Option Nat) :
    ∃ w outcome, (script o).play (.limited files outLimit errLimit) = (w, outcome) ∧
      ChangesReportOnly files o w.files ∧
      match outcome with
      | .finished .failure => w.files = files
      | .finished _ => ∃ a middle, Finds files o a ∧
          w.out.accepted = (String.join (Table.lines (shown o a) ++ middle ++
            [s!"Analysis complete: {(shown o a).length} tokens found\n"])).toUTF8 ∧
          (o.report = none ∨ HoldsReport o a w.files)
      | .refused _ => w.files = files ∨ ∃ a, Finds files o a ∧ HoldsReport o a w.files
      | .faulted _ => CutSource files o ∧ w.files = files ∧ w.out.accepted = ByteArray.empty ∧
          w.err.accepted = ByteArray.empty := by
  obtain ⟨out, err, files', st, hcourse⟩ | ⟨fault, hfaults⟩ := exists_course files o
  · obtain ⟨made, events, hplay, hmade, hsteps⟩ :=
      hcourse.play (w := .limited files outLimit errLimit) rfl
    have hwhole : made = files ∨ ∃ a, Finds files o a ∧ Reports files o a made := by
      obtain ⟨-, rfl⟩ | ⟨a, rest, hfinds, hreports, -, rfl⟩ := hsteps
      · exact .inl rfl
      · split
        · exact .inr ⟨a, hfinds, hreports⟩
        · exact .inl rfl
    refine ⟨_, _, hplay, ?_, ?_⟩
    · obtain rfl | ⟨a, -, hreports⟩ := hwhole
      · exact changesReportOnly_refl made o
      · exact hreports.changesReportOnly
    by_cases hfits : (World.limited files outLimit errLimit).out.Fits out ∧
        (World.limited files outLimit errLimit).err.Fits err
    · simp only [if_pos hfits]
      by_cases hst : st = .failure
      · rw [hst]
        exact (hmade hfits.1).trans (hcourse.files_of_failure hst)
      · obtain ⟨a, middle, hfinds, rfl, hreport⟩ := hcourse.succeeds hst
        rw [Sink.filledWith_of_fits hfits.1, hmade hfits.1]
        cases st with
        | failure => exact absurd rfl hst
        | success | lexicalErrors =>
          exact ⟨a, middle, hfinds, ByteArray.empty_append, hreport.imp_right Reports.holdsReport⟩
    · simp only [if_neg hfits]
      exact hwhole.imp_right fun ⟨a, hfinds, hreports⟩ => ⟨a, hfinds, hreports.holdsReport⟩
  · obtain ⟨events, hplay⟩ := Faults.play (w := .limited files outLimit errLimit) hfaults
    exact ⟨_, _, hplay, changesReportOnly_refl files o, hfaults.cutSource, rfl, rfl, rfl⟩

end Lexico
