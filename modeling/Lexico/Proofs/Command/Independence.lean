import Lexico.Proofs.Command.Status

/-!
# Options that do not interfere

Each option adds its part to what a run prints, or leaves it out, and nothing else depends on it. So
if two runs differ in one option, a course of the one is a course of the other but for that part:
`Course.with_stats`, `Course.without_comments`, `Course.without_report`.
-/

namespace Lexico

namespace Run

variable {files files' : Files.Tree} {o o' : Options} {out out' err : List String} {st : Status}

/-- Two runs from the same files, neither of whose writes is refused, end alike: with one outcome,
the same complaints and the same files. What they print is related as said; only if the source is
too long they may both come to no end, and then they print nothing. -/
def Agree (files : Files.Tree) (o o' : Options) (Printed : ByteArray → ByteArray → Prop) : Prop :=
  ∃ w w' outcome, (script o).play (.unlimited files) = (w, outcome) ∧
    (script o').play (.unlimited files) = (w', outcome) ∧
    w.err.accepted = w'.err.accepted ∧ w.files = w'.files ∧
    match outcome with
    | .finished _ => Printed w.out.accepted w'.out.accepted
    | .refused _ => False
    | .faulted _ => CutSource files o ∧ w.out.accepted = ByteArray.empty ∧
        w'.out.accepted = ByteArray.empty

/-- All that is printed of an analysis by a run that shows some of its tokens and reports none. -/
def printed (o : Options) (a : Analysis) (tokens : List Token) : List String :=
  Table.lines tokens ++ errorLines a ++ statsLines o tokens ++ summary tokens

/-- What holds of two courses that end alike holds of the runs. -/
theorem Course.agree {Printed : ByteArray → ByteArray → Prop}
    (h : Course files o out err files' st) (h' : Course files o' out' err files' st)
    (hprinted : Printed (String.join out).toUTF8 (String.join out').toUTF8) :
    Agree files o o' Printed := by
  obtain ⟨w, hplay, hfiles, hout, herr⟩ := h.completes.play_unlimited
  obtain ⟨w', hplay', hfiles', hout', herr'⟩ := h'.completes.play_unlimited
  refine ⟨w, w', _, hplay, hplay', herr.trans herr'.symm, hfiles.trans hfiles'.symm, ?_⟩
  show Printed w.out.accepted w'.out.accepted
  rwa [hout, hout']

/-- The source alone decides whether a run faults. -/
theorem Faults.agree {Printed : ByteArray → ByteArray → Prop} {fault : Fault}
    (h : Faults files o fault) (hfile : o'.file = o.file) : Agree files o o' Printed := by
  have h' : Faults files o' fault := by
    rw [Faults, hfile]
    exact h
  obtain ⟨events, hplay⟩ := Faults.play (w := .unlimited files) h
  obtain ⟨events', hplay'⟩ := Faults.play (w := .unlimited files) h'
  exact ⟨_, _, _, hplay, hplay', rfl, rfl, h.cutSource, rfl, rfl⟩

/-! ### One option at a time -/

/-- **Statistics** stand between all else that is printed, and change nothing of it. -/
theorem Course.with_stats (h : Course files { o with stats := false } out err files' st) :
    ∃ out', Course files { o with stats := true } out' err files' st ∧
      ((NoSource files o ∧ out = [] ∧ out' = []) ∨
        ∃ a after, Finds files o a ∧ out = Table.lines (shown o a) ++ errorLines a ++ after ∧
          out' = Table.lines (shown o a) ++ errorLines a ++
            ("\n" :: (Statistics.ofTokens (shown o a)).lines) ++ after) := by
  have hbody (a : Analysis) :
      body { o with stats := false } a = Table.lines (shown o a) ++ errorLines a :=
    List.append_nil _
  have hnil (lines : List String) : lines = lines ++ [] := (List.append_nil _).symm
  cases h with
  | unreadable hread => exact ⟨_, .unreadable hread, .inl ⟨.unreadable hread, rfl, rfl⟩⟩
  | notUtf8 hread htext =>
    exact ⟨_, .notUtf8 hread htext, .inl ⟨noSource_of_not_text hread htext, rfl, rfl⟩⟩
  | empty hread htext =>
    exact ⟨_, .empty hread htext, .inl ⟨noSource_of_empty hread htext, rfl, rfl⟩⟩
  | @noTokens a _ hfinds hreport hnone =>
    refine ⟨_, .noTokens hfinds hreport hnone, .inr ⟨a, [], hfinds, ?_, hnil _⟩⟩
    rw [hbody, List.append_nil]
  | @unwritable a _ _ hfinds hreport hsome hcreate =>
    refine ⟨_, .unwritable hfinds hreport hsome hcreate, .inr ⟨a, [], hfinds, ?_, hnil _⟩⟩
    rw [hbody, List.append_nil]
  | @reported a _ _ hfinds hreport hsome hcreate =>
    refine ⟨_, .reported hfinds hreport hsome hcreate, .inr ⟨a, _, hfinds, ?_, rfl⟩⟩
    rw [hbody]
    rfl
  | @unreported a hfinds hreport =>
    refine ⟨_, .unreported hfinds hreport, .inr ⟨a, _, hfinds, ?_, rfl⟩⟩
    rw [hbody]
    rfl

/-- **Comments** are left out, and the errors and the status stay. -/
theorem Course.without_comments
    (h : Course files { o with noComments := false, report := none } out err files' st) :
    ∃ out', Course files { o with noComments := true, report := none } out' err files' st ∧
      ((NoSource files o ∧ out = [] ∧ out' = []) ∨
        ∃ a, Finds files o a ∧ out = printed o a a.tokens ∧
          out' = printed o a (a.tokens.filter fun t => !t.kind.isComment)) := by
  cases h with
  | unreadable hread => exact ⟨_, .unreadable hread, .inl ⟨.unreadable hread, rfl, rfl⟩⟩
  | notUtf8 hread htext =>
    exact ⟨_, .notUtf8 hread htext, .inl ⟨noSource_of_not_text hread htext, rfl, rfl⟩⟩
  | empty hread htext =>
    exact ⟨_, .empty hread htext, .inl ⟨noSource_of_empty hread htext, rfl, rfl⟩⟩
  | noTokens _ hreport | unwritable _ hreport | reported _ hreport => cases hreport
  | @unreported a hfinds _ => exact ⟨_, .unreported hfinds rfl, .inr ⟨a, hfinds, rfl, rfl⟩⟩

/-- **A report** that is written is mentioned, and nothing else of it is seen. -/
theorem Course.without_report {path : String}
    (h : Course files { o with report := some path } out err files' st) (hst : st ≠ .failure) :
    ∃ a, Finds files o a ∧ out = body o a ++ written path ++ summary (shown o a) ∧
      Course files { o with report := none } (body o a ++ summary (shown o a)) err files st := by
  cases h with
  | unreadable | notUtf8 | empty | noTokens | unwritable => exact absurd rfl hst
  | @reported a _ _ hfinds hreport _ _ =>
    cases hreport
    exact ⟨a, hfinds, (List.append_assoc _ _ _).symm, .unreported hfinds rfl⟩
  | unreported _ hreport => cases hreport

end Run

open Run

/-- **Options do not interfere**, where no write is refused. Statistics are one block behind the
table and the errors. Without comments the table has the rows of the other tokens, and the errors
are the same. A run that writes its report prints two lines more than the run without. -/
theorem run_independent (files : Files.Tree) (o : Options) :
    Agree files { o with stats := false } { o with stats := true } (fun out out' =>
      (NoSource files o ∧ out = ByteArray.empty ∧ out' = ByteArray.empty) ∨
        ∃ a after, Finds files o a ∧
          out = (String.join (Table.lines (shown o a) ++ errorLines a ++ after)).toUTF8 ∧
          out' = (String.join (Table.lines (shown o a) ++ errorLines a ++
            ("\n" :: (Statistics.ofTokens (shown o a)).lines) ++ after)).toUTF8) ∧
    Agree files { o with noComments := false, report := none }
      { o with noComments := true, report := none } (fun out out' =>
        (NoSource files o ∧ out = ByteArray.empty ∧ out' = ByteArray.empty) ∨
          ∃ a, Finds files o a ∧ out = (String.join (printed o a a.tokens)).toUTF8 ∧
            out' = (String.join
              (printed o a (a.tokens.filter fun t => !t.kind.isComment))).toUTF8) ∧
    ∀ path w st,
      (script { o with report := some path }).play (.unlimited files) = (w, .finished st) →
      st ≠ .failure →
      ∃ w' a, (script { o with report := none }).play (.unlimited files) = (w', .finished st) ∧
        w.err.accepted = w'.err.accepted ∧ Finds files o a ∧
        w.out.accepted = (String.join (body o a ++
          ["\n", s!"Report written to {path}\n"] ++ summary (shown o a))).toUTF8 ∧
        w'.out.accepted = (String.join (body o a ++ summary (shown o a))).toUTF8 := by
  refine ⟨?_, ?_, ?_⟩
  · obtain ⟨out, err, files', st, hcourse⟩ | ⟨fault, hfaults⟩ :=
      exists_course files { o with stats := false }
    · obtain ⟨out', hcourse', hout⟩ := hcourse.with_stats
      apply hcourse.agree hcourse'
      obtain ⟨hnone, rfl, rfl⟩ | ⟨a, after, hfinds, rfl, rfl⟩ := hout
      · exact .inl ⟨hnone, rfl, rfl⟩
      · exact .inr ⟨a, after, hfinds, rfl, rfl⟩
    · exact hfaults.agree rfl
  · obtain ⟨out, err, files', st, hcourse⟩ | ⟨fault, hfaults⟩ :=
      exists_course files { o with noComments := false, report := none }
    · obtain ⟨out', hcourse', hout⟩ := hcourse.without_comments
      apply hcourse.agree hcourse'
      obtain ⟨hnone, rfl, rfl⟩ | ⟨a, hfinds, rfl, rfl⟩ := hout
      · exact .inl ⟨hnone, rfl, rfl⟩
      · exact .inr ⟨a, hfinds, rfl, rfl⟩
    · exact hfaults.agree rfl
  · intro path w st hplay hst
    obtain ⟨out, err, files', st', hcourse⟩ | ⟨fault, hfaults⟩ :=
      exists_course files { o with report := some path }
    · obtain ⟨w₁, hplay₁, -, hout, herr⟩ := hcourse.completes.play_unlimited
      cases hplay.symm.trans hplay₁
      obtain ⟨a, hfinds, rfl, hcourse'⟩ := hcourse.without_report hst
      obtain ⟨w', hplay', -, hout', herr'⟩ := hcourse'.completes.play_unlimited
      exact ⟨w', a, hplay', herr.trans herr'.symm, hfinds, hout, hout'⟩
    · obtain ⟨events, hplay₁⟩ := Faults.play (w := .unlimited files) hfaults
      cases hplay.symm.trans hplay₁

/-- A run that finds an error and a comment, with and without a report on the error. -/
theorem run_independent_report :
    let files : Files.Tree := {
      nodes := [(["w", "a"], .file "@//".toUTF8), (["w"], .directory)]
      workingDirectory := ["w"] }
    let o : Options := ⟨"a", true, false, none⟩
    ∃ w w',
      (script { o with report := some "r" }).play (.unlimited files) =
        (w, .finished .lexicalErrors) ∧
      (script o).play (.unlimited files) = (w', .finished .lexicalErrors) ∧
      w.err.accepted = w'.err.accepted ∧ w.out.accepted ≠ w'.out.accepted := by
  intro files o
  let reporting : Options := { o with report := some "r" }
  have hread : files.read "a" = .ok "@//".toUTF8 := Fault.eq_ok_of_toOption (by decide +kernel)
  have hfinds : Finds files reporting ⟨[⟨.error, "@", ⟨1, 1⟩⟩, ⟨.lineComment, "//", ⟨1, 2⟩⟩],
      [⟨.unrecognizedChar '@', ⟨1, 1⟩⟩]⟩ :=
    finds_of_text "@//" hread (by decide) (by decide +kernel)
  have hleads : files.LeadsTo "r" ["w", "r"] :=
    ⟨["w"], "r", Fault.eq_ok_of_toOption (by decide +kernel), by decide, rfl⟩
  have hcreate (content : ByteArray) :
      files.create "r" content = .ok (files.put ["w", "r"] (.file content)) :=
    Files.Tree.create_eq_ok_iff.mpr ⟨rfl, _, hleads, nofun, rfl⟩
  have hcourse := Course.reported hfinds rfl (by decide) (hcreate _)
  obtain ⟨w, hplay, -, -, -⟩ := hcourse.completes.play_unlimited
  obtain ⟨-, -, hreport⟩ := run_independent files o
  obtain ⟨w', a, hplay', herr, hfinds', hout, hout'⟩ := hreport "r" w _ hplay (by decide)
  refine ⟨w, w', hplay, hplay', herr, ?_⟩
  obtain rfl := hfinds.unique hfinds'
  rw [hout, hout']
  decide +kernel

end Lexico
