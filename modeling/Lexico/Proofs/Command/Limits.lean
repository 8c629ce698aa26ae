import Lexico.Proofs.Command.Effects

/-!
# Output that is cut off

If there is room for only so many bytes, a run whose output is longer prints the beginning of it
that fits, and ends there with the refusal. It does not complain. Its report is written if there is
room for all that comes before the report, and then it is written whole.
-/

namespace Lexico

namespace Run

variable {files files' made : Files.Tree} {o : Options} {a : Analysis}
  {out out' err err' : List String} {st st' : Status}

/-- The courses of a run leave the same files. -/
theorem Course.files_unique (h : Course files o out err files' st)
    (h' : Course files o out' err' made st') : files' = made := by
  obtain ⟨w, hplay, hfiles, -, -⟩ := h.completes.play_unlimited
  obtain ⟨w', hplay', hfiles', -, -⟩ := h'.completes.play_unlimited
  rw [hplay] at hplay'
  cases hplay'
  rw [← hfiles, hfiles']

/-- A report that can be written is written. -/
theorem Reports.eq_of_course (h : Reports files o a made) (hfinds : Finds files o a)
    (hcourse : Course files o out err files' st) : files' = made := by
  obtain ⟨hreport, hsome, hcreate⟩ := h
  exact hcourse.files_unique (.reported hfinds hreport hsome hcreate)

theorem not_reports_self (files : Files.Tree) (o : Options) (a : Analysis) :
    ¬ Reports files o a files := by
  intro ⟨_, _, hcreate⟩
  exact Files.Tree.create_ne_self hcreate

/-- **In any world**, the report is written just when there is one to write and room for all that
comes before it; else nothing changes. -/
theorem Course.reports_iff (h : Course files o out err files' st) (hfinds : Finds files o a)
    {w : World} (hfiles : w.files = files) :
    (Reports files o a ((script o).play w).1.files ↔
      (∃ made, Reports files o a made) ∧ w.out.Fits (body o a)) ∧
    (((script o).play w).1.files = files ∨ Reports files o a ((script o).play w).1.files) := by
  obtain ⟨made, events, hplay, -, hsteps⟩ := h.play hfiles
  rw [hplay]
  show (Reports files o a made ↔ _) ∧ (made = files ∨ Reports files o a made)
  obtain ⟨rfl, rfl⟩ | ⟨a', -, hfinds', hreports, -, rfl⟩ := hsteps
  · refine ⟨iff_of_false (not_reports_self _ o a) ?_, .inl rfl⟩
    -- The course leaves the files alone, and a report that could be written would change them.
    intro ⟨⟨made', hreports⟩, _⟩
    rw [← hreports.eq_of_course hfinds h] at hreports
    exact not_reports_self _ o a hreports
  · obtain rfl := hfinds.unique hfinds'
    by_cases hbody : w.out.Fits (body o a)
    · rw [if_pos hbody]
      exact ⟨iff_of_true hreports ⟨⟨_, hreports⟩, hbody⟩, .inr hreports⟩
    · rw [if_neg hbody]
      exact ⟨iff_of_false (not_reports_self _ o a) fun h => hbody h.2, .inl rfl⟩

end Run

open Run

/-- **Output that is cut off.** If there is room for all that a run prints, nothing shows that there
is a limit. If not, the run prints what fits, is refused, and does not complain; the report is
written just when there is one to write and all that comes before it has been printed, and it is
whole. Without a limit each run comes to its end, but for one with too long a source. -/
theorem run_limited (files : Files.Tree) (o : Options) (limit : Nat) :
    ∃ w result w' outcome, (script o).play (.unlimited files) = (w, result) ∧
      (script o).play (.limited files (some limit) none) = (w', outcome) ∧
      (w.out.accepted.size ≤ limit → outcome = result ∧
        w'.out.accepted = w.out.accepted ∧ w'.err.accepted = w.err.accepted ∧
        w'.files = w.files) ∧
      (limit < w.out.accepted.size → outcome = .refused .limitReached ∧
        w'.out.accepted = w.out.accepted.extract 0 limit ∧ w'.err.accepted = ByteArray.empty ∧
        ∃ a rest, Finds files o a ∧
          w.out.accepted = (String.join (body o a)).toUTF8 ++ rest ∧
          (Reports files o a w'.files ↔
            (∃ made, Reports files o a made) ∧ (String.join (body o a)).toUTF8.size ≤ limit) ∧
          (w'.files = files ∨ Reports files o a w'.files ∧ HoldsReport o a w'.files)) ∧
      match result with
      | .finished _ => True
      | .refused _ => False
      | .faulted _ => CutSource files o ∧ w.files = files ∧ w.out.accepted = ByteArray.empty ∧
          w.err.accepted = ByteArray.empty := by
  obtain ⟨out, err, files', st, hcourse⟩ | ⟨fault, hfaults⟩ := exists_course files o
  · obtain ⟨w, hplay, hfiles, hout, herr⟩ := hcourse.completes.play_unlimited
    obtain ⟨made, events, hplay', hmade, hsteps⟩ :=
      hcourse.play (w := .limited files (some limit) none) rfl
    refine ⟨w, _, _, _, hplay, hplay', ?_, ?_, trivial⟩
    · intro hsize
      rw [hout] at hsize
      have hfits : (World.limited files (some limit) none).out.Fits out :=
        Sink.fits_ofLimit_iff.mpr hsize
      have hfits' : (World.limited files (some limit) none).err.Fits err :=
        Sink.fits_of_endless rfl err
      rw [if_pos ⟨hfits, hfits'⟩, if_pos hfits, Sink.filledWith_of_fits hfits,
        Sink.filledWith_of_fits hfits', hmade hfits, hout, herr, hfiles]
      exact ⟨rfl, ByteArray.empty_append, ByteArray.empty_append, rfl⟩
    · intro hsize
      rw [hout] at hsize
      have hfits : ¬ (World.limited files (some limit) none).out.Fits out := by
        rw [World.limited, Sink.fits_ofLimit_iff]
        exact Nat.not_le_of_lt hsize
      -- A run without a source prints nothing, and there is room for that.
      obtain ⟨-, rfl⟩ | ⟨a, rest, hfinds, rfl, -⟩ := hcourse.found
      · exact absurd (Sink.fits_nil _) hfits
      rw [if_neg fun h => hfits h.1, if_neg hfits, hout]
      refine ⟨rfl, Sink.accepted_filledWith_ofLimit .., rfl, a, (String.join rest).toUTF8, hfinds,
        ?_, ?_⟩
      · rw [String.join_append]
        exact String.toByteArray_append
      · have hreports := hcourse.reports_iff hfinds (w := .limited files (some limit) none) rfl
        rw [hplay'] at hreports
        refine ⟨hreports.1.trans (and_congr_right fun _ => Sink.fits_ofLimit_iff), ?_⟩
        exact hreports.2.imp_right fun h => ⟨h, h.holdsReport⟩
  · obtain ⟨events, hplay⟩ := Faults.play (w := .unlimited files) hfaults
    obtain ⟨events', hplay'⟩ := Faults.play (w := .limited files (some limit) none) hfaults
    refine ⟨_, _, _, _, hplay, hplay', ?_, ?_, hfaults.cutSource, rfl, rfl, rfl⟩
    · exact fun _ => ⟨rfl, rfl, rfl, rfl⟩
    · -- nothing is printed, so no limit is below that
      exact fun hsize => absurd hsize (Nat.not_lt_zero limit)

/-- Where there is a byte too little room for what comes before the report, where there is just
enough for that, and where there is just enough for all that is printed. -/
theorem run_limited_borders :
    let files : Files.Tree := {
      nodes := [(["w", "a"], .file "x".toUTF8), (["w"], .directory)]
      workingDirectory := ["w"] }
    let o : Options := ⟨"a", false, false, some "r"⟩
    let a : Analysis := ⟨[⟨.identifier, "x", ⟨1, 1⟩⟩], []⟩
    Finds files o a ∧
    (∃ w, (script o).play (.limited files (some 126) none) = (w, .refused .limitReached) ∧
      w.files = files) ∧
    (∃ w, (script o).play (.limited files (some 127) none) = (w, .refused .limitReached) ∧
      HoldsReport o a w.files) ∧
    (∃ w, (script o).play (.limited files (some 183) none) = (w, .finished .success) ∧
      HoldsReport o a w.files) := by
  intro files o a
  have hread : files.read "a" = .ok "x".toUTF8 := Fault.eq_ok_of_toOption (by decide +kernel)
  have hfinds : Finds files o a := finds_of_text "x" hread (by decide) (by decide +kernel)
  have hleads : files.LeadsTo "r" ["w", "r"] :=
    ⟨["w"], "r", Fault.eq_ok_of_toOption (by decide +kernel), by decide, rfl⟩
  have hcreate (content : ByteArray) :
      files.create "r" content = .ok (files.put ["w", "r"] (.file content)) :=
    Files.Tree.create_eq_ok_iff.mpr ⟨rfl, _, hleads, nofun, rfl⟩
  have hreports := Reports.intro rfl (by decide) (hcreate (Report.render (shown o a)).toUTF8)
  have hcourse := Course.reported hfinds rfl (by decide) (hcreate _)
  obtain ⟨w, hplay, hfiles, hout, -⟩ := hcourse.completes.play_unlimited
  have hsize : w.out.accepted.size = 183 := by
    rw [hout]
    decide +kernel
  have hbody : (String.join (body o a)).toUTF8.size = 127 := by decide +kernel
  refine ⟨hfinds, ?_, ?_, ?_⟩
  · obtain ⟨_, st, w', outcome, hplay', hlimited, -, hcut, -⟩ := run_limited files o 126
    cases hplay.symm.trans hplay'
    obtain ⟨rfl, -, -, a', rest, hfinds', -, hiff, hchange⟩ := hcut (by omega)
    obtain rfl := hfinds.unique hfinds'
    have hroom : ¬ (String.join (body o a)).toUTF8.size ≤ 126 := by omega
    exact ⟨w', hlimited, hchange.resolve_right fun h => hroom (hiff.mp h.1).2⟩
  · obtain ⟨_, st, w', outcome, hplay', hlimited, -, hcut, -⟩ := run_limited files o 127
    cases hplay.symm.trans hplay'
    obtain ⟨rfl, -, -, a', rest, hfinds', -, hiff, -⟩ := hcut (by omega)
    obtain rfl := hfinds.unique hfinds'
    exact ⟨w', hlimited, (hiff.mpr ⟨⟨_, hreports⟩, hbody.le⟩).holdsReport⟩
  · obtain ⟨_, st, w', outcome, hplay', hlimited, hwhole, -⟩ := run_limited files o 183
    cases hplay.symm.trans hplay'
    obtain ⟨rfl, -, -, hfiles'⟩ := hwhole hsize.le
    refine ⟨w', hlimited, ?_⟩
    rw [hfiles', hfiles]
    exact hreports.holdsReport

end Lexico
