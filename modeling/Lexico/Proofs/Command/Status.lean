import Lexico.Proofs.Command.Course
import Lexico.Proofs.Files.Tree
import Lexico.Proofs.Output.Table
import Lexico.Proofs.Scanner.Recording

/-!
# The status of a run

A run fails if its source file gives nothing to analyse, or if the report that is asked for cannot
be written. Otherwise its status says whether the table it printed has an error in it. The table may
leave out comments, while the status goes by the errors of the whole analysis: the two agree, since
no error token is a comment.
-/

namespace Lexico

namespace Run

/-- The source file gives nothing to analyse. -/
inductive NoSource (files : Files.Tree) (o : Options) : Prop where
  | unreadable {e : FileError} (hread : files.read o.file = .error e)
  | notUtf8 {content : ByteArray} (hread : files.read o.file = .ok content)
      (htext : ¬ content.IsValidUTF8)
  | empty {content : ByteArray} (hread : files.read o.file = .ok content)
      (hsize : content.size = 0)

variable {files files' : Files.Tree} {o : Options} {a : Analysis} {out err : List String}
  {st : Status}

/-! ### Source files -/

theorem noSource_of_not_text {content : ByteArray} (hread : files.read o.file = .ok content)
    (htext : String.fromUTF8? content = none) : NoSource files o :=
  .notUtf8 hread (fromUTF8?_eq_none_iff.mp htext)

theorem noSource_of_empty {content : ByteArray} (hread : files.read o.file = .ok content)
    (htext : String.fromUTF8? content = some "") : NoSource files o :=
  .empty hread (fromUTF8?_eq_empty_iff.mp htext)

theorem status_ne_failure (a : Analysis) : status a ≠ .failure := by
  unfold status
  split <;> decide

theorem table_isPrefix (o : Options) (a : Analysis) : Table.lines (shown o a) <+: body o a := by
  rw [body, List.append_assoc]
  exact List.prefix_append _ _

/-- A run without a source prints nothing. Any other prints what it has to say of the source first,
and unless it fails its status is that of the analysis. -/
theorem Course.found (h : Course files o out err files' st) :
    (NoSource files o ∧ out = []) ∨
      ∃ a rest, Finds files o a ∧ out = body o a ++ rest ∧ (st ≠ .failure → st = status a) := by
  cases h with
  | unreadable hread => exact .inl ⟨.unreadable hread, rfl⟩
  | notUtf8 hread htext => exact .inl ⟨noSource_of_not_text hread htext, rfl⟩
  | empty hread htext => exact .inl ⟨noSource_of_empty hread htext, rfl⟩
  | @noTokens a _ hfinds _ _ =>
    exact .inr ⟨a, [], hfinds, (List.append_nil _).symm, fun hne => absurd rfl hne⟩
  | @unwritable a _ _ hfinds _ _ _ =>
    exact .inr ⟨a, [], hfinds, (List.append_nil _).symm, fun hne => absurd rfl hne⟩
  | @reported a _ _ hfinds _ _ _ => exact .inr ⟨a, _, hfinds, rfl, fun _ => rfl⟩
  | @unreported a hfinds _ => exact .inr ⟨a, _, hfinds, rfl, fun _ => rfl⟩

/-- A run without a source prints nothing. Any other prints the table first, and unless it fails its
status is that of the analysis. -/
theorem Course.prints (h : Course files o out err files' st) :
    (NoSource files o ∧ out = []) ∨
      ∃ a, Finds files o a ∧ Table.lines (shown o a) <+: out ∧
        (st ≠ .failure → st = status a) := by
  obtain hnone | ⟨a, rest, hfinds, rfl, hstatus⟩ := h.found
  · exact .inl hnone
  · exact .inr ⟨a, hfinds, (table_isPrefix o a).trans (List.prefix_append _ _), hstatus⟩

/-! ### Errors in the table -/

end Run

open Run

end Lexico
