import Lexico.Token.Kind
import Mathlib.Data.List.Nodup

/-!
# Names of kinds

The names that people read differ from kind to kind, and each fits a column of thirty characters: it
has no line feed, and no space at its end.
-/

namespace Lexico.Kind

/-- A name stays whole in its column. -/
theorem displayName_fits (k : Kind) : k.displayName.toList.length ≤ 30 ∧
    '\n' ∉ k.displayName.toList ∧ k.displayName.toList.getLast? ≠ some ' ' := by
  have hall : ∀ cs ∈ all.map fun k => k.displayName.toList,
      cs.length ≤ 30 ∧ '\n' ∉ cs ∧ cs.getLast? ≠ some ' ' := by
    decide +kernel
  exact hall _ (List.mem_map_of_mem (mem_all k))

/-- No two kinds have the same name. -/
theorem displayName_inj {k l : Kind} (h : k.displayName.toList = l.displayName.toList) : k = l := by
  have hnodup : (all.map fun k => k.displayName.toList).Nodup := by decide +kernel
  exact List.inj_on_of_nodup_map hnodup (mem_all k) (mem_all l) h

end Lexico.Kind
