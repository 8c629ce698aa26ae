import Lexico.Token.Word

/-!
# The tables of words

A word is looked up among the words of its length alone. What is found there is what the two tables
say (`kind?_eq`): the words of a length are the words in the tables that have it.
-/

namespace Lexico.Word

theorem mem_reserved_of_mem_bucket {n : Nat} : ∀ w ∈ (bucket n).1, w ∈ reserved := by
  unfold bucket
  split <;> decide

theorem mem_booleans_of_mem_bucket {n : Nat} : ∀ w ∈ (bucket n).2, w ∈ booleans := by
  unfold bucket
  split <;> decide

/-- The reserved words are with the words of their lengths. -/
theorem mem_bucket_of_mem_reserved : ∀ w ∈ reserved, w ∈ (bucket w.utf8ByteSize).1 := by
  decide

theorem mem_bucket_of_mem_booleans : ∀ w ∈ booleans, w ∈ (bucket w.utf8ByteSize).2 := by
  decide

/-- No word is in both tables. -/
theorem not_mem_booleans : ∀ w ∈ reserved, w ∉ booleans := by
  decide

/-- **A word is looked up** in the one table, then in the other. -/
theorem kind?_eq (w : String) :
    kind? w = if w ∈ reserved then some .reservedWord
      else if w ∈ booleans then some .booleanLiteral else none := by
  have hwords : (bucket w.utf8ByteSize).1.contains w = decide (w ∈ reserved) := by
    rw [Bool.eq_iff_iff, List.contains_iff_mem, decide_eq_true_iff]
    exact ⟨mem_reserved_of_mem_bucket w, mem_bucket_of_mem_reserved w⟩
  have hliterals : (bucket w.utf8ByteSize).2.contains w = decide (w ∈ booleans) := by
    rw [Bool.eq_iff_iff, List.contains_iff_mem, decide_eq_true_iff]
    exact ⟨mem_booleans_of_mem_bucket w, mem_bucket_of_mem_booleans w⟩
  rw [kind?]
  simp only [hwords, hliterals, decide_eq_true_eq]

theorem kind?_eq_reservedWord_iff {w : String} :
    kind? w = some .reservedWord ↔ w ∈ reserved := by
  rw [kind?_eq]
  split
  · next hw => simp [hw]
  · next hw => split <;> simp [hw]

theorem kind?_eq_booleanLiteral_iff {w : String} :
    kind? w = some .booleanLiteral ↔ w ∈ booleans := by
  rw [kind?_eq]
  split
  · next hw => simp [not_mem_booleans w hw]
  · split
    · next hw => simp [hw]
    · next hw => simp [hw]

theorem kind?_eq_none_iff {w : String} : kind? w = none ↔ w ∉ reserved ∧ w ∉ booleans := by
  rw [kind?_eq]
  split
  · next hw => simp [hw]
  · next hw =>
    split
    · next hw' => simp [hw']
    · next hw' => simp [hw, hw']

theorem isReserved_iff {w : String} : isReserved w = true ↔ w ∈ reserved := by
  rw [isReserved, decide_eq_true_iff, kind?_eq_reservedWord_iff]

end Lexico.Word
