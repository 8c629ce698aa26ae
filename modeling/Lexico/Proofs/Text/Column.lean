import Lexico.Proofs.Segment.Shape
import Lexico.Text.Column
import Mathlib.Data.List.DropRight

/-!
# Columns read back

Padding leaves a text as it is but for the spaces at its end (`trimEnd_padRight`), and a number
behind a space can be told from what stands before the space (`append_number_inj`). So a row of
padded fields is read back from its end.
-/

namespace Lexico.Text

open Piece (StopsBefore)

/-- The text without the spaces at its end. -/
def trimEnd (cs : List Char) : List Char := cs.rdropWhile (· == ' ')

/-- Some spaces. -/
def spaces (n : Nat) : List Char := List.replicate n ' '

/-- The decimal digits of a number. -/
def digits (n : Nat) : List Char := Nat.toDigits 10 n

/-! ### Spaces at the end -/

theorem trimEnd_append_spaces (cs : List Char) (n : Nat) :
    trimEnd (cs ++ spaces n) = trimEnd cs := by
  induction n with
  | zero => rw [spaces, List.replicate_zero, List.append_nil]
  | succ n ih =>
    rw [spaces, List.replicate_succ', ← List.append_assoc, trimEnd,
      List.rdropWhile_concat_pos _ _ _ rfl]
    exact ih

theorem trimEnd_of_last {cs : List Char} (h : cs.getLast? ≠ some ' ') : trimEnd cs = cs := by
  rw [trimEnd, List.rdropWhile_eq_self_iff]
  intro hne hlast
  apply h
  rw [List.getLast?_eq_some_getLast hne, beq_iff_eq.mp hlast]

theorem last_trimEnd (cs : List Char) : (trimEnd cs).getLast? ≠ some ' ' := by
  intro hlast
  obtain ⟨hne, hspace⟩ := List.mem_getLast?_eq_getLast hlast
  exact List.rdropWhile_last_not (· == ' ') cs hne (beq_iff_eq.mpr hspace.symm)

/-- What is taken off are spaces. -/
theorem exists_spaces (cs : List Char) : ∃ n, cs = trimEnd cs ++ spaces n := by
  induction cs using List.reverseRecOn with
  | nil => exact ⟨0, rfl⟩
  | append_singleton cs c ih =>
    by_cases hc : c = ' '
    · subst hc
      obtain ⟨n, hn⟩ := ih
      refine ⟨n + 1, ?_⟩
      rw [trimEnd, List.rdropWhile_concat_pos _ _ _ rfl, spaces, List.replicate_succ',
        ← List.append_assoc]
      exact congrArg (· ++ [' ']) hn
    · refine ⟨0, ?_⟩
      rw [trimEnd, List.rdropWhile_concat_neg _ _ _ (by simpa using hc)]
      exact (List.append_nil _).symm

theorem toList_padRight (width : Nat) (text : String) :
    (padRight width text).toList = text.toList ++ spaces (width - text.length) := by
  rw [padRight, String.toList_append, String.toList_ofList, spaces]

/-- Padding is taken off with the spaces at the end. -/
theorem trimEnd_padRight (width : Nat) (text : String) :
    trimEnd (padRight width text).toList = trimEnd text.toList := by
  rw [toList_padRight, trimEnd_append_spaces]

/-- Padding adds spaces only. -/
theorem count_padRight {c : Char} (hc : c ≠ ' ') (width : Nat) (text : String) :
    (padRight width text).toList.count c = text.toList.count c := by
  rw [toList_padRight, List.count_append, spaces, List.count_replicate, if_neg, Nat.add_zero]
  simpa using Ne.symm hc

theorem lineFeed_mem_padRight {width : Nat} {text : String} :
    '\n' ∈ (padRight width text).toList ↔ '\n' ∈ text.toList := by
  rw [← List.count_pos_iff, ← List.count_pos_iff, count_padRight (by decide)]

/-! ### Numbers -/

theorem toList_toString (n : Nat) : (toString n).toList = digits n := by
  rw [Nat.toString_eq_ofList_toDigits, String.toList_ofList, digits]

theorem isDigit_of_mem_digits {n : Nat} : ∀ c ∈ digits n, c.isDigit = true :=
  fun _ hc => Nat.isDigit_of_mem_toDigits (by decide) (by decide) hc

theorem digits_inj {m n : Nat} (h : digits m = digits n) : m = n :=
  calc
    m = Nat.ofDigitChars 10 (digits m) 0 := Nat.ofDigitChars_ten_toDigits.symm
    _ = Nat.ofDigitChars 10 (digits n) 0 := by rw [h]
    _ = n := Nat.ofDigitChars_ten_toDigits

theorem lineFeed_not_mem_digits (n : Nat) : '\n' ∉ digits n := by
  intro hmem
  cases isDigit_of_mem_digits _ hmem

/-- A number does not end with a space. -/
theorem trimEnd_append_digits (x : List Char) (n : Nat) :
    trimEnd (x ++ ' ' :: digits n) = x ++ ' ' :: digits n := by
  apply trimEnd_of_last
  rw [digits, List.append_cons, List.getLast?_append_of_ne_nil _ Nat.toDigits_ne_nil]
  intro hlast
  cases isDigit_of_mem_digits _ (List.mem_of_getLast? hlast)

/-- **A number at the end**, behind a space, can be told from what stands before it. -/
theorem append_number_inj {x y : List Char} {m n : Nat}
    (h : x ++ ' ' :: digits m = y ++ ' ' :: digits n) : x = y ∧ m = n := by
  have hstop (z : List Char) : StopsBefore Char.isDigit (' ' :: z) := Piece.stopsBefore_cons rfl z
  have hdigits (k : Nat) : ∀ c ∈ (digits k).reverse, c.isDigit = true :=
    fun c hc => isDigit_of_mem_digits c (List.mem_reverse.mp hc)
  -- Read backwards, the digits are a run and the space stops it.
  have hreverse := congrArg List.reverse h
  simp only [List.reverse_append, List.reverse_cons, List.append_assoc, List.singleton_append]
    at hreverse
  obtain ⟨hnumber, hfront⟩ := Piece.run_append_inj (hdigits m) (hdigits n) (hstop _) (hstop _)
    hreverse
  exact ⟨List.reverse_inj.mp (List.cons.inj hfront).2, digits_inj (List.reverse_inj.mp hnumber)⟩

end Lexico.Text
