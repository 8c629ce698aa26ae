/-!
# Lines of a text

`lines` cuts a text behind each of its line feeds. Texts that each end with their only line feed are
the lines of what they make up together:

    lines_flatten : (∀ l ∈ ls, IsLine l) → lines ls.flatten = ls
-/

namespace Lexico.Text

/-- The lines of a text, each with the line feed that ends it. What is behind the last line feed is
a line unless it is empty. -/
def lines : List Char → List (List Char)
  | [] => []
  | c :: cs =>
    if c = '\n' then [c] :: lines cs
    else
      match lines cs with
      | [] => [[c]]
      | l :: ls => (c :: l) :: ls

/-- The text ends with a line feed and has no other. -/
def IsLine (l : List Char) : Prop := ∃ w, l = w ++ ['\n'] ∧ '\n' ∉ w

/-- A line at the front is the first one. -/
theorem lines_append {l : List Char} (h : IsLine l) (cs : List Char) :
    lines (l ++ cs) = l :: lines cs := by
  obtain ⟨w, rfl, hw⟩ := h
  induction w with
  | nil => rfl
  | cons c w ih =>
    rw [List.mem_cons, not_or] at hw
    rw [List.cons_append, List.cons_append, lines, if_neg (Ne.symm hw.1), ih hw.2]

/-- **Lines put together** come apart again. -/
theorem lines_flatten {ls : List (List Char)} (h : ∀ l ∈ ls, IsLine l) :
    lines ls.flatten = ls := by
  induction ls with
  | nil => rfl
  | cons l ls ih =>
    rw [List.flatten_cons, lines_append (h l List.mem_cons_self),
      ih fun l hl => h l (List.mem_cons_of_mem _ hl)]

theorem IsLine.count {l : List Char} (h : IsLine l) : l.count '\n' = 1 := by
  obtain ⟨w, rfl, hw⟩ := h
  rw [List.count_append, List.count_eq_zero.mpr hw]
  rfl

/-- There are as many line feeds as lines. -/
theorem count_flatten {ls : List (List Char)} (h : ∀ l ∈ ls, IsLine l) :
    ls.flatten.count '\n' = ls.length := by
  induction ls with
  | nil => rfl
  | cons l ls ih =>
    rw [List.flatten_cons, List.count_append, (h l List.mem_cons_self).count,
      ih fun l hl => h l (List.mem_cons_of_mem _ hl), List.length_cons, Nat.add_comm]

end Lexico.Text
