import Lexico.Source.Position

/-!
# Positions behind characters

Moving a position over two texts in a row is moving it over both at once (`advanceOver_append`),
also where a line or a column has stopped at the largest number. From the start of a text, a position
is the number of line feeds and the length of the last line (`after_eq`); a text that fits 32 bits
never reaches the largest number before its last character. So up to there positions are exact
(`counts_after`), and more text leads to a greater position (`compare_after_append`).
-/

namespace Lexico

/-! ### Sums that stop at the largest number -/

@[simp] theorem saturatingAdd_zero (a : UInt32) : saturatingAdd a 0 = a := by
  apply UInt32.toNat_inj.mp
  have := a.toNat_lt_size
  rw [toNat_saturatingAdd]
  omega

theorem saturatingAdd_add (a : UInt32) (m n : Nat) :
    saturatingAdd a (m + n) = saturatingAdd (saturatingAdd a m) n := by
  apply UInt32.toNat_inj.mp
  rw [toNat_saturatingAdd, toNat_saturatingAdd, toNat_saturatingAdd]
  omega

theorem toNat_saturatingAdd_of_lt {a : UInt32} {n : Nat} (h : a.toNat + n < UInt32.size) :
    (saturatingAdd a n).toNat = a.toNat + n := by
  rw [toNat_saturatingAdd]
  omega

namespace Position

/-! ### The last line -/

/-- Without a line feed, characters make the last line longer. -/
theorem lastLine_append_of_not_mem {u w : List Char} (h : '\n' ∉ w) :
    lastLine (u ++ w) = lastLine u ++ w := by
  have hall : ∀ c ∈ w.reverse, (c != '\n') = true := by
    intro c hc
    rw [bne_iff_ne]
    rintro rfl
    exact h (List.mem_reverse.mp hc)
  rw [lastLine, List.reverse_append, List.takeWhile_append_of_pos hall, List.reverse_append,
    List.reverse_reverse, lastLine]

/-- With a line feed, characters have the last line in them. -/
theorem lastLine_append_of_mem {u w : List Char} (h : '\n' ∈ w) :
    lastLine (u ++ w) = lastLine w := by
  have hstops : ¬ (w.reverse.takeWhile (· != '\n')).length = w.reverse.length := by
    intro hlen
    have hself := (List.takeWhile_prefix _).eq_of_length hlen
    have hmem : '\n' ∈ w.reverse.takeWhile (· != '\n') := by
      rw [hself]
      exact List.mem_reverse.mpr h
    have := List.all_eq_true.mp List.all_takeWhile _ hmem
    simp at this
  rw [lastLine, List.reverse_append, List.takeWhile_append, if_neg hstops, lastLine]

theorem lastLine_of_not_mem {w : List Char} (h : '\n' ∉ w) : lastLine w = w :=
  lastLine_append_of_not_mem (u := []) h

/-! ### Texts in a row -/

theorem line_advanceOver (p : Position) (text : String) :
    (p.advanceOver text).line = saturatingAdd p.line (text.toList.count '\n') := by
  rw [advanceOver]
  split
  · next hnone => rw [hnone, saturatingAdd_zero]
  · rfl

theorem column_advanceOver_of_not_mem {p : Position} {text : String} (h : '\n' ∉ text.toList) :
    (p.advanceOver text).column = saturatingAdd p.column text.toList.length := by
  rw [advanceOver, if_pos (List.count_eq_zero.mpr h)]

theorem column_advanceOver_of_mem {p : Position} {text : String} (h : '\n' ∈ text.toList) :
    (p.advanceOver text).column = saturatingAdd 1 (lastLine text.toList).length := by
  rw [advanceOver, if_neg]
  exact Nat.ne_of_gt (List.count_pos_iff.mpr h)

theorem eq_of_line_column {p q : Position} (hline : p.line = q.line)
    (hcolumn : p.column = q.column) : p = q := by
  cases p
  cases q
  cases hline
  cases hcolumn
  rfl

/-- **Two texts in a row** move a position as both at once do. -/
theorem advanceOver_append (p : Position) (a b : String) :
    p.advanceOver (a ++ b) = (p.advanceOver a).advanceOver b := by
  apply eq_of_line_column
  · rw [line_advanceOver, line_advanceOver, line_advanceOver, String.toList_append,
      List.count_append, saturatingAdd_add]
  · -- The column counts from the last line feed: in `b`, in `a`, or before both.
    by_cases hb : '\n' ∈ b.toList
    · have hab : '\n' ∈ (a ++ b).toList := by
        rw [String.toList_append]
        exact List.mem_append_right _ hb
      rw [column_advanceOver_of_mem hab, column_advanceOver_of_mem hb, String.toList_append,
        lastLine_append_of_mem hb]
    · by_cases ha : '\n' ∈ a.toList
      · have hab : '\n' ∈ (a ++ b).toList := by
          rw [String.toList_append]
          exact List.mem_append_left _ ha
        rw [column_advanceOver_of_mem hab, column_advanceOver_of_not_mem hb,
          column_advanceOver_of_mem ha, String.toList_append, lastLine_append_of_not_mem hb,
          List.length_append, saturatingAdd_add]
      · have hab : '\n' ∉ (a ++ b).toList := by
          rw [String.toList_append, List.mem_append, not_or]
          exact ⟨ha, hb⟩
        rw [column_advanceOver_of_not_mem hab, column_advanceOver_of_not_mem hb,
          column_advanceOver_of_not_mem ha, String.toList_append, List.length_append,
          saturatingAdd_add]

/-! ### From the start of a text -/

/-- The position behind the leading characters `u` of a text. -/
def after (u : List Char) : Position := start.advanceOver (String.ofList u)

@[simp] theorem after_nil : after [] = start := by decide

theorem advanceOver_after (u w : List Char) :
    (after u).advanceOver (String.ofList w) = after (u ++ w) := by
  rw [after, after, String.ofList_append, advanceOver_append]

/-- A position counts the line feeds, and the characters of the last line. -/
theorem after_eq (u : List Char) :
    after u = ⟨saturatingAdd 1 (u.count '\n'), saturatingAdd 1 (lastLine u).length⟩ := by
  apply eq_of_line_column
  · rw [after, line_advanceOver, String.toList_ofList]
    rfl
  · by_cases hu : '\n' ∈ u
    · rw [after, column_advanceOver_of_mem (by rwa [String.toList_ofList]), String.toList_ofList]
    · rw [after, column_advanceOver_of_not_mem (by rwa [String.toList_ofList]),
        String.toList_ofList, lastLine_of_not_mem hu]
      rfl

/-- Only the start of a text is at the first position. -/
theorem after_eq_start_iff {u : List Char} : after u = start ↔ u = [] := by
  constructor
  · intro h
    have hone {n : Nat} (hn : saturatingAdd 1 n = 1) : n = 0 := by
      have hmin := toNat_saturatingAdd 1 n
      rw [hn] at hmin
      have : (1 : UInt32).toNat = 1 := rfl
      have : UInt32.size = 2 ^ 32 := rfl
      omega
    rw [after_eq, start, Position.mk.injEq] at h
    have hlf : '\n' ∉ u := List.count_eq_zero.mp (hone h.1)
    rw [← lastLine_of_not_mem hlf]
    exact List.length_eq_zero_iff.mp (hone h.2)
  · rintro rfl
    exact after_nil

/-- Before the last character of a text that fits, lines are counted exactly. -/
theorem toNat_line_after {u : List Char} (h : u.length + 1 < UInt32.size) :
    (after u).line.toNat = 1 + u.count '\n' := by
  have hle : u.count '\n' ≤ u.length := List.count_le_length
  rw [after_eq, toNat_saturatingAdd_of_lt]
  · rfl
  · show 1 + _ < _
    omega

theorem count_eq_countP (u : List Char) : u.count '\n' = (u.map (· == '\n')).countP id := by
  rw [List.count, List.countP_map]
  rfl

theorem length_lastLine (u : List Char) :
    (lastLine u).length = ((u.map (· == '\n')).reverse.takeWhile (!·)).length := by
  rw [lastLine, List.length_reverse, ← List.map_reverse, List.takeWhile_map, List.length_map]
  rfl

/-- Only where the line feeds are counts for the position. -/
theorem after_congr {u v : List Char} (h : u.map (· == '\n') = v.map (· == '\n')) :
    after u = after v := by
  rw [after_eq, after_eq, count_eq_countP, count_eq_countP, length_lastLine, length_lastLine, h]

/-! ### Whole lines in front -/

/-- The position `q` is `n` lines below `p`, in the same column. -/
def Below (n : Nat) (p q : Position) : Prop :=
  q.line.toNat = p.line.toNat + n ∧ q.column = p.column

theorem lastLine_append_lineFeed (v u : List Char) : lastLine (v ++ '\n' :: u) = lastLine u := by
  by_cases hu : '\n' ∈ u
  · rw [show v ++ '\n' :: u = (v ++ ['\n']) ++ u by simp, lastLine_append_of_mem hu]
  · rw [lastLine_append_of_mem (List.mem_cons_self ..), ← List.singleton_append,
      lastLine_append_of_not_mem hu, lastLine_of_not_mem hu]
    rfl

/-- Lines put in front move a position down by their number. -/
theorem below_after {v u : List Char} (h : (v ++ '\n' :: u).length + 1 < UInt32.size) :
    Below (1 + v.count '\n') (after u) (after (v ++ '\n' :: u)) := by
  have hlen : u.length + 1 < UInt32.size := by
    rw [List.length_append, List.length_cons] at h
    omega
  refine ⟨?_, ?_⟩
  · rw [toNat_line_after h, toNat_line_after hlen, List.count_append, List.count_cons_self]
    omega
  · rw [after_eq, after_eq, lastLine_append_lineFeed]

/-! ### Counting without a bound -/

/-- The line and the column of `p` are those of the place behind the text `u`, counted without a
bound: lines by the line feeds in `u`, columns by the characters of `u` behind the last of them. -/
structure Counts (p : Position) (u : List Char) : Prop where
  line : p.line.toNat = 1 + u.count '\n'
  column : ∃ v w, u = v ++ w ∧ (v = [] ∨ v.getLast? = some '\n') ∧ '\n' ∉ w ∧
    p.column.toNat = 1 + w.length

/-- The last line starts behind a line feed, or where the text does, and has none in it. -/
theorem exists_append_lastLine (u : List Char) :
    ∃ v, u = v ++ lastLine u ∧ (v = [] ∨ v.getLast? = some '\n') ∧ '\n' ∉ lastLine u := by
  refine ⟨(u.reverse.dropWhile (· != '\n')).reverse, ?_, ?_, ?_⟩
  · rw [lastLine, ← List.reverse_append, List.takeWhile_append_dropWhile, List.reverse_reverse]
  · -- Read from the back, what is left behind the last line starts where the line stopped.
    have hstop := List.head?_dropWhile_not (· != '\n') u.reverse
    rw [List.getLast?_reverse, List.reverse_eq_nil_iff]
    cases hdrop : u.reverse.dropWhile (· != '\n') with
    | nil => exact .inl rfl
    | cons c v =>
      rw [hdrop] at hstop
      exact .inr (by simpa using hstop)
  · intro hmem
    have := List.all_eq_true.mp List.all_takeWhile _ (List.mem_reverse.mp hmem)
    simp at this

/-- Before the last character of a text that fits, columns are counted exactly. -/
theorem toNat_column_after {u : List Char} (h : u.length + 1 < UInt32.size) :
    (after u).column.toNat = 1 + (lastLine u).length := by
  have hle : (lastLine u).length ≤ u.length := by
    rw [lastLine, List.length_reverse]
    exact Nat.le_trans (List.takeWhile_prefix _).length_le (Nat.le_of_eq List.length_reverse)
  rw [after_eq, toNat_saturatingAdd_of_lt]
  · rfl
  · show 1 + _ < _
    omega

/-- **Before the last character of a text that fits**, no line and no column has stopped at the
largest number. -/
theorem counts_after {u : List Char} (h : u.length + 1 < UInt32.size) : (after u).Counts u := by
  obtain ⟨v, hu, hv, hlast⟩ := exists_append_lastLine u
  exact ⟨toNat_line_after h, v, lastLine u, hu, hv, hlast, toNat_column_after h⟩

/-! ### The order of positions -/

theorem compare_eq_lt_iff {p q : Position} :
    compare p q = .lt ↔ p.line < q.line ∨ p.line = q.line ∧ p.column < q.column := by
  show (compare p.line q.line).then (compare p.column q.column) = .lt ↔ _
  rw [Ordering.then_eq_lt, Std.compare_eq_lt, Std.compare_eq_lt, Std.compare_eq_iff_eq]

/-- **More text leads farther on**: to a line farther down, or to the right in the same line. -/
theorem compare_after_append {u w : List Char} (hw : w ≠ [])
    (h : (u ++ w).length + 1 < UInt32.size) : compare (after u) (after (u ++ w)) = .lt := by
  have hu : u.length + 1 < UInt32.size := by
    rw [List.length_append] at h
    omega
  rw [compare_eq_lt_iff]
  by_cases hfeed : '\n' ∈ w
  · left
    rw [UInt32.lt_iff_toNat_lt, toNat_line_after hu, toNat_line_after h, List.count_append]
    have := List.count_pos_iff.mpr hfeed
    omega
  · right
    have hline : (after u).line.toNat = (after (u ++ w)).line.toNat := by
      rw [toNat_line_after hu, toNat_line_after h, List.count_append, List.count_eq_zero.mpr hfeed,
        Nat.add_zero]
    refine ⟨UInt32.toNat_inj.mp hline, ?_⟩
    rw [UInt32.lt_iff_toNat_lt, toNat_column_after hu, toNat_column_after h,
      lastLine_append_of_not_mem hfeed, List.length_append]
    have := List.length_pos_iff.mpr hw
    omega

end Position
end Lexico
