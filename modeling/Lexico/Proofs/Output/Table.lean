import Lexico.Output.Table
import Lexico.Proofs.Output.Sink
import Lexico.Proofs.Source.Position
import Lexico.Proofs.Text.Escape
import Lexico.Proofs.Text.Lines
import Lexico.Proofs.Token.Kind
import Mathlib.Data.List.Forall2

/-!
# Reading the table

The table has a line at its head and one line for each token, whatever is in the lexemes. A row is
read from its end: the column and the line are numbers behind a space, what is in front of them is
the lexeme in its column, and the first thirty characters are the name of the kind. Only how many
spaces there are at the end of a lexeme cannot be told from the row.
-/

namespace Lexico

open Text (IsLine digits spaces trimEnd)

/-- The tokens differ in the spaces at the end of their lexemes at most. -/
structure Token.Alike (t t' : Token) : Prop where
  kind_eq : t.kind = t'.kind
  position_eq : t.position = t'.position
  lexeme_eq : trimEnd t.lexeme.toList = trimEnd t'.lexeme.toList

namespace Table

/-! ### Rows are lines -/

/-- The first two columns of a row. -/
def front (t : Token) : List Char :=
  (Text.padRight 30 t.kind.displayName).toList ++ ' ' ::
    (Text.padRight 20 (Text.escape t.lexeme)).toList

theorem toList_row (t : Token) :
    ∃ n, (row t).toList = (front t ++ ' ' :: digits t.position.line.toNat ++ spaces n) ++
      ' ' :: digits t.position.column.toNat ++ ['\n'] := by
  refine ⟨6 - (toString t.position.line.toNat).length, ?_⟩
  have hspace : " ".toList = [' '] := by decide
  have hfeed : "\n".toList = ['\n'] := by decide
  simp only [row, front, String.toList_append, Text.toList_toString, hspace, hfeed,
    Text.toList_padRight 6, List.append_assoc, List.cons_append, List.nil_append]

theorem isLine_row (t : Token) : IsLine (row t).toList := by
  obtain ⟨n, hrow⟩ := toList_row t
  refine ⟨_, hrow, ?_⟩
  have hname : '\n' ∉ (Text.padRight 30 t.kind.displayName).toList := by
    rw [Text.lineFeed_mem_padRight]
    exact t.kind.displayName_fits.2.1
  have hlexeme : '\n' ∉ (Text.padRight 20 (Text.escape t.lexeme)).toList := by
    rw [Text.lineFeed_mem_padRight]
    exact (Text.written_escape t.lexeme).lineFeed_not_mem
  simp [front, hname, hlexeme, Text.lineFeed_not_mem_digits, spaces]

theorem isLine_lines (tokens : List Token) : ∀ l ∈ (lines tokens).map String.toList, IsLine l := by
  intro l hl
  rw [lines, List.map_cons, List.mem_cons, List.map_map] at hl
  rcases hl with rfl | hl
  · have hheader : header.toList = header.toList.dropLast ++ ['\n'] ∧
        '\n' ∉ header.toList.dropLast := by decide +kernel
    exact ⟨_, hheader⟩
  · obtain ⟨t, -, rfl⟩ := List.mem_map.mp hl
    exact isLine_row t

/-! ### Rows read back -/

theorem length_name (k : Kind) : (Text.padRight 30 k.displayName).toList.length = 30 := by
  have hfits := k.displayName_fits.1
  rw [String.length_toList] at hfits
  rw [Text.toList_padRight, List.length_append, String.length_toList, spaces,
    List.length_replicate]
  omega

theorem kind_of_name {k l : Kind} (h : (Text.padRight 30 k.displayName).toList =
    (Text.padRight 30 l.displayName).toList) : k = l := by
  apply Kind.displayName_inj
  have htrim := congrArg trimEnd h
  rwa [Text.trimEnd_padRight, Text.trimEnd_padRight, Text.trimEnd_of_last k.displayName_fits.2.2,
    Text.trimEnd_of_last l.displayName_fits.2.2] at htrim

theorem lexeme_of_escape {s t : String} (h : (Text.padRight 20 (Text.escape s)).toList =
    (Text.padRight 20 (Text.escape t)).toList) : trimEnd s.toList = trimEnd t.toList := by
  have htrim := congrArg trimEnd h
  rw [Text.trimEnd_padRight, Text.trimEnd_padRight] at htrim
  have hwritten := (Text.written_escape s).trimEnd
  rw [htrim] at hwritten
  exact hwritten.inj (Text.written_escape t).trimEnd

/-- **A row read from its end** tells the token, up to spaces at the end of the lexeme. -/
theorem alike_of_row {t t' : Token} (h : (row t).toList = (row t').toList) : t.Alike t' := by
  obtain ⟨n, hrow⟩ := toList_row t
  obtain ⟨n', hrow'⟩ := toList_row t'
  rw [hrow, hrow'] at h
  obtain ⟨hrest, hcolumn⟩ := Text.append_number_inj (List.append_cancel_right h)
  -- The line is at the end of what is left when its padding is off.
  have hline := congrArg trimEnd hrest
  rw [Text.trimEnd_append_spaces, Text.trimEnd_append_spaces, Text.trimEnd_append_digits,
    Text.trimEnd_append_digits] at hline
  obtain ⟨hfront, hline⟩ := Text.append_number_inj hline
  obtain ⟨hname, hlexeme⟩ := List.append_inj hfront
    ((length_name t.kind).trans (length_name t'.kind).symm)
  exact ⟨kind_of_name hname,
    Position.eq_of_line_column (UInt32.toNat_inj.mp hline) (UInt32.toNat_inj.mp hcolumn),
    lexeme_of_escape (List.cons.inj hlexeme).2⟩

/-- The same rows show tokens that are alike. -/
theorem alike_of_rows {ts ts' : List Token}
    (h : ts.map (fun t => (row t).toList) = ts'.map (fun t => (row t).toList)) :
    List.Forall₂ Token.Alike ts ts' := by
  have hrows : List.Forall₂ Eq (ts.map fun t => (row t).toList)
      (ts'.map fun t => (row t).toList) := by
    rw [h]
    exact List.forall₂_refl _
  rw [List.forall₂_map_left_iff, List.forall₂_map_right_iff] at hrows
  exact hrows.imp fun _ _ => alike_of_row

/-! ### The whole table -/

/-- The whole table as one text. -/
def render (tokens : List Token) : String := String.join (lines tokens)

theorem write_eq (tokens : List Token) :
    write (.ofLimit none false) tokens = (⟨(render tokens).toUTF8, none, false⟩, .ok ()) := by
  rw [write, Sink.writeAll_of_endless rfl, Sink.taking, Sink.ofLimit, ByteArray.empty_append,
    render]

theorem toList_render (tokens : List Token) :
    (render tokens).toList = ((lines tokens).map String.toList).flatten := by
  rw [render, String.toList_join, List.flatMap_def]

theorem count_render (tokens : List Token) :
    (render tokens).toList.count '\n' = 1 + tokens.length := by
  rw [toList_render, Text.count_flatten (isLine_lines tokens), lines, List.length_map,
    List.length_cons, List.length_map, Nat.add_comm]

/-- The lines of the table are its head and the rows. -/
theorem lines_render (tokens : List Token) :
    Text.lines (render tokens).toList =
      header.toList :: tokens.map (fun t => (row t).toList) := by
  rw [toList_render, Text.lines_flatten (isLine_lines tokens), lines, List.map_cons, List.map_map]
  rfl

end Table

/-- **The table loses nothing but spaces** at the ends of lexemes: it is written whole, it has one
line for each token behind the head, and only tokens that are alike have the same table. -/
theorem table_lossless (ts : List Token) :
    ∃ text : String,
      Table.write (.ofLimit none false) ts = (⟨text.toUTF8, none, false⟩, .ok ()) ∧
      text.toList.count '\n' = 1 + ts.length ∧
      Text.lines text.toList = Table.header.toList :: ts.map (fun t => (Table.row t).toList) ∧
      ∀ ts', (Table.write (.ofLimit none false) ts').1.accepted = text.toUTF8 →
        List.Forall₂ Token.Alike ts ts' := by
  refine ⟨Table.render ts, Table.write_eq ts, Table.count_render ts, Table.lines_render ts, ?_⟩
  intro ts' hbytes
  rw [Table.write_eq] at hbytes
  have htext : Table.render ts' = Table.render ts := String.toByteArray_inj.mp hbytes
  have hlines := Table.lines_render ts'
  rw [htext, Table.lines_render, List.cons.injEq] at hlines
  exact Table.alike_of_rows hlines.2

/-- A space at the end of an open comment cannot be seen in its row. -/
theorem table_lossless_space :
    let ts : List Token := [⟨.error, "/*\\n\n\u0301 ", ⟨3, 4294967295⟩⟩]
    let ts' : List Token := [⟨.error, "/*\\n\n\u0301", ⟨3, 4294967295⟩⟩]
    (Table.write (.ofLimit none false) ts').1.accepted =
        (Table.write (.ofLimit none false) ts).1.accepted ∧
      List.Forall₂ Token.Alike ts ts' := by
  intro ts ts'
  obtain ⟨text, hwrite, -, -, hall⟩ := table_lossless ts
  have hsame : (Table.write (.ofLimit none false) ts').1.accepted =
      (Table.write (.ofLimit none false) ts).1.accepted := by
    decide +kernel
  refine ⟨hsame, hall ts' ?_⟩
  rw [hsame, hwrite]

end Lexico
