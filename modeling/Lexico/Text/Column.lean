/-!
# Columns

Tables are aligned by padding each field on the right with spaces. Widths count characters; a field
that is too long is kept whole.
-/

namespace Lexico.Text

/-- A text in a column of at least `width` characters. -/
def padRight (width : Nat) (text : String) : String :=
  text ++ String.ofList (List.replicate (width - text.length) ' ')

end Lexico.Text
