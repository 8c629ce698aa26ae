import Lexico.Unicode.GraphemeExtend
import Lexico.Unicode.Printable

/-!
# Escaped text

Text in messages and tables is escaped so that each character can be seen: quotes, the backslash
and four controls have escapes of two characters, and what is not printable is written by its code
point. A mark that combines with the character before it is escaped where nothing precedes it: as a
character on its own, and at the start of a text.
-/

namespace Lexico.Text

/-- A backslash and one character. -/
def shortEscape? : Char → Option String
  | '\x00' => some "\\0"
  | '\t' => some "\\t"
  | '\n' => some "\\n"
  | '\r' => some "\\r"
  | '"' => some "\\\""
  | '\'' => some "\\'"
  | '\\' => some "\\\\"
  | _ => none

/-- The code point in lower-case hexadecimal digits, between braces. -/
def codeEscape (c : Char) : String :=
  "\\u\x7b" ++ String.ofList (Nat.toDigits 16 c.toNat) ++ "\x7d"

/-- A character after others. -/
def escapeInner (c : Char) : String :=
  match shortEscape? c with
  | some e => e
  | none => if Unicode.isPrintable c then c.toString else codeEscape c

/-- A character on its own or at the start of a text. -/
def escapeChar (c : Char) : String :=
  match shortEscape? c with
  | some e => e
  | none => if Unicode.isCombining c then codeEscape c else escapeInner c

/-- A text, character by character. -/
def escape (text : String) : String :=
  match text.toList with
  | [] => ""
  | c :: cs => String.join (escapeChar c :: cs.map escapeInner)

end Lexico.Text
