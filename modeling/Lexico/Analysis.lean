import Lexico.Scanner.Basic

/-!
# Analyses

An **analysis** is what one pass over a text finds: all tokens before the end, and the errors. Of a
text that is too long to be a source, it finds what is in the bytes that are kept.
-/

namespace Lexico

/-- The tokens of a source and what is wrong with it. -/
structure Analysis where
  tokens : List Token
  errors : List LexicalError
  deriving DecidableEq, Repr

namespace Analysis

/-- The number of tokens, comments included. -/
def tokenCount (a : Analysis) : Nat := a.tokens.length

/-- Something is wrong with the source. -/
def hasErrors (a : Analysis) : Bool := !a.errors.isEmpty

/-- The errors as text. -/
def messages (a : Analysis) : List String := a.errors.map LexicalError.message

/-- The tokens that are no comments. -/
def withoutComments (a : Analysis) : List Token := a.tokens.filter fun t => !t.kind.isComment

/-- Reads a text to its end. The log ends with the numbers of tokens and errors. -/
def runText (text : String) : Except Fault (Analysis × List Event) := do
  let r ← (Scanner.ofText text).collect
  let a : Analysis := ⟨r.tokens.toList, r.scanner.errors⟩
  return (a, r.events.toList ++ [.analysisComplete a.tokens.length a.errors.length])

/-- The analysis of a text. -/
def ofText (text : String) : Except Fault Analysis := do return (← runText text).1

/-- Reads a source to its end. -/
def run (s : Source) : Except Fault (Analysis × List Event) := runText s.text

/-- What a text is read as depends on the bytes that are kept of it alone. -/
theorem runText_of_kept {s : Source} {text : String} (h : s.text.toUTF8 = Source.kept text) :
    runText text = run s := by
  have hbuffer : Buffer.ofText text = .ofText s.text := by
    rw [Buffer.ofText, Buffer.ofText, s.kept_text, h]
  rw [run, runText, runText, Scanner.ofText, hbuffer]
  rfl

end Analysis

/-- The analysis of a source. -/
def Source.analyze (s : Source) : Except Fault Analysis := do return (← Analysis.run s).1

/-- What the analysis of a source logs. -/
def Source.trace (s : Source) : Except Fault (List Event) := do return (← Analysis.run s).2

end Lexico
