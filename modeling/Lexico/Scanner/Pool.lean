import Lexico.Scanner.Basic

/-!
# Pools of scanners

Several scanners are used in turn: a request goes to the one in use, or changes which one that is.
A request changes no other scanner.
-/

namespace Lexico.Scanner

/-- Scanners by number, and the number of the one in use. -/
structure Pool where
  scanners : Array Scanner
  inUse : Nat

namespace Pool

/-- What can be asked of the scanner in use. -/
inductive Request where
  /-- The next token, or the end token. -/
  | nextToken
  /-- The next token, or none. -/
  | next
  /-- All tokens left. -/
  | collect
  /-- The next tokens up to a number. -/
  | take (n : Nat)
  /-- The errors as text. -/
  | messages
  /-- The errors. -/
  | errors
  /-- Forget the errors. -/
  | clearErrors
  /-- The errors, which are then forgotten. -/
  | takeErrors
  /-- The position of the next character. -/
  | position
  /-- A further scanner in the same state. -/
  | clone
  /-- Another scanner to use. -/
  | use (number : Nat)

/-- What a request is answered with. -/
inductive Answer where
  | token (token : Token)
  | noToken
  | tokens (tokens : List Token)
  | messages (messages : List String)
  | errors (errors : List LexicalError)
  | position (position : Position)
  | number (number : Nat)
  | done

/-- The scanners of the given sources, the first of them in use. -/
def ofSources (sources : List Source) : Pool := ⟨(sources.map ofSource).toArray, 0⟩

/-- The pool in which the scanner in use is in another state. -/
def update (p : Pool) (s : Scanner) : Pool :=
  { p with scanners := p.scanners.setIfInBounds p.inUse s }

/-- Answers a request to the scanner `s`, which is the one in use. -/
def answer (p : Pool) (s : Scanner) : Request → Except Fault (Answer × Pool)
  | .nextToken => do
    let step ← s.nextToken
    return (.token step.token, p.update step.scanner)
  | .next => do
    let step ← s.nextToken
    return (if step.token.isEof then .noToken else .token step.token, p.update step.scanner)
  | .collect => do
    let r ← s.collect
    return (.tokens r.tokens.toList, p.update r.scanner)
  | .take n => do
    let r ← s.take n
    return (.tokens r.tokens.toList, p.update r.scanner)
  | .messages => .ok (.messages s.messages, p)
  | .errors => .ok (.errors s.errors, p)
  | .clearErrors => .ok (.done, p.update s.clearErrors)
  | .takeErrors => .ok (.errors s.errors, p.update s.clearErrors)
  | .position => .ok (.position s.position, p)
  | .clone => .ok (.number p.scanners.size, { p with scanners := p.scanners.push s })
  | .use number =>
    .ok (.done, if number < p.scanners.size then { p with inUse := number } else p)

/-- Answers a request; a pool without scanners stays as it is. -/
def request (p : Pool) (r : Request) : Except Fault (Answer × Pool) :=
  match p.scanners[p.inUse]? with
  | some s => p.answer s r
  | none => .ok (.done, p)

end Pool
end Lexico.Scanner
