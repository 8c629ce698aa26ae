/-!
# Faults

A **fault** is a request that the byte level refuses: each function that looks at bytes or moves a
cursor says `Except Fault`. Two lemmas open a computation that succeeded: every step of it did. A
third closes one that can be run.
-/

namespace Lexico

/-- What the byte level must never be asked to do. -/
inductive Fault where
  /-- A read at or past the end of the padding. -/
  | readPastPadding (offset : Nat)
  /-- A search that would start after the end of the text. -/
  | searchPastEnd (offset : Nat)
  /-- A move to an offset that does not fit 32 bits. -/
  | offsetOverflow (offset : Nat)
  /-- A cut of the text inside a character. -/
  | splitCharacter (start stop : Nat)
  deriving DecidableEq, Repr

namespace Fault

/-- A sequence of two steps succeeds when both do. -/
theorem bind_eq_ok_iff {ε α β : Type} {x : Except ε α} {f : α → Except ε β} {b : β} :
    x >>= f = .ok b ↔ ∃ a, x = .ok a ∧ f a = .ok b := by
  cases x with
  | error e => exact ⟨nofun, fun ⟨_, h, _⟩ => nomatch h⟩
  | ok a => exact ⟨fun h => ⟨a, rfl, h⟩, fun ⟨_, h, h'⟩ => (by cases h; exact h')⟩

/-- A value alone always succeeds. -/
theorem pure_eq_ok_iff {ε α : Type} {a b : α} : (pure a : Except ε α) = .ok b ↔ a = b :=
  ⟨Except.ok.inj, congrArg Except.ok⟩

/-- A computation that has a value succeeds with it. -/
theorem eq_ok_of_toOption {ε α : Type} {x : Except ε α} {a : α} (h : x.toOption = some a) :
    x = .ok a := by
  cases x with
  | error e => cases h
  | ok b => exact congrArg Except.ok (Option.some.inj h)

end Fault
end Lexico
