import Lexico.Proofs.Segment.Shape

/-!
# Separators

Blanks and the characters of line ends stand between tokens. A piece that stands for no token has
only separators in it, and any other piece starts with a character that is none; so a text splits
into a **gap** and a token in one way.
-/

namespace Lexico

/-- Blanks, and the characters of line ends. -/
def Text.isSeparator (c : Char) : Bool := c = ' ' || c = '\t' || c = '\n' || c = '\r'

theorem Text.isSeparator_iff {c : Char} :
    Text.isSeparator c = true ↔ c = ' ' ∨ c = '\t' ∨ c = '\n' ∨ c = '\r' := by
  simp [Text.isSeparator, or_assoc]

/-- The text between two tokens. -/
def Gap (g : List Char) : Prop := ∀ c ∈ g, Text.isSeparator c = true

@[simp] theorem gap_nil : Gap [] := by simp [Gap]

@[simp] theorem gap_cons {c : Char} {g : List Char} :
    Gap (c :: g) ↔ Text.isSeparator c = true ∧ Gap g := by
  simp [Gap]

@[simp] theorem gap_append {g g' : List Char} : Gap (g ++ g') ↔ Gap g ∧ Gap g' := by
  simp [Gap, or_imp, forall_and]

namespace Piece

theorem isSeparator_of_isBlank {c : Char} (h : Text.isBlank c = true) :
    Text.isSeparator c = true := by
  simp only [Text.isBlank, Bool.or_eq_true, beq_iff_eq] at h
  rcases h with rfl | rfl <;> rfl

theorem isWordStart_of_isSeparator (c : Char) (h : Text.isSeparator c = true) :
    Text.isWordStart c = false := by
  rcases Text.isSeparator_iff.mp h with rfl | rfl | rfl | rfl <;> rfl

theorem isWordPart_of_isSeparator (c : Char) (h : Text.isSeparator c = true) :
    Text.isWordPart c = false := by
  rcases Text.isSeparator_iff.mp h with rfl | rfl | rfl | rfl <;> rfl

theorem isDigit_of_isSeparator (c : Char) (h : Text.isSeparator c = true) :
    c.isDigit = false := by
  rcases Text.isSeparator_iff.mp h with rfl | rfl | rfl | rfl <;> rfl

/-- In a class without separators there is no separator. -/
theorem not_isSeparator {q : Char → Bool} {c : Char}
    (hq : ∀ d, Text.isSeparator d = true → q d = false) (hc : q c = true) :
    Text.isSeparator c = false := by
  rw [Bool.eq_false_iff]
  intro hsep
  rw [hq c hsep] at hc
  cases hc

/-- A piece that stands for no token has only separators in it. -/
theorem Shape.gap {t : Tag} {w : List Char} (h : Shape t w) (ht : t.isTrivia = true) : Gap w := by
  cases h with
  | blanks hc hw =>
    rw [gap_cons]
    exact ⟨isSeparator_of_isBlank hc, fun x hx => isSeparator_of_isBlank (hw x hx)⟩
  | loneReturn => simp [Text.isSeparator]
  | lineFeed => simp [Text.isSeparator]
  | returnLineFeed => simp [Text.isSeparator]
  | spelled h => cases t <;> simp [Tag.spelling?, Tag.isTrivia] at h ht
  | _ => cases ht

/-- A piece that stands for a token does not start with a separator. -/
theorem Shape.head {t : Tag} {w : List Char} (h : Shape t w) (ht : t.isTrivia = false) :
    ∃ c v, w = c :: v ∧ Text.isSeparator c = false := by
  cases h with
  | blanks | loneReturn | lineFeed | returnLineFeed => cases ht
  | word hc _ => exact ⟨_, _, rfl, not_isSeparator isWordStart_of_isSeparator hc⟩
  | int hc _ => exact ⟨_, _, rfl, not_isSeparator isDigit_of_isSeparator hc⟩
  | decimal hc _ _ _ => exact ⟨_, _, rfl, not_isSeparator isDigit_of_isSeparator hc⟩
  | literal _ _ => exact ⟨_, _, rfl, rfl⟩
  | openLiteral _ => exact ⟨_, _, rfl, rfl⟩
  | lineComment _ => exact ⟨_, _, rfl, rfl⟩
  | blockComment _ => exact ⟨_, _, rfl, rfl⟩
  | openComment _ => exact ⟨_, _, rfl, rfl⟩
  | spelled h =>
    cases t <;> simp only [Tag.spelling?, Option.some.injEq, reduceCtorEq] at h <;> subst h <;>
      exact ⟨_, _, rfl, rfl⟩
  | @unknown c h =>
    refine ⟨c, [], rfl, ?_⟩
    rw [Bool.eq_false_iff]
    intro hsep
    rcases Text.isSeparator_iff.mp hsep with rfl | rfl | rfl | rfl <;>
      rcases h with h | h <;> cases h
  | bang => exact ⟨_, _, rfl, rfl⟩

/-- A gap ends where a token starts. -/
theorem stopsBefore_of_cuts {t : Tag} {w r : List Char} (h : Cuts t w r)
    (ht : t.isTrivia = false) : StopsBefore Text.isSeparator (w ++ r) := by
  obtain ⟨c, v, rfl, hc⟩ := h.1.head ht
  exact stopsBefore_cons hc _

end Piece

/-- A text splits into a gap and a token in one way. -/
theorem Gap.append_inj {g g' r r' : List Char} (hg : Gap g) (hg' : Gap g')
    (hr : Piece.StopsBefore Text.isSeparator r) (hr' : Piece.StopsBefore Text.isSeparator r')
    (h : g ++ r = g' ++ r') : g = g' ∧ r = r' :=
  Piece.run_append_inj hg hg' hr hr' h

end Lexico
