import Lexico.Proofs.Segment.Separator
import Lexico.Proofs.Source.Position
import Lexico.Scanner.Basic

/-!
# Occurrences of tokens

An **occurrence** is a piece that stands for a token, together with all the text before it. That is
enough to say the token, its position, and what is wrong with it. `Reads u r xs` says that the
occurrences `xs` are those in the text `r` behind the text `u`, with nothing but separators between
them; every text has exactly one such list (`exists_reads`, `Reads.unique`).

A gap between two tokens is any number of separators here. So it makes no difference to `Reads` how
a run of separators is cut into pieces, and a change to one of them changes nothing else.
-/

namespace Lexico

open Piece (Cuts)

/-! ### Occurrences -/

/-- A piece that stands for a token, and the text before it. -/
structure Occurrence where
  tag : Tag
  text : List Char
  before : List Char

namespace Occurrence

def lexeme (o : Occurrence) : String := String.ofList o.text

def position (o : Occurrence) : Position := .after o.before

/-- The kind of the token; a piece that stands for a token has one. -/
def kind (o : Occurrence) : Kind := (o.tag.kind? o.lexeme).getD .error

def token (o : Occurrence) : Token := ⟨o.kind, o.lexeme, o.position⟩

@[simp] theorem kind_token (o : Occurrence) : o.token.kind = o.kind := rfl

/-- What is wrong with the piece, if anything. -/
def error? (o : Occurrence) : Option LexicalError :=
  (o.tag.cause? o.lexeme).map (⟨·, o.position⟩)

/-- What is logged when the token is read. -/
def events (o : Occurrence) : List Event :=
  (o.error?.map Event.lexicalError).toList ++ [.token o.tag o.token]

end Occurrence

theorem Tag.kind?_eq_none_iff {t : Tag} {lexeme : String} :
    t.kind? lexeme = none ↔ t.isTrivia = true ∨ t = .eof := by
  cases t <;> simp [Tag.kind?, Tag.isTrivia]

theorem Occurrence.kind?_eq {o : Occurrence} (ht : o.tag.isTrivia = false) (he : o.tag ≠ .eof) :
    o.tag.kind? o.lexeme = some o.kind := by
  cases hkind : o.tag.kind? o.lexeme with
  | some k => rw [Occurrence.kind, hkind, Option.getD_some]
  | none =>
    rcases Tag.kind?_eq_none_iff.mp hkind with h | h
    · rw [ht] at h
      cases h
    · exact absurd h he

/-- No token that stands for text has the kind of the end token. -/
theorem Occurrence.kind_ne_eof (o : Occurrence) : o.kind ≠ .eof := by
  rw [Occurrence.kind]
  cases hkind : o.tag.kind? o.lexeme with
  | none => simp
  | some k =>
    rw [Option.getD_some]
    rintro rfl
    exact Tag.kind?_ne_eof _ _ hkind

/-! ### What is wrong with an occurrence -/

/-- A word is reserved, a boolean literal or an identifier. -/
theorem Word.kind?_cases (w : String) :
    kind? w = some .reservedWord ∨ kind? w = some .booleanLiteral ∨ kind? w = none := by
  rw [kind?]
  split
  split
  · exact .inl rfl
  · split
    · exact .inr (.inl rfl)
    · exact .inr (.inr rfl)

/-- Exactly the error tags stand for error tokens. -/
theorem Tag.kind?_eq_error_iff {t : Tag} {lexeme : String} :
    t.kind? lexeme = some .error ↔ t.isError = true := by
  cases t <;> simp [Tag.kind?, Tag.isError]
  rcases Word.kind?_cases lexeme with h | h | h <;> simp [h]

theorem Tag.kind?_eq_lineComment_iff {t : Tag} {lexeme : String} :
    t.kind? lexeme = some .lineComment ↔ t = .lineComment := by
  cases t <;> simp [Tag.kind?]
  rcases Word.kind?_cases lexeme with h | h | h <;> simp [h]

/-- The token is an error token just when the tag is an error tag. -/
theorem Occurrence.isError_token {o : Occurrence} (ht : o.tag.isTrivia = false)
    (he : o.tag ≠ .eof) : o.token.isError = o.tag.isError := by
  have hiff : o.tag.kind? o.lexeme = some .error ↔ o.tag.isError = true :=
    Tag.kind?_eq_error_iff
  rw [o.kind?_eq ht he, Option.some.injEq] at hiff
  rw [Bool.eq_iff_iff, ← hiff]
  exact decide_eq_true_iff

/-- Something is wrong with an occurrence just when the tag is an error tag. -/
theorem Occurrence.isSome_error? (o : Occurrence) : o.error?.isSome = o.tag.isError := by
  rw [error?, Option.isSome_map, Tag.isSome_cause?_iff]

/-! ### The occurrences in a text -/

/-- Behind the text `u`, the tokens in the text `r` occur as listed. -/
inductive Reads : List Char → List Char → List Occurrence → Prop
  | done {u g} : Gap g → Reads u g []
  | next {u g t w r xs} : Gap g → Cuts t w r → t.isTrivia = false → Reads (u ++ g ++ w) r xs →
      Reads u (g ++ (w ++ r)) (⟨t, w, u ++ g⟩ :: xs)

/-- Every text has its occurrences. -/
theorem exists_reads (u r : List Char) : ∃ xs, Reads u r xs := by
  -- Behind the longest gap stands a token, unless the text is at its end.
  induction hn : r.length using Nat.strongRecOn generalizing u r with
  | ind n ih =>
    have hgap : Gap (r.takeWhile Text.isSeparator) := fun _ => List.mem_takeWhile_imp
    have hsplit : r = r.takeWhile Text.isSeparator ++ r.dropWhile Text.isSeparator :=
      List.takeWhile_append_dropWhile.symm
    have hstop := Piece.stopsBefore_dropWhile Text.isSeparator r
    generalize r.takeWhile Text.isSeparator = g at hgap hsplit
    generalize r.dropWhile Text.isSeparator = r₀ at hsplit hstop
    by_cases hr : r₀ = []
    · refine ⟨[], ?_⟩
      rw [hsplit, hr, List.append_nil]
      exact .done hgap
    · obtain ⟨t, w, r', rfl, hcuts⟩ := Piece.exists_cuts hr
      have ht : t.isTrivia = false := by
        rw [Bool.eq_false_iff]
        intro ht
        obtain ⟨c, v, rfl⟩ := List.exists_cons_of_ne_nil hcuts.1.ne_nil
        have hc := hcuts.1.gap ht c (by simp)
        rw [hstop c rfl] at hc
        cases hc
      have hpos : 0 < w.length := List.length_pos_iff.mpr hcuts.1.ne_nil
      have hlen : r'.length < n := by
        rw [← hn, hsplit, List.length_append, List.length_append]
        omega
      obtain ⟨xs, hxs⟩ := ih r'.length hlen (u ++ g ++ w) r' rfl
      exact ⟨⟨t, w, u ++ g⟩ :: xs, hsplit ▸ .next hgap hcuts ht hxs⟩

/-- A text has its occurrences in one way. -/
theorem Reads.unique {u r : List Char} {xs ys : List Occurrence} (h : Reads u r xs)
    (h' : Reads u r ys) : xs = ys := by
  -- A gap is not empty where a token starts: the two lists end together.
  have hends {g g' t w r} (hg : Gap g) (hg' : Gap g') (hcuts : Cuts t w r)
      (ht : t.isTrivia = false) : g ≠ g' ++ (w ++ r) := by
    intro hsame
    have := hg.append_inj hg' Piece.stopsBefore_nil (Piece.stopsBefore_of_cuts hcuts ht)
      (by rw [List.append_nil, hsame])
    exact hcuts.1.ne_nil (List.append_eq_nil_iff.mp this.2.symm).1
  induction h generalizing ys with
  | @done u g hg =>
    generalize hcs : g = cs at h'
    cases h' with
    | done => rfl
    | next hg' hcuts ht _ => exact absurd hcs (hends hg hg' hcuts ht)
  | @next u g t w r xs hg hcuts ht _ ih =>
    generalize hcs : g ++ (w ++ r) = cs at h'
    cases h' with
    | done hg' => exact absurd hcs.symm (hends hg' hg hcuts ht)
    | next hg' hcuts' ht' hys =>
      obtain ⟨rfl, htext⟩ := hg.append_inj hg' (Piece.stopsBefore_of_cuts hcuts ht)
        (Piece.stopsBefore_of_cuts hcuts' ht') hcs
      obtain ⟨rfl, rfl, rfl⟩ := hcuts.unique hcuts' htext
      rw [ih hys]

/-- Each occurrence is cut in front of the text behind it. -/
theorem Reads.cuts_of_mem {u r : List Char} {xs : List Occurrence} (h : Reads u r xs)
    {o : Occurrence} (ho : o ∈ xs) :
    ∃ r', u ++ r = o.before ++ (o.text ++ r') ∧ Cuts o.tag o.text r' ∧ o.tag.isTrivia = false := by
  induction h with
  | done => cases ho
  | @next u g t w r xs _ hcuts ht _ ih =>
    rcases List.mem_cons.mp ho with rfl | ho
    · exact ⟨r, (List.append_assoc ..).symm, hcuts, ht⟩
    · obtain ⟨r', htext, hcuts', ht'⟩ := ih ho
      refine ⟨r', ?_, hcuts', ht'⟩
      rw [← htext]
      simp only [List.append_assoc]

/-- A gap in front changes no occurrence. -/
theorem Reads.behind_gap {u g r : List Char} {xs : List Occurrence} (hg : Gap g)
    (h : Reads (u ++ g) r xs) : Reads u (g ++ r) xs := by
  cases h with
  | done hg' => exact .done (gap_append.mpr ⟨hg, hg'⟩)
  | @next _ g' t w r xs hg' hcuts ht hxs =>
    rw [← List.append_assoc g, List.append_assoc u]
    rw [List.append_assoc u] at hxs
    exact .next (gap_append.mpr ⟨hg, hg'⟩) hcuts ht hxs

/-- Nor does it to leave a gap behind. -/
theorem Reads.of_gap {u g r : List Char} {xs : List Occurrence} (hg : Gap g)
    (h : Reads u (g ++ r) xs) : Reads (u ++ g) r xs := by
  obtain ⟨ys, hys⟩ := exists_reads (u ++ g) r
  rwa [h.unique (Reads.behind_gap hg hys)]

end Lexico
