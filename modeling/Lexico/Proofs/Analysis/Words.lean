import Lexico.Proofs.Analysis.Positions
import Lexico.Proofs.Token.Word

/-!
# Words of a source

A word is a letter or an underscore with letters, digits and underscores behind it. Words are the
lexemes of three kinds of tokens and of no other; the two tables say which of the three. In a source
a word is taken whole: what stands behind it does not go on with it.
-/

namespace Lexico

open Piece (Cuts StopsBefore)

/-- A letter or an underscore, then letters, digits and underscores. -/
def Text.isWord : List Char → Bool
  | [] => false
  | c :: w => isWordStart c && w.all isWordPart

theorem Text.isWord_cons_iff {c : Char} {w : List Char} :
    isWord (c :: w) = true ↔ isWordStart c = true ∧ ∀ x ∈ w, isWordPart x = true := by
  rw [isWord, Bool.and_eq_true, List.all_eq_true]

/-- The tables have words in them. -/
theorem Word.isWord_of_mem {w : String} (h : w ∈ reserved ∨ w ∈ booleans) :
    Text.isWord w.toList = true := by
  have hall : ∀ w ∈ reserved ++ booleans, Text.isWord w.toList = true := by decide +kernel
  exact hall w (List.mem_append.mpr h)

/-- The kind of a token goes by its lexeme, if either is that of a word. -/
structure Token.Resolved (t : Token) : Prop where
  reservedWord_iff : t.kind = .reservedWord ↔ t.lexeme ∈ Word.reserved
  booleanLiteral_iff : t.kind = .booleanLiteral ↔ t.lexeme ∈ Word.booleans
  identifier_iff : t.kind = .identifier ↔ Text.isWord t.lexeme.toList = true ∧
    t.lexeme ∉ Word.reserved ∧ t.lexeme ∉ Word.booleans

/-! ### Pieces that are words -/

/-- A piece is cut as a word just when it is one. -/
theorem Piece.Cuts.eq_ident_iff {t : Tag} {w r : List Char} (h : Cuts t w r) :
    t = .ident ↔ Text.isWord w = true := by
  constructor
  · rintro rfl
    obtain ⟨hshape, -⟩ := h
    cases hshape with
    | word hc hw => exact Text.isWord_cons_iff.mpr ⟨hc, hw⟩
    | spelled h => cases h
  · intro hw
    obtain ⟨c, w, rfl⟩ := List.exists_cons_of_ne_nil h.1.ne_nil
    -- The first character selects the rule.
    have hstart := start_of_starts (l := .word) (by simp) (Text.isWord_cons_iff.mp hw).1 (w ++ r)
    have hcut := cut?_of_cuts h
    rw [List.cons_append, hstart, Option.some.injEq] at hcut
    exact (congrArg Piece.tag hcut).symm

/-- Behind a word there is no part of one. -/
theorem Piece.Cuts.stopsBefore_of_isWord {t : Tag} {w r : List Char} (h : Cuts t w r)
    (hw : Text.isWord w = true) : StopsBefore Text.isWordPart r := by
  obtain rfl := h.eq_ident_iff.mpr hw
  exact h.2

/-- Only words stand for tokens of the three kinds. -/
theorem Tag.eq_ident_of_kind? {t : Tag} {lexeme : String} {k : Kind}
    (h : t.kind? lexeme = some k)
    (hk : k = .reservedWord ∨ k = .booleanLiteral ∨ k = .identifier) : t = .ident := by
  rcases hk with rfl | rfl | rfl <;> cases t <;> first | rfl | cases h

/-! ### Tokens that are words -/

/-- A word is what it is looked up as, else an identifier. -/
theorem Word.kind_iff {w : String} {k : Kind} (h : k = (kind? w).getD .identifier) :
    (k = .reservedWord ↔ w ∈ reserved) ∧ (k = .booleanLiteral ↔ w ∈ booleans) ∧
      (k = .identifier ↔ w ∉ reserved ∧ w ∉ booleans) := by
  subst h
  rw [← kind?_eq_reservedWord_iff, ← kind?_eq_booleanLiteral_iff]
  rcases kind?_cases w with hw | hw | hw <;> simp [hw]

/-- The kind of an occurrence goes by its lexeme. -/
theorem Occurrence.resolved {o : Occurrence} {r : List Char} (hcuts : Cuts o.tag o.text r)
    (ht : o.tag.isTrivia = false) : o.token.Resolved := by
  have hkind := o.kind?_eq ht hcuts.1.ne_eof
  have hlexeme : o.token.lexeme.toList = o.text := String.toList_ofList
  by_cases hword : Text.isWord o.text = true
  · rw [hcuts.eq_ident_iff.mpr hword] at hkind
    obtain ⟨hreserved, hboolean, hident⟩ := Word.kind_iff (Option.some.inj hkind).symm
    refine ⟨hreserved, hboolean, ?_⟩
    rw [hlexeme, and_iff_right hword]
    exact hident
  · -- What is no word is in neither table, and of none of the kinds.
    have hnone (hk : o.kind = .reservedWord ∨ o.kind = .booleanLiteral ∨ o.kind = .identifier) :
        False :=
      hword (hcuts.eq_ident_iff.mp (Tag.eq_ident_of_kind? hkind hk))
    have htable (hmem : o.lexeme ∈ Word.reserved ∨ o.lexeme ∈ Word.booleans) : False :=
      hword (hlexeme ▸ Word.isWord_of_mem hmem)
    refine ⟨?_, ?_, ?_⟩
    · exact ⟨fun hk => (hnone (.inl hk)).elim, fun hmem => (htable (.inl hmem)).elim⟩
    · exact ⟨fun hk => (hnone (.inr (.inl hk))).elim, fun hmem => (htable (.inr hmem)).elim⟩
    · rw [hlexeme]
      exact ⟨fun hk => (hnone (.inr (.inr hk))).elim, fun h => absurd h.1 hword⟩

/-! ### Where a token stands -/

/-- Text of a source at one position stands at one place. -/
theorem Source.Holds.unique {s : Source} {t : Token} {w r r' : List Char} (hw : w ≠ [])
    (h : s.Holds t w r) (h' : s.Holds t w r') : r = r' := by
  -- Of two places the one behind the other is at a greater position.
  have hplace {u v r r' : List Char} (hu : s.text.toList = u ++ (w ++ r))
      (hv : s.text.toList = u ++ v ++ (w ++ r'))
      (hsame : Position.after u = .after (u ++ v)) : r = r' := by
    by_cases hnil : v = []
    · rw [hnil, List.append_nil, hu] at hv
      exact List.append_cancel_left (List.append_cancel_left hv)
    · have hlt := Position.compare_after_append hnil (Source.length_lt_of_toList hw hv)
      rw [← hsame, Position.compare_eq_lt_iff] at hlt
      rcases hlt with hline | ⟨-, hcolumn⟩
      · exact absurd hline (UInt32.lt_irrefl _)
      · exact absurd hcolumn (UInt32.lt_irrefl _)
  obtain ⟨-, u, hu, hpos⟩ := h
  obtain ⟨-, u', hu', hpos'⟩ := h'
  rcases List.append_eq_append_iff.mp (hu.symm.trans hu') with ⟨v, hv, -⟩ | ⟨v, hv, -⟩
  · rw [hv] at hu' hpos'
    exact hplace hu hu' (hpos.symm.trans hpos')
  · rw [hv] at hu hpos
    exact (hplace hu' hu (hpos'.symm.trans hpos)).symm

/-- **Words are looked up and taken whole.** -/
theorem analyze_words :
    (∀ w, (Word.kind? w = some .reservedWord ↔ w ∈ Word.reserved) ∧
      (Word.kind? w = some .booleanLiteral ↔ w ∈ Word.booleans) ∧
      (Word.kind? w = none ↔ w ∉ Word.reserved ∧ w ∉ Word.booleans) ∧
      (Word.isReserved w = true ↔ w ∈ Word.reserved)) ∧
    ∀ s : Source, ∃ a, s.analyze = .ok a ∧ ∀ t ∈ a.tokens, t.Resolved ∧
      (∃ r, s.Holds t t.lexeme.toList r) ∧
      (Text.isWord t.lexeme.toList = true → ∀ r, s.Holds t t.lexeme.toList r →
        StopsBefore Text.isWordPart r) := by
  refine ⟨?_, ?_⟩
  · intro w
    exact ⟨Word.kind?_eq_reservedWord_iff, Word.kind?_eq_booleanLiteral_iff,
      Word.kind?_eq_none_iff, Word.isReserved_iff⟩
  · intro s
    obtain ⟨xs, hxs⟩ := exists_reads [] s.text.toList
    refine ⟨_, Source.analyze_of_reads hxs, ?_⟩
    intro t ht
    obtain ⟨o, ho, rfl⟩ := List.mem_map.mp ht
    obtain ⟨r, htext, hcuts, htrivia⟩ := hxs.cuts_of_mem ho
    have hlexeme : o.token.lexeme.toList = o.text := String.toList_ofList
    have hholds : s.Holds o.token o.text r := Occurrence.holds htext
    rw [hlexeme]
    refine ⟨Occurrence.resolved hcuts htrivia, ⟨r, hholds⟩, ?_⟩
    intro hword r' hholds'
    rw [← hholds.unique hcuts.1.ne_nil hholds']
    exact hcuts.stopsBefore_of_isWord hword

/-- A reserved word is found right behind a digit, and none in front of a letter. -/
theorem analyze_words_letter :
    let s : Source := ⟨"9if iff;", by decide⟩
    let t : Token := ⟨.reservedWord, "if", ⟨1, 2⟩⟩
    let t' : Token := ⟨.identifier, "iff", ⟨1, 5⟩⟩
    ∃ a, s.analyze = .ok a ∧ t ∈ a.tokens ∧ t' ∈ a.tokens ∧ t.Resolved ∧ t'.Resolved ∧
      ∃ r, s.Holds t' t'.lexeme.toList r ∧ StopsBefore Text.isWordPart r := by
  intro s t t'
  obtain ⟨a, ha, hall⟩ := analyze_words.2 s
  have heval : s.analyze.toOption = some ⟨[⟨.integerLiteral, "9", ⟨1, 1⟩⟩, t, t',
      ⟨.semicolon, ";", ⟨1, 8⟩⟩], []⟩ := by
    decide +kernel
  rw [ha] at heval
  cases heval
  obtain ⟨hresolved, -, -⟩ := hall t (by simp)
  obtain ⟨hresolved', ⟨r, hholds⟩, hstops⟩ := hall t' (by simp)
  exact ⟨_, ha, by simp, by simp, hresolved, hresolved', r, hholds,
    hstops (by decide +kernel) r hholds⟩

end Lexico
