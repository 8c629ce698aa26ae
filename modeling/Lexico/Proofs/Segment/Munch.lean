import Lexico.Proofs.Segment.Segmented

/-!
# Maximal munch

Each tag has a **language**: the texts it may stand for, some of them only in front of certain other
text. A text is cut by maximal munch when every piece is the longest leading text in any language,
and a tie goes against the tag for characters that nothing accepts. The languages here are written
down without regard to the rules for cutting; `longest_iff` says that the rules find the longest
match, so that the segments of a source are the one way to cut it by maximal munch.
-/

namespace Lexico.Munch

open Piece

/-! ### Languages -/

/-- The characters between the quotes of a string literal, in front of `r`: each one other than
quote and backslash stands for itself, a backslash takes the next one along, and neither is the end
of a line. -/
inductive Items : List Char → List Char → Prop
  | nil {r} : Items [] r
  | plain {c w r} : c ≠ '"' → c ≠ '\\' → lineEnds (c :: (w ++ r)) = false → Items w r →
      Items (c :: w) r
  | escaped {c w r} : lineEnds (c :: (w ++ r)) = false → Items w r → Items ('\\' :: c :: w) r

/-- A string literal in front of `r`. -/
def IsString (v r : List Char) : Prop := ∃ w, v = '"' :: w ++ ['"'] ∧ Items w ('"' :: r)

/-- The text `w` goes up to the first end of a line, or to the end of the text. -/
def FillsLine (w r : List Char) : Prop :=
  lineEnds r = true ∧ ∀ u v, w = u ++ v → v ≠ [] → lineEnds (v ++ r) = false

/-- The text `w`, in front of `r`, is in the language of the tag. -/
inductive Language : Tag → List Char → List Char → Prop
  | ident {c w r} : Text.isWordStart c = true → (∀ x ∈ w, Text.isWordPart x = true) →
      Language .ident (c :: w) r
  | int {w r} : w ≠ [] → (∀ x ∈ w, x.isDigit = true) → Language .int w r
  | decimal {w v r} : w ≠ [] → (∀ x ∈ w, x.isDigit = true) → v ≠ [] →
      (∀ x ∈ v, x.isDigit = true) → Language .decimal (w ++ '.' :: v) r
  | string {v r} : IsString v r → Language .string v r
  | unterminatedString {w r} : FillsLine w r →
      (∀ v r', v ++ r' = '"' :: w ++ r → ¬ IsString v r') →
      Language .unterminatedString ('"' :: w) r
  | lineComment {w r} : '\n' ∉ w → r = [] ∨ r.head? = some '\n' →
      Language .lineComment ('/' :: '/' :: w) r
  | blockComment {w r} : ¬ ['*', '/'] <:+: w ++ ['*'] →
      Language .blockComment ('/' :: '*' :: w ++ ['*', '/']) r
  | unterminatedBlockComment {w} : ¬ ['*', '/'] <:+: w →
      Language .unterminatedBlockComment ('/' :: '*' :: w) []
  | spelled {t text r} : t.spelling? = some text → Language t text.toList r
  | blanks {w r} : w ≠ [] → (∀ x ∈ w, Text.isBlank x = true) → Language .whitespace w r
  | loneReturn {r} : r.head? ≠ some '\n' → Language .whitespace ['\r'] r
  | lineFeed {r} : Language .newline ['\n'] r
  | returnLineFeed {r} : Language .newline ['\r', '\n'] r
  | anyChar {c r} : Language .unrecognizedChar [c] r

/-- The text `w`, in the language of `t`, is longer than any other leading text of `w ++ r` in any
language; where another tag has the same text, that is the tag for unrecognized characters. -/
def Longest (t : Tag) (w r : List Char) : Prop :=
  Language t w r ∧ ∀ t' w' r', w' ++ r' = w ++ r → Language t' w' r' →
    w'.length < w.length ∨ w'.length = w.length ∧ (t' = t ∨ t' = .unrecognizedChar)

/-- The pieces of a text, each one the longest match where it starts. -/
inductive MaximalMunch : List Char → List Piece → Prop
  | nil : MaximalMunch [] []
  | cons {t w r ps} : Longest t w r → MaximalMunch r ps → MaximalMunch (w ++ r) (⟨t, w⟩ :: ps)

/-! ### Literals -/

theorem ne_lineFeed_of_lineEnds {c : Char} {r : List Char} (h : lineEnds (c :: r) = false) :
    c ≠ '\n' := by
  rintro rfl
  cases h

theorem Items.inside {w r : List Char} (h : Items w r) :
    Inside false w ∧ escapedAfter false w = false := by
  induction h with
  | nil => exact ⟨trivial, rfl⟩
  | @plain c w r hquote hback hends _ ih =>
    have hplain : escapes false c = false := by simpa [escapes] using hback
    refine ⟨⟨ne_lineFeed_of_lineEnds hends, fun hc => absurd hc hquote, ?_⟩, ?_⟩
    · rw [hplain]; exact ih.1
    · rw [escapedAfter_cons, hplain]; exact ih.2
  | escaped hends _ ih =>
    exact ⟨⟨by decide, by decide, ne_lineFeed_of_lineEnds hends, fun _ => rfl, ih.1⟩, ih.2⟩

/-- Without a line feed no line ends anywhere, unless what follows ends it. -/
theorem lineEnds_of_not_mem {w r : List Char} (hw : '\n' ∉ w)
    (hlast : r.head? = some '\n' → w.getLast? ≠ some '\r') :
    ∀ u v, w = u ++ v → v ≠ [] → lineEnds (v ++ r) = false := by
  rintro u v rfl hv
  obtain ⟨c, v, rfl⟩ := List.exists_cons_of_ne_nil hv
  apply lineEnds_cons_of_not_mem fun hmem => hw (List.mem_append_right _ hmem)
  rintro rfl hhead rfl
  exact hlast hhead List.getLast?_concat

theorem items_of_inside {w r : List Char} (hw : Inside false w)
    (hend : escapedAfter false w = false) : Items w ('"' :: r) := by
  -- A backslash and the next character are one item, so the induction is on the length.
  induction hn : w.length using Nat.strongRecOn generalizing w with
  | ind n ih =>
    have hends := lineEnds_of_not_mem (r := '"' :: r) hw.lineFeed_not_mem (by simp)
    cases w with
    | nil => exact .nil
    | cons c w =>
      by_cases hback : c = '\\'
      · subst hback
        cases w with
        | nil => cases hend
        | cons d w =>
          refine .escaped (hends ['\\'] (d :: w) rfl (by simp)) ?_
          exact ih w.length (by rw [← hn, List.length_cons, List.length_cons]; omega) hw.2.2.2.2
            hend rfl
      · have hplain : escapes false c = false := by simpa [escapes] using hback
        have hquote : c ≠ '"' := by
          intro hc
          cases hw.2.1 hc
        have hw' := hw.2.2
        rw [hplain] at hw'
        rw [escapedAfter_cons, hplain] at hend
        refine .plain hquote hback (hends [] (c :: w) rfl (by simp)) ?_
        exact ih w.length (by rw [← hn]; simp) hw' hend rfl

theorem IsString.cuts {v r : List Char} (h : IsString v r) : Cuts .string v r := by
  obtain ⟨w, rfl, hw⟩ := h
  exact ⟨.literal hw.inside.1 hw.inside.2, trivial⟩

/-- Every text has a first line. -/
theorem exists_fillsLine (cs : List Char) : ∃ w r, cs = w ++ r ∧ FillsLine w r := by
  induction cs with
  | nil => exact ⟨[], [], rfl, rfl, by simp⟩
  | cons c cs ih =>
    obtain ⟨w, r, rfl, hr, hinner⟩ := ih
    cases hends : lineEnds (c :: (w ++ r)) with
    | true =>
      refine ⟨[], _, rfl, hends, ?_⟩
      intro u v hnil hv
      exact absurd (List.append_eq_nil_iff.mp hnil.symm).2 hv
    | false =>
      refine ⟨c :: w, r, rfl, hr, ?_⟩
      intro u v hsplit hv
      cases u with
      | nil =>
        rw [← hsplit.trans (List.nil_append v)]
        exact hends
      | cons d u => exact hinner u v (List.cons.inj hsplit).2 hv

/-- A text fills its line in one way. -/
theorem FillsLine.unique {w w' r r' : List Char} (h : FillsLine w r) (h' : FillsLine w' r')
    (htext : w ++ r = w' ++ r') : w = w' := by
  rcases List.append_eq_append_iff.mp htext with ⟨v, hw', hr⟩ | ⟨v, hw, hr'⟩
  · by_cases hv : v = []
    · rw [hw', hv, List.append_nil]
    · have := h'.2 w v hw' hv
      rw [← hr, h.1] at this
      cases this
  · by_cases hv : v = []
    · rw [hw, hv, List.append_nil]
    · have := h.2 w' v hw hv
      rw [← hr', h'.1] at this
      cases this

/-! ### The longest match -/

/-- The piece `p` is no shorter than the text `w` in the language of `t`, and if they tie, then not
against the piece. -/
def Bounds (p : Piece) (t : Tag) (w : List Char) : Prop :=
  w.length < p.text.length ∨ w.length = p.text.length ∧ (t = p.tag ∨ t = .unrecognizedChar)

theorem bounds_of_le {p : Piece} {t : Tag} {w : List Char} (ht : t = p.tag)
    (hw : w.length ≤ p.text.length) : Bounds p t w := by
  rcases Nat.lt_or_eq_of_le hw with h | h
  · exact .inl h
  · exact .inr ⟨h, .inl ht⟩

/-- A run that is cut is no shorter than one that is not. -/
theorem length_le_takeWhile {q : Char → Bool} {w r : List Char} (hw : ∀ x ∈ w, q x = true) :
    w.length ≤ ((w ++ r).takeWhile q).length := by
  rw [List.takeWhile_append_of_pos hw, List.length_append]
  exact Nat.le_add_right _ _

theorem bounds_of_cuts {t : Tag} {w r : List Char} (h : Cuts t w r) :
    ∃ p, cut? (w ++ r) = some p ∧ Bounds p t w :=
  ⟨_, cut?_of_cuts h, bounds_of_le rfl (Nat.le_refl _)⟩

theorem bounds_int {c : Char} {w r : List Char} (hw : ∀ x ∈ c :: w, x.isDigit = true) :
    ∃ p, cut? (c :: w ++ r) = some p ∧ Bounds p .int (c :: w) := by
  have hstart := start_of_starts (l := .digit) (by simp) (hw c (by simp)) (w ++ r)
  have hle := length_le_takeWhile (r := r) hw
  refine ⟨_, hstart, ?_⟩
  rw [start, number]
  split
  · exact bounds_of_le rfl hle
  · -- With a fraction behind it the number is longer.
    refine .inl ?_
    rw [List.length_append]
    exact Nat.lt_of_le_of_lt hle (Nat.lt_add_of_pos_right (by simp))

theorem bounds_decimal {c d : Char} {w v r : List Char} (hw : ∀ x ∈ c :: w, x.isDigit = true)
    (hv : ∀ x ∈ d :: v, x.isDigit = true) :
    ∃ p, cut? (c :: w ++ '.' :: d :: v ++ r) = some p ∧
      Bounds p .decimal (c :: w ++ '.' :: d :: v) := by
  have hstart := start_of_starts (l := .digit) (by simp) (hw c (by simp))
    (w ++ '.' :: (d :: v ++ r))
  have hpoint : StopsBefore Char.isDigit ('.' :: (d :: v ++ r)) := stopsBefore_cons rfl _
  have hle := length_le_takeWhile (r := r) hv
  rw [show c :: w ++ '.' :: d :: v ++ r = c :: (w ++ '.' :: (d :: v ++ r)) by simp]
  refine ⟨_, hstart, ?_⟩
  rw [start, ← List.cons_append, number_run hw hpoint, fraction, if_pos rfl]
  split
  · next hnone =>
    rw [hnone] at hle
    simp at hle
  · refine bounds_of_le rfl ?_
    simp only [List.length_append, List.length_cons] at hle ⊢
    omega

/-- Where no string matches, a quote takes everything up to the end of the line. -/
theorem bounds_unterminatedString {w r : List Char} (hw : FillsLine w r)
    (hnone : ∀ v r', v ++ r' = '"' :: w ++ r → ¬ IsString v r') :
    ∃ p, cut? ('"' :: w ++ r) = some p ∧ Bounds p .unterminatedString ('"' :: w) := by
  have hstart := start_of_starts (l := .quote) (by simp) rfl (w ++ r)
  refine ⟨_, hstart, ?_⟩
  rw [start]
  rcases literalRest_spec false (w ++ r) with
    ⟨v, r', htext, -, hv, hend⟩ | ⟨v, r', htext, hrest, hv, hr', hlast⟩
  · exact absurd ⟨v, rfl, items_of_inside hv hend⟩ (hnone ('"' :: v ++ ['"']) r' (by simp [htext]))
  · have hfill : FillsLine v r' := ⟨hr', lineEnds_of_not_mem hv.lineFeed_not_mem hlast⟩
    rw [hrest, hw.unique hfill htext]
    exact bounds_of_le rfl (Nat.le_refl _)

/-- A spelling is cut, or a longer text that starts with it. -/
theorem bounds_spelled {t : Tag} {text : String} {r : List Char} (h : t.spelling? = some text) :
    ∃ p, cut? (text.toList ++ r) = some p ∧ Bounds p t text.toList := by
  have hpair {c : Char} {alone : Tag} (joined : Tag) (hp : (c, alone, joined) ∈ Lead.pairs) :
      ∃ p, cut? ([c] ++ r) = some p ∧ Bounds p alone [c] := by
    refine ⟨_, start_of_starts (l := .paired alone joined) (by simp) hp r, ?_⟩
    rw [start]
    split
    · exact .inl (by simp)
    · exact bounds_of_le rfl (Nat.le_refl _)
  by_cases hf : Follow t text.toList r
  · exact bounds_of_cuts ⟨.spelled h, hf⟩
  · -- Only a spelling that is the start of a longer text is not cut.
    cases t <;> simp only [Tag.spelling?, Option.some.injEq, reduceCtorEq] at h <;> subst h
    case slash =>
      refine ⟨_, start_of_starts (l := .slash) (by simp) rfl r, ?_⟩
      rw [start, afterSlash]
      split
      · next hhead =>
        obtain ⟨r, rfl⟩ := List.head?_eq_some_iff.mp hhead
        rw [List.takeWhile_cons_of_pos (by decide)]
        exact .inl (by simp)
      split
      · exact .inl (by simp)
      · exact bounds_of_le rfl (Nat.le_refl _)
    case equal => exact hpair .equalEqual (by decide)
    case less => exact hpair .lessEqual (by decide)
    case greater => exact hpair .greaterEqual (by decide)
    all_goals exact absurd trivial hf

/-- No language has a longer leading text than the first piece. -/
theorem Language.bounded {t : Tag} {w r : List Char} (h : Language t w r) :
    ∃ p, cut? (w ++ r) = some p ∧ Bounds p t w := by
  cases h with
  | ident hc hw =>
    refine ⟨_, start_of_starts (l := .word) (by simp) hc _, bounds_of_le rfl ?_⟩
    rw [start, List.length_cons, List.length_cons]
    exact Nat.succ_le_succ (length_le_takeWhile hw)
  | int hne hw =>
    obtain ⟨c, w, rfl⟩ := List.exists_cons_of_ne_nil hne
    exact bounds_int hw
  | decimal hne hw hne' hv =>
    obtain ⟨c, w, rfl⟩ := List.exists_cons_of_ne_nil hne
    obtain ⟨d, v, rfl⟩ := List.exists_cons_of_ne_nil hne'
    exact bounds_decimal hw hv
  | string hw => exact bounds_of_cuts hw.cuts
  | unterminatedString hw hnone => exact bounds_unterminatedString hw hnone
  | lineComment hw hr => exact bounds_of_cuts ⟨.lineComment hw, hr⟩
  | blockComment hw => exact bounds_of_cuts ⟨.blockComment hw, trivial⟩
  | unterminatedBlockComment hw => exact bounds_of_cuts ⟨.openComment hw, rfl⟩
  | spelled h => exact bounds_spelled h
  | blanks hne hw =>
    obtain ⟨c, w, rfl⟩ := List.exists_cons_of_ne_nil hne
    obtain ⟨hc, hw⟩ := List.forall_mem_cons.mp hw
    refine ⟨_, start_of_starts (l := .blank) (by simp) hc _, bounds_of_le rfl ?_⟩
    rw [start, List.length_cons, List.length_cons]
    exact Nat.succ_le_succ (length_le_takeWhile hw)
  | loneReturn hr => exact bounds_of_cuts ⟨.loneReturn, hr⟩
  | lineFeed => exact bounds_of_cuts ⟨.lineFeed, trivial⟩
  | returnLineFeed => exact bounds_of_cuts ⟨.returnLineFeed, trivial⟩
  | @anyChar c r =>
    obtain ⟨t, w, r', htext, hcuts⟩ := exists_cuts (List.cons_ne_nil c r)
    rw [← List.singleton_append] at htext
    rw [htext]
    refine ⟨_, cut?_of_cuts hcuts, ?_⟩
    rcases Nat.lt_or_eq_of_le (List.length_pos_iff.mpr hcuts.1.ne_nil) with h | h
    · exact .inl h
    · exact .inr ⟨h, .inr rfl⟩

/-- What is cut is in the language of its tag. -/
theorem language_of_cuts {t : Tag} {w r : List Char} (h : Cuts t w r) : Language t w r := by
  obtain ⟨hshape, hf⟩ := h
  cases hshape with
  | blanks hc hw => exact .blanks (by simp) (List.forall_mem_cons.mpr ⟨hc, hw⟩)
  | loneReturn => exact .loneReturn hf
  | lineFeed => exact .lineFeed
  | returnLineFeed => exact .returnLineFeed
  | word hc hw => exact .ident hc hw
  | int hc hw => exact .int (by simp) (List.forall_mem_cons.mpr ⟨hc, hw⟩)
  | decimal hc hw hd hv =>
    exact .decimal (by simp) (List.forall_mem_cons.mpr ⟨hc, hw⟩) (by simp)
      (List.forall_mem_cons.mpr ⟨hd, hv⟩)
  | literal hw hend => exact .string ⟨_, rfl, items_of_inside hw hend⟩
  | @openLiteral w hw =>
    have hlast : r.head? = some '\n' → w.getLast? ≠ some '\r' :=
      fun hhead => last_ne_of_cons (hf.2 hhead)
    refine .unterminatedString ⟨hf.1, lineEnds_of_not_mem hw.lineFeed_not_mem hlast⟩ ?_
    intro v r' htext hstring
    have hopen : Cuts .unterminatedString ('"' :: w) r := ⟨.openLiteral hw, hf⟩
    have htag := (hstring.cuts.unique hopen htext).1
    cases htag
  | lineComment hw => exact .lineComment hw hf
  | blockComment hw => exact .blockComment hw
  | openComment hw =>
    have hr : r = [] := hf
    subst hr
    exact .unterminatedBlockComment hw
  | spelled h => exact .spelled h
  | unknown _ => exact .anyChar
  | bang => exact .anyChar

/-- **The rules find the longest match.** -/
theorem longest_iff {t : Tag} {w r : List Char} : Longest t w r ↔ Cuts t w r := by
  constructor
  · rintro ⟨hlang, hmax⟩
    obtain ⟨⟨t', w'⟩, hcut, hbounds⟩ := hlang.bounded
    obtain ⟨r', htext, hcuts⟩ : ∃ r', w ++ r = w' ++ r' ∧ Cuts t' w' r' := by
      have hne : w ++ r ≠ [] := by
        intro hnil
        rw [hnil] at hcut
        cases hcut
      obtain ⟨t'', w'', r', htext, hcuts⟩ := exists_cuts hne
      rw [htext, cut?_of_cuts hcuts, Option.some.injEq, Piece.mk.injEq] at hcut
      obtain ⟨rfl, rfl⟩ := hcut
      exact ⟨r', htext, hcuts⟩
    -- Each of the two is no longer than the other, and no tag gives way to the other.
    rcases hbounds with hlt | ⟨hlen, htag⟩
    · rcases hmax t' w' r' htext.symm (language_of_cuts hcuts) with h | ⟨h, -⟩
      · exact absurd hlt (Nat.lt_asymm h)
      · exact absurd h.symm (Nat.ne_of_lt hlt)
    · obtain ⟨rfl, rfl⟩ := List.append_inj htext hlen
      rcases hmax t' w r htext.symm (language_of_cuts hcuts) with h | ⟨-, htag'⟩
      · exact absurd h (Nat.lt_irrefl _)
      · have ht : t' = t := by
          rcases htag with h | h
          · exact h.symm
          · rcases htag' with h' | h'
            · exact h'
            · rw [h, h']
        exact ht ▸ hcuts
  · intro hcuts
    refine ⟨language_of_cuts hcuts, ?_⟩
    intro t' w' r' htext hlang
    obtain ⟨p, hcut, hbounds⟩ := hlang.bounded
    rw [htext, cut?_of_cuts hcuts, Option.some.injEq] at hcut
    subst hcut
    exact hbounds

theorem maximalMunch_iff {cs : List Char} {ps : List Piece} :
    MaximalMunch cs ps ↔ Segmented cs ps := by
  constructor
  · intro h
    induction h with
    | nil => exact .nil
    | cons hlong _ ih => exact .cons (longest_iff.mp hlong) ih
  · intro h
    induction h with
    | nil => exact .nil
    | cons hcuts _ ih => exact .cons (longest_iff.mpr hcuts) ih

/-- **The segments of a source are its one cut by maximal munch.** -/
theorem segments_eq_maximalMunch (s : Source) :
    ∃ ps, MaximalMunch s.text.toList ps ∧ (∀ qs, MaximalMunch s.text.toList qs → qs = ps) ∧
      s.segments = .ok (ps.map Piece.segment) := by
  obtain ⟨ps, hps⟩ := exists_segmented s.text.toList
  refine ⟨ps, maximalMunch_iff.mpr hps, ?_, Source.segments_of_segmented hps⟩
  intro qs hqs
  exact (maximalMunch_iff.mp hqs).unique hps

end Lexico.Munch
