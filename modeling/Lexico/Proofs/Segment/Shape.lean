import Lexico.Proofs.Segment.Piece
import Mathlib.Data.List.TakeWhile

/-!
# The shapes of pieces

`Shape t w` says what text a tag has, and `Follow t w r` what may stand behind it. Together they
characterize the first piece of a text:

    cut?_append_iff : cut? (w ++ r) = some ⟨t, w⟩ ↔ Cuts t w r

Only `Follow` looks past the text of a piece. How a change of one piece acts on its neighbours is
therefore a question about `Follow` alone.
-/

namespace Lexico.Piece

/-! ### Shapes -/

/-- The text of a string literal goes on through these characters: there is no line feed in it, and
no quote that is not escaped. -/
def Inside (escaped : Bool) : List Char → Prop
  | [] => True
  | c :: w => c ≠ '\n' ∧ (c = '"' → escaped = true) ∧ Inside (escapes escaped c) w

/-- The state of a string literal after some characters. -/
def escapedAfter (escaped : Bool) (w : List Char) : Bool := w.foldl escapes escaped

/-- The text that a piece with the tag may have. -/
inductive Shape : Tag → List Char → Prop
  | blanks {c w} : Text.isBlank c = true → (∀ x ∈ w, Text.isBlank x = true) →
      Shape .whitespace (c :: w)
  | loneReturn : Shape .whitespace ['\r']
  | lineFeed : Shape .newline ['\n']
  | returnLineFeed : Shape .newline ['\r', '\n']
  | word {c w} : Text.isWordStart c = true → (∀ x ∈ w, Text.isWordPart x = true) →
      Shape .ident (c :: w)
  | int {c w} : c.isDigit = true → (∀ x ∈ w, x.isDigit = true) → Shape .int (c :: w)
  | decimal {c w d v} : c.isDigit = true → (∀ x ∈ w, x.isDigit = true) → d.isDigit = true →
      (∀ x ∈ v, x.isDigit = true) → Shape .decimal (c :: w ++ '.' :: d :: v)
  | literal {w} : Inside false w → escapedAfter false w = false → Shape .string ('"' :: w ++ ['"'])
  | openLiteral {w} : Inside false w → Shape .unterminatedString ('"' :: w)
  | lineComment {w} : '\n' ∉ w → Shape .lineComment ('/' :: '/' :: w)
  | blockComment {w} : ¬ ['*', '/'] <:+: w ++ ['*'] →
      Shape .blockComment ('/' :: '*' :: w ++ ['*', '/'])
  | openComment {w} : ¬ ['*', '/'] <:+: w → Shape .unterminatedBlockComment ('/' :: '*' :: w)
  | spelled {t text} : t.spelling? = some text → Shape t text.toList
  | unknown {c} : Lead.ofChar c = .nul ∨ Lead.ofChar c = .other → Shape .unrecognizedChar [c]
  | bang : Shape .unrecognizedChar ['!']

/-- The text in front of `r` does not go on in the class. -/
def StopsBefore (q : Char → Bool) (r : List Char) : Prop := ∀ c, r.head? = some c → q c = false

/-- What may stand behind a piece. -/
def Follow (t : Tag) (w r : List Char) : Prop :=
  match t with
  | .whitespace => if w = ['\r'] then r.head? ≠ some '\n' else StopsBefore Text.isBlank r
  | .ident => StopsBefore Text.isWordPart r
  | .int => StopsBefore Char.isDigit r ∧ fraction r = []
  | .decimal => StopsBefore Char.isDigit r
  | .slash => r.head? ≠ some '/' ∧ r.head? ≠ some '*'
  | .equal | .less | .greater => r.head? ≠ some '='
  | .unrecognizedChar => w = ['!'] → r.head? ≠ some '='
  | .unterminatedString =>
    lineEnds r = true ∧ (r.head? = some '\n' → w.getLast? ≠ some '\r')
  | .lineComment => r = [] ∨ r.head? = some '\n'
  | .unterminatedBlockComment => r = []
  | _ => True

/-- The text `w` in front of `r` is one piece with the tag `t`. -/
def Cuts (t : Tag) (w r : List Char) : Prop := Shape t w ∧ Follow t w r

theorem Shape.of_spelling {t : Tag} {w : List Char} (h : t.spelling? = some (String.ofList w)) :
    Shape t w := by
  have := Shape.spelled h
  rwa [String.toList_ofList] at this

/-- A piece is not empty. -/
theorem Shape.ne_nil {t : Tag} {w : List Char} (h : Shape t w) : w ≠ [] := by
  cases h with
  | spelled h =>
    intro hnil
    rw [String.toList_eq_nil_iff] at hnil
    subst hnil
    cases t <;> simp [Tag.spelling?] at h
  | _ => simp

/-- No piece stands for the end of the text. -/
theorem Shape.ne_eof {t : Tag} {w : List Char} (h : Shape t w) : t ≠ .eof := by
  cases h with
  | spelled h => rintro rfl; cases h
  | _ => simp

/-! ### Runs of characters -/

theorem stopsBefore_nil {q : Char → Bool} : StopsBefore q [] := by
  intro c hc
  cases hc

theorem stopsBefore_cons {q : Char → Bool} {c : Char} (h : q c = false) (r : List Char) :
    StopsBefore q (c :: r) := by
  intro d hd
  cases hd
  exact h

theorem StopsBefore.takeWhile {q : Char → Bool} {r : List Char} (h : StopsBefore q r) :
    r.takeWhile q = [] := by
  cases r with
  | nil => rfl
  | cons c r => rw [List.takeWhile_cons_of_neg (by simp [h c rfl])]

theorem StopsBefore.dropWhile {q : Char → Bool} {r : List Char} (h : StopsBefore q r) :
    r.dropWhile q = r := by
  cases r with
  | nil => rfl
  | cons c r => rw [List.dropWhile_cons_of_neg (by simp [h c rfl])]

/-- A run stops where the class ends. -/
theorem takeWhile_run {q : Char → Bool} {w r : List Char} (hw : ∀ x ∈ w, q x = true)
    (hr : StopsBefore q r) : (w ++ r).takeWhile q = w := by
  rw [List.takeWhile_append_of_pos hw, hr.takeWhile, List.append_nil]

theorem dropWhile_run {q : Char → Bool} {w r : List Char} (hw : ∀ x ∈ w, q x = true)
    (hr : StopsBefore q r) : (w ++ r).dropWhile q = r := by
  rw [List.dropWhile_append_of_pos hw, hr.dropWhile]

/-- A text splits into a run and what stops it in one way. -/
theorem run_append_inj {q : Char → Bool} {w w' r r' : List Char} (hw : ∀ x ∈ w, q x = true)
    (hw' : ∀ x ∈ w', q x = true) (hr : StopsBefore q r) (hr' : StopsBefore q r')
    (h : w ++ r = w' ++ r') : w = w' ∧ r = r' := by
  have hrun : w = w' := by
    rw [← takeWhile_run hw hr, h, takeWhile_run hw' hr']
  subst hrun
  exact ⟨rfl, List.append_cancel_left h⟩

theorem stopsBefore_dropWhile (q : Char → Bool) (r : List Char) :
    StopsBefore q (r.dropWhile q) := by
  intro c hc
  have h := List.head?_dropWhile_not q r
  rw [hc] at h
  simpa using h

/-! ### Literals -/

theorem escapedAfter_cons (escaped : Bool) (c : Char) (w : List Char) :
    escapedAfter escaped (c :: w) = escapedAfter (escapes escaped c) w := rfl

/-- What stands last in a text with a character in front stood last before. -/
theorem last_ne_of_cons {c d : Char} {w : List Char} (h : (c :: w).getLast? ≠ some d) :
    w.getLast? ≠ some d := by
  intro hw
  apply h
  rw [List.getLast?_cons, hw]
  rfl

/-- Inside a literal there is no line feed. -/
theorem Inside.lineFeed_not_mem {escaped : Bool} {w : List Char} (h : Inside escaped w) :
    '\n' ∉ w := by
  induction w generalizing escaped with
  | nil => exact List.not_mem_nil
  | cons c w ih =>
    rw [List.mem_cons, not_or]
    exact ⟨Ne.symm h.1, ih h.2.2⟩

/-- Without a line feed no line ends, unless what follows ends it. -/
theorem lineEnds_cons_of_not_mem {c : Char} {w r : List Char} (hw : '\n' ∉ c :: w)
    (hr : w = [] → r.head? = some '\n' → c ≠ '\r') : lineEnds (c :: (w ++ r)) = false := by
  rw [List.mem_cons, not_or] at hw
  have hcr : c = '\r' → (w ++ r).head? ≠ some '\n' := by
    intro hc hhead
    cases w with
    | nil => exact hr rfl hhead hc
    | cons d w =>
      cases hhead
      exact hw.2 List.mem_cons_self
  simp only [lineEnds, Bool.or_eq_false_iff, beq_eq_false_iff_ne, Bool.and_eq_false_iff]
  refine ⟨Ne.symm hw.1, ?_⟩
  by_cases hc : c = '\r'
  · exact Or.inr (hcr hc)
  · exact Or.inl hc

/-- A literal is closed by the first quote that is not escaped. -/
theorem literalRest_closed {escaped : Bool} {w r : List Char} (hw : Inside escaped w)
    (hend : escapedAfter escaped w = false) :
    literalRest escaped (w ++ '"' :: r) = (true, w ++ ['"']) := by
  induction w generalizing escaped with
  | nil =>
    have hescaped : escaped = false := hend
    simp [literalRest, lineEnds, hescaped]
  | cons c w ih =>
    have hends : lineEnds (c :: (w ++ '"' :: r)) = false :=
      lineEnds_cons_of_not_mem hw.lineFeed_not_mem (fun _ h => by simp at h)
    have hquote : ¬ (c = '"' ∧ escaped = false) := by
      rintro ⟨hc, he⟩
      rw [hw.2.1 hc] at he
      cases he
    rw [List.cons_append, literalRest, hends, if_neg Bool.false_ne_true, if_neg hquote,
      ih hw.2.2 hend]
    rfl

/-- A literal is cut off where the line or the text ends. -/
theorem literalRest_open {escaped : Bool} {w r : List Char} (hw : Inside escaped w)
    (hr : lineEnds r = true) (hlast : r.head? = some '\n' → w.getLast? ≠ some '\r') :
    literalRest escaped (w ++ r) = (false, w) := by
  induction w generalizing escaped with
  | nil =>
    cases r with
    | nil => rfl
    | cons c r => rw [List.nil_append, literalRest, if_pos hr]
  | cons c w ih =>
    have hends : lineEnds (c :: (w ++ r)) = false := by
      apply lineEnds_cons_of_not_mem hw.lineFeed_not_mem
      intro hnil hhead hc
      subst hnil
      exact hlast hhead (by rw [hc]; rfl)
    have hquote : ¬ (c = '"' ∧ escaped = false) := by
      rintro ⟨hc, he⟩
      rw [hw.2.1 hc] at he
      cases he
    have hlast' : r.head? = some '\n' → w.getLast? ≠ some '\r' :=
      fun hhead => last_ne_of_cons (hlast hhead)
    rw [List.cons_append, literalRest, hends, if_neg Bool.false_ne_true, if_neg hquote,
      ih hw.2.2 hlast']

/-- What is left of a literal, by whether it is closed. -/
theorem literalRest_spec (escaped : Bool) (cs : List Char) :
    (∃ w r, cs = w ++ '"' :: r ∧ literalRest escaped cs = (true, w ++ ['"']) ∧
      Inside escaped w ∧ escapedAfter escaped w = false) ∨
    (∃ w r, cs = w ++ r ∧ literalRest escaped cs = (false, w) ∧ Inside escaped w ∧
      lineEnds r = true ∧ (r.head? = some '\n' → w.getLast? ≠ some '\r')) := by
  induction cs generalizing escaped with
  | nil => exact .inr ⟨[], [], rfl, rfl, trivial, rfl, by simp⟩
  | cons c cs ih =>
    rw [literalRest]
    split
    · next hends => exact .inr ⟨[], c :: cs, rfl, rfl, trivial, hends, by simp⟩
    next hends =>
    split
    · next hquote =>
      obtain ⟨rfl, rfl⟩ := hquote
      exact .inl ⟨[], cs, rfl, rfl, trivial, rfl⟩
    next hquote =>
    have hlf : c ≠ '\n' := by
      rintro rfl
      exact hends rfl
    -- No rule stopped at the character, so it is inside the literal.
    have hstep {w : List Char} (hw : Inside (escapes escaped c) w) : Inside escaped (c :: w) := by
      refine ⟨hlf, ?_, hw⟩
      intro hc
      cases he : escaped with
      | true => rfl
      | false => exact absurd ⟨hc, he⟩ hquote
    rcases ih (escapes escaped c) with
      ⟨w, r, rfl, hrest, hw, hend⟩ | ⟨w, r, rfl, hrest, hw, hr, hlast⟩
    · exact .inl ⟨c :: w, r, rfl, by rw [hrest]; rfl, hstep hw, hend⟩
    · refine .inr ⟨c :: w, r, rfl, by rw [hrest], hstep hw, hr, ?_⟩
      intro hhead
      cases w with
      | nil =>
        intro hc
        apply hends
        have hc : c = '\r' := by simpa using hc
        subst hc
        simp [lineEnds, hhead]
      | cons d w => rw [List.getLast?_cons_cons]; exact hlast hhead

/-! ### Comments -/

/-- A comment is closed by the first star and slash. -/
theorem commentRest_closed {w r : List Char} (hw : ¬ ['*', '/'] <:+: w ++ ['*']) :
    commentRest (w ++ '*' :: '/' :: r) = (true, w ++ ['*', '/']) := by
  induction w with
  | nil => rw [List.nil_append, commentRest, if_pos ⟨rfl, rfl⟩]; rfl
  | cons c w ih =>
    rw [List.cons_append, List.infix_cons_iff, not_or] at hw
    have hnot : ¬ (c = '*' ∧ (w ++ '*' :: '/' :: r).head? = some '/') := by
      rintro ⟨rfl, hhead⟩
      apply hw.1
      cases w with
      | nil => simp at hhead
      | cons d w =>
        have hd : d = '/' := by simpa using hhead
        subst hd
        exact ⟨w ++ ['*'], rfl⟩
    rw [List.cons_append, commentRest, if_neg hnot, ih hw.2]
    rfl

/-- A comment without an end takes everything. -/
theorem commentRest_open {w : List Char} (hw : ¬ ['*', '/'] <:+: w) :
    commentRest w = (false, w) := by
  induction w with
  | nil => rfl
  | cons c w ih =>
    rw [List.infix_cons_iff, not_or] at hw
    have hnot : ¬ (c = '*' ∧ w.head? = some '/') := by
      rintro ⟨rfl, hhead⟩
      obtain ⟨w, rfl⟩ := List.head?_eq_some_iff.mp hhead
      exact hw.1 ⟨w, rfl⟩
    rw [commentRest, if_neg hnot, ih hw.2]

/-- What is left of a comment, by whether it is closed. -/
theorem commentRest_spec (cs : List Char) :
    (∃ w r, cs = w ++ '*' :: '/' :: r ∧ commentRest cs = (true, w ++ ['*', '/']) ∧
      ¬ ['*', '/'] <:+: w ++ ['*']) ∨
    (commentRest cs = (false, cs) ∧ ¬ ['*', '/'] <:+: cs) := by
  induction cs with
  | nil => exact .inr ⟨rfl, by simp⟩
  | cons c cs ih =>
    rw [commentRest]
    split
    · next hc =>
      obtain ⟨rfl, hhead⟩ := hc
      obtain ⟨r, rfl⟩ := List.head?_eq_some_iff.mp hhead
      refine .inl ⟨[], r, rfl, rfl, ?_⟩
      intro h
      have := h.length_le
      simp at this
    · next hc =>
      -- The comment is not closed here: a star and slash in it are further on.
      have hcons {v : List Char} (hv : ¬ ['*', '/'] <:+: v) (hhead : c = '*' → v.head? ≠ some '/') :
          ¬ ['*', '/'] <:+: c :: v := by
        rw [List.infix_cons_iff, not_or]
        refine ⟨?_, hv⟩
        rintro ⟨v', h⟩
        rw [List.cons_append, List.cons_append, List.cons.injEq] at h
        exact hhead h.1.symm (by rw [← h.2]; rfl)
      rcases ih with ⟨w, r, rfl, hrest, hw⟩ | ⟨hrest, hw⟩
      · refine .inl ⟨c :: w, r, rfl, by rw [hrest]; rfl, hcons hw ?_⟩
        intro hstar hhead
        apply hc
        refine ⟨hstar, ?_⟩
        cases w with
        | nil => simp at hhead
        | cons d w => simpa using hhead
      · refine .inr ⟨by rw [hrest], hcons hw ?_⟩
        intro hstar hhead
        exact hc ⟨hstar, hhead⟩

/-! ### Numbers -/

/-- A fraction is a point and the digits after it. -/
theorem fraction_spec (r : List Char) :
    fraction r = [] ∨ ∃ d v r', r = '.' :: (d :: v ++ r') ∧ fraction r = d :: v ∧
      d.isDigit = true ∧ (∀ x ∈ v, x.isDigit = true) ∧ StopsBefore Char.isDigit r' := by
  cases r with
  | nil => exact .inl rfl
  | cons c r =>
    rw [fraction]
    split
    · next hc =>
      subst hc
      cases htake : r.takeWhile Char.isDigit with
      | nil => exact .inl rfl
      | cons d v =>
        have hdigits : ∀ x ∈ d :: v, x.isDigit = true := htake ▸ fun _ => List.mem_takeWhile_imp
        refine .inr ⟨d, v, r.dropWhile Char.isDigit, ?_, rfl, hdigits d (by simp), ?_,
          stopsBefore_dropWhile _ _⟩
        · rw [← htake, List.takeWhile_append_dropWhile]
        · intro x hx
          exact hdigits x (List.mem_cons_of_mem d hx)
    · exact .inl rfl

/-- A number by its whole part and what stands behind that. -/
theorem number_run {w r : List Char} (hw : ∀ x ∈ w, x.isDigit = true)
    (hr : StopsBefore Char.isDigit r) :
    number (w ++ r) =
      if fraction r = [] then ⟨.int, w⟩ else ⟨.decimal, w ++ '.' :: fraction r⟩ := by
  rw [number, takeWhile_run hw hr, dropWhile_run hw hr]

/-! ### The first piece -/

theorem start_of_starts {c : Char} {l : Lead} (hl : l ≠ .other) (h : Lead.Starts c l)
    (cs : List Char) : cut? (c :: cs) = some (start c cs l) := by
  rw [cut?, Lead.ofChar_of_starts hl h]

theorem cut?_spelled {t : Tag} {text : String} {r : List Char} (h : t.spelling? = some text)
    (hf : Follow t text.toList r) : cut? (text.toList ++ r) = some ⟨t, text.toList⟩ := by
  have hpair {c : Char} {alone : Tag} (joined : Tag) (hp : (c, alone, joined) ∈ Lead.pairs)
      (hr : r.head? ≠ some '=') : cut? ([c] ++ r) = some ⟨alone, [c]⟩ := by
    rw [List.singleton_append, start_of_starts (l := .paired alone joined) (by simp) hp, start,
      if_neg hr]
  cases t <;> simp only [Tag.spelling?, Option.some.injEq, reduceCtorEq] at h <;> subst h
  case slash =>
    show some (afterSlash r) = _
    rw [afterSlash, if_neg hf.1, if_neg hf.2]
    rfl
  case equal => exact hpair .equalEqual (by decide) hf
  case less => exact hpair .lessEqual (by decide) hf
  case greater => exact hpair .greaterEqual (by decide) hf
  all_goals rfl

theorem cut?_of_cuts {t : Tag} {w r : List Char} (h : Cuts t w r) :
    cut? (w ++ r) = some ⟨t, w⟩ := by
  obtain ⟨hshape, hf⟩ := h
  -- The first character of each shape selects its rule; what may follow stops the rule at `r`.
  cases hshape with
  | @blanks c w hc hw =>
    have hne : c :: w ≠ ['\r'] := by
      intro h
      rw [(List.cons.inj h).1] at hc
      cases hc
    have hr : StopsBefore Text.isBlank r := by simpa only [Follow, if_neg hne] using hf
    rw [List.cons_append, start_of_starts (l := .blank) (by simp) hc, start, takeWhile_run hw hr]
  | loneReturn =>
    have hr : r.head? ≠ some '\n' := hf
    rw [List.singleton_append, start_of_starts (l := .carriageReturn) (by simp) rfl, start,
      if_neg hr]
  | lineFeed => rfl
  | returnLineFeed => rfl
  | word hc hw =>
    rw [List.cons_append, start_of_starts (l := .word) (by simp) hc, start, takeWhile_run hw hf]
  | @int c w hc hw =>
    have hall : ∀ x ∈ c :: w, x.isDigit = true := List.forall_mem_cons.mpr ⟨hc, hw⟩
    rw [List.cons_append, start_of_starts (l := .digit) (by simp) hc, start, ← List.cons_append,
      number_run hall hf.1, if_pos hf.2]
  | @decimal c w d v hc hw hd hv =>
    have hall : ∀ x ∈ c :: w, x.isDigit = true := List.forall_mem_cons.mpr ⟨hc, hw⟩
    have hall' : ∀ x ∈ d :: v, x.isDigit = true := List.forall_mem_cons.mpr ⟨hd, hv⟩
    have hpoint : StopsBefore Char.isDigit ('.' :: (d :: v ++ r)) := stopsBefore_cons rfl _
    rw [show c :: w ++ '.' :: d :: v ++ r = c :: (w ++ '.' :: (d :: v ++ r)) by simp,
      start_of_starts (l := .digit) (by simp) hc, start, ← List.cons_append,
      number_run hall hpoint, fraction, if_pos rfl, takeWhile_run hall' hf, if_neg (by simp)]
  | @literal w hw hend =>
    rw [show '"' :: w ++ ['"'] ++ r = '"' :: (w ++ '"' :: r) by simp,
      start_of_starts (l := .quote) (by simp) rfl, start, literalRest_closed hw hend]
    rfl
  | @openLiteral w hw =>
    have hlast : r.head? = some '\n' → w.getLast? ≠ some '\r' :=
      fun hhead => last_ne_of_cons (hf.2 hhead)
    rw [List.cons_append, start_of_starts (l := .quote) (by simp) rfl, start,
      literalRest_open hw hf.1 hlast]
    rfl
  | @lineComment w hw =>
    have hall : ∀ x ∈ '/' :: w, (x != '\n') = true := by
      intro x hx
      simp only [bne_iff_ne]
      rintro rfl
      exact hw (by simpa using hx)
    have hr : StopsBefore (· != '\n') r := by
      intro c hc
      rcases hf with rfl | hhead
      · cases hc
      · rw [hhead] at hc
        cases hc
        rfl
    rw [List.cons_append, start_of_starts (l := .slash) (by simp) rfl, start, afterSlash,
      if_pos (by simp), takeWhile_run hall hr]
  | @blockComment w hw =>
    rw [show '/' :: '*' :: w ++ ['*', '/'] ++ r = '/' :: '*' :: (w ++ '*' :: '/' :: r) by simp,
      start_of_starts (l := .slash) (by simp) rfl, start, afterSlash, if_neg (by simp),
      if_pos (by simp), List.tail_cons, commentRest_closed hw]
    rfl
  | @openComment w hw =>
    have hr : r = [] := hf
    rw [hr, List.append_nil, start_of_starts (l := .slash) (by simp) rfl, start, afterSlash,
      if_neg (by simp), if_pos (by simp), List.tail_cons, commentRest_open hw]
    rfl
  | spelled h => exact cut?_spelled h hf
  | @unknown c h =>
    rcases h with h | h
    · rw [List.singleton_append, cut?, h, start]
    · rw [List.singleton_append, cut?, h, start]
  | bang =>
    have hr : r.head? ≠ some '=' := hf rfl
    rw [List.singleton_append,
      start_of_starts (l := .paired .unrecognizedChar .bangEqual) (by simp) (by decide), start,
      if_neg hr]

/-- A number at the start of a text is cut as its shape says. -/
theorem cuts_number {c : Char} (hc : c.isDigit = true) (cs : List Char) :
    ∃ r, c :: cs = (number (c :: cs)).text ++ r ∧
      Cuts (number (c :: cs)).tag (number (c :: cs)).text r := by
  have hsplit : c :: cs = c :: cs.takeWhile Char.isDigit ++ cs.dropWhile Char.isDigit := by
    rw [List.cons_append, List.takeWhile_append_dropWhile]
  have hstop := stopsBefore_dropWhile Char.isDigit cs
  rw [number, List.takeWhile_cons_of_pos hc, List.dropWhile_cons_of_pos hc]
  rcases fraction_spec (cs.dropWhile Char.isDigit) with hnone | ⟨d, v, r, hr, hsome, hd, hv, hstop'⟩
  · rw [hnone, if_pos rfl]
    exact ⟨_, hsplit, .int hc fun _ => List.mem_takeWhile_imp, hstop, hnone⟩
  · rw [hsome, if_neg (by simp)]
    refine ⟨r, ?_, .decimal hc (fun _ => List.mem_takeWhile_imp) hd hv, hstop'⟩
    rw [hsplit, hr]
    simp

theorem cuts_afterSlash (cs : List Char) :
    ∃ r, '/' :: cs = (afterSlash cs).text ++ r ∧
      Cuts (afterSlash cs).tag (afterSlash cs).text r := by
  rw [afterSlash]
  split
  · next hhead =>
    obtain ⟨cs, rfl⟩ := List.head?_eq_some_iff.mp hhead
    rw [List.takeWhile_cons_of_pos (by decide)]
    refine ⟨cs.dropWhile (· != '\n'), ?_, .lineComment ?_, ?_⟩
    · simp [List.takeWhile_append_dropWhile]
    · intro hmem
      have := List.mem_takeWhile_imp hmem
      simp at this
    · have hstop := stopsBefore_dropWhile (· != '\n') cs
      show _ = [] ∨ _
      cases hdrop : cs.dropWhile (· != '\n') with
      | nil => exact .inl rfl
      | cons d r =>
        have hd := hstop d (by rw [hdrop]; rfl)
        refine .inr ?_
        simpa using hd
  next hslash =>
  split
  · next hhead =>
    obtain ⟨cs, rfl⟩ := List.head?_eq_some_iff.mp hhead
    rw [List.tail_cons]
    rcases commentRest_spec cs with ⟨w, r, rfl, hrest, hw⟩ | ⟨hrest, hw⟩
    · rw [hrest, if_pos rfl]
      exact ⟨r, by simp, .blockComment hw, trivial⟩
    · rw [hrest, if_neg (by simp)]
      exact ⟨[], by simp, .openComment hw, rfl⟩
  · next hstar => exact ⟨cs, rfl, .of_spelling rfl, hslash, hstar⟩

/-- A literal without an end is cut where its line ends. -/
theorem cuts_openLiteral {w r : List Char} (hw : Inside false w) (hr : lineEnds r = true)
    (hlast : r.head? = some '\n' → w.getLast? ≠ some '\r') :
    Cuts .unterminatedString ('"' :: w) r := by
  refine ⟨.openLiteral hw, hr, ?_⟩
  intro hhead
  cases w with
  | nil => simp
  | cons d w => rw [List.getLast?_cons_cons]; exact hlast hhead

theorem cuts_quote (cs : List Char) :
    ∃ r, '"' :: cs = (start '"' cs .quote).text ++ r ∧
      Cuts (start '"' cs .quote).tag (start '"' cs .quote).text r := by
  rw [start]
  rcases literalRest_spec false cs with
    ⟨w, r, rfl, hrest, hw, hend⟩ | ⟨w, r, rfl, hrest, hw, hr, hlast⟩
  · rw [hrest, if_pos rfl]
    exact ⟨r, by simp, .literal hw hend, trivial⟩
  · rw [hrest, if_neg (by simp)]
    exact ⟨r, rfl, cuts_openLiteral hw hr hlast⟩

/-- An operator with an equals sign behind it. -/
theorem cuts_joined {c : Char} {alone joined : Tag} (h : (c, alone, joined) ∈ Lead.pairs)
    (r : List Char) : Cuts joined [c, '='] r := by
  simp only [Lead.pairs, List.mem_cons, Prod.mk.injEq, List.not_mem_nil, or_false] at h
  rcases h with ⟨rfl, -, rfl⟩ | ⟨rfl, -, rfl⟩ | ⟨rfl, -, rfl⟩ | ⟨rfl, -, rfl⟩
  · exact ⟨.of_spelling rfl, trivial⟩
  · exact ⟨.of_spelling rfl, trivial⟩
  · exact ⟨.of_spelling rfl, trivial⟩
  · exact ⟨.of_spelling rfl, trivial⟩

/-- An operator without an equals sign behind it; a lone exclamation mark is none. -/
theorem cuts_alone {c : Char} {alone joined : Tag} (h : (c, alone, joined) ∈ Lead.pairs)
    {r : List Char} (hr : r.head? ≠ some '=') : Cuts alone [c] r := by
  simp only [Lead.pairs, List.mem_cons, Prod.mk.injEq, List.not_mem_nil, or_false] at h
  rcases h with ⟨rfl, rfl, -⟩ | ⟨rfl, rfl, -⟩ | ⟨rfl, rfl, -⟩ | ⟨rfl, rfl, -⟩
  · exact ⟨.of_spelling rfl, hr⟩
  · exact ⟨.bang, fun _ => hr⟩
  · exact ⟨.of_spelling rfl, hr⟩
  · exact ⟨.of_spelling rfl, hr⟩

/-- Every rule cuts a piece as its shape says. -/
theorem cuts_start {c : Char} (cs : List Char) :
    ∃ r, c :: cs = (start c cs (Lead.ofChar c)).text ++ r ∧
      Cuts (start c cs (Lead.ofChar c)).tag (start c cs (Lead.ofChar c)).text r := by
  have hstarts := Lead.starts_ofChar c
  -- What a rule leaves over starts with a character at which the rule stopped.
  cases hl : Lead.ofChar c <;> rw [hl] at hstarts
  case nul =>
    refine ⟨cs, rfl, .unknown (.inl hl), ?_⟩
    intro hbang
    rw [Lead.Starts] at hstarts
    subst hstarts
    cases hbang
  case blank =>
    have hstop := stopsBefore_dropWhile Text.isBlank cs
    refine ⟨cs.dropWhile Text.isBlank, ?_, .blanks hstarts fun _ => List.mem_takeWhile_imp, ?_⟩
    · rw [start, List.cons_append, List.takeWhile_append_dropWhile]
    · rw [start, Follow, if_neg ?_]
      · exact hstop
      · intro h
        rw [Lead.Starts, (List.cons.inj h).1] at hstarts
        cases hstarts
  case carriageReturn =>
    rw [Lead.Starts] at hstarts
    subst hstarts
    rw [start]
    split
    · next hhead =>
      obtain ⟨cs, rfl⟩ := List.head?_eq_some_iff.mp hhead
      exact ⟨cs, rfl, .returnLineFeed, trivial⟩
    · next hhead => exact ⟨cs, rfl, .loneReturn, hhead⟩
  case lineFeed =>
    rw [Lead.Starts] at hstarts
    subst hstarts
    exact ⟨cs, rfl, .lineFeed, trivial⟩
  case word =>
    refine ⟨cs.dropWhile Text.isWordPart, ?_, .word hstarts fun _ => List.mem_takeWhile_imp,
      stopsBefore_dropWhile _ _⟩
    rw [start, List.cons_append, List.takeWhile_append_dropWhile]
  case digit => exact cuts_number hstarts cs
  case quote =>
    rw [Lead.Starts] at hstarts
    subst hstarts
    exact cuts_quote cs
  case slash =>
    rw [Lead.Starts] at hstarts
    subst hstarts
    exact cuts_afterSlash cs
  case single tag =>
    have hspelled : ∀ x ∈ Lead.singles, x.2.spelling? = some (String.ofList [x.1]) ∧
        x.2 ≠ .slash ∧ x.2 ≠ .equal ∧ x.2 ≠ .less ∧ x.2 ≠ .greater := by decide
    obtain ⟨hspell, hslash, hequal, hless, hgreater⟩ := hspelled _ hstarts
    refine ⟨cs, rfl, .of_spelling hspell, ?_⟩
    simp only [start]
    cases tag <;> trivial
  case paired alone joined =>
    rw [start]
    split
    · next hhead =>
      obtain ⟨cs, rfl⟩ := List.head?_eq_some_iff.mp hhead
      exact ⟨cs, rfl, cuts_joined hstarts cs⟩
    · next hhead => exact ⟨cs, rfl, cuts_alone hstarts hhead⟩
  case other =>
    refine ⟨cs, rfl, .unknown (.inr hl), ?_⟩
    intro hbang
    cases hbang
    cases hl

/-- **The first piece of a text**: its text has the shape of its tag, and what follows may stand
behind it. -/
theorem cut?_append_iff {t : Tag} {w r : List Char} : cut? (w ++ r) = some ⟨t, w⟩ ↔ Cuts t w r := by
  constructor
  · intro h
    cases hw : w ++ r with
    | nil => rw [hw] at h; cases h
    | cons c cs =>
      rw [hw, cut?, Option.some.injEq] at h
      obtain ⟨r', hsplit, hcuts⟩ := cuts_start (c := c) cs
      rw [h] at hsplit hcuts
      rw [← hw] at hsplit
      rwa [List.append_cancel_left hsplit]
  · exact cut?_of_cuts

/-- Every text but the empty one has a first piece. -/
theorem exists_cuts {cs : List Char} (h : cs ≠ []) : ∃ t w r, cs = w ++ r ∧ Cuts t w r := by
  cases cs with
  | nil => exact absurd rfl h
  | cons c cs =>
    obtain ⟨r, hsplit, hcuts⟩ := cuts_start (c := c) cs
    exact ⟨_, _, r, hsplit, hcuts⟩

/-- A text has one first piece. -/
theorem Cuts.unique {t t' : Tag} {w w' r r' : List Char} (h : Cuts t w r) (h' : Cuts t' w' r')
    (htext : w ++ r = w' ++ r') : t = t' ∧ w = w' ∧ r = r' := by
  have hcut := cut?_of_cuts h
  rw [htext, cut?_of_cuts h', Option.some.injEq, Piece.mk.injEq] at hcut
  obtain ⟨rfl, rfl⟩ := hcut
  exact ⟨rfl, rfl, List.append_cancel_left htext⟩

end Lexico.Piece
