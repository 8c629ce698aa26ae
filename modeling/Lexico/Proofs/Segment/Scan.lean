import Lexico.Proofs.Segment.Piece
import Lexico.Proofs.Source.Cursor

/-!
# A scan cuts the first piece

Behind leading characters `u` and in front of `r`, a scan cuts the first piece of `r`, or is at the
end when `r` is empty:

    scan_after : s.text.toList = u ++ r → (s.after u).scan = .ok (scanned s u r)

so no scan faults, and what is cut depends on nothing in front of the cursor.
-/

namespace Lexico

namespace Fault

@[simp] theorem ok_bind {α β : Type} (a : α) (f : α → Except Fault β) :
    (Except.ok a : Except Fault α) >>= f = f a := rfl

@[simp] theorem pure_eq_ok {α : Type} (a : α) : (pure a : Except Fault α) = .ok a := rfl

end Fault

namespace Cursor

variable {s : Source} {u r : List Char}

/-- The tag of a piece and the cursor behind it. -/
def passed (s : Source) (u : List Char) (p : Piece) : Tag × Cursor := (p.tag, s.after (u ++ p.text))

theorem eq_lineFeed_iff (r : List Char) : Byte.first r = Byte.lineFeed ↔ r.head? = some '\n' :=
  Byte.first_eq_iff (a := '\n') rfl (by decide) r

/-! ### The rules but the one for strings -/

theorem scanNul_nil (h : s.text.toList = u) : (s.after u).scanNul = .ok (.eof, s.after u) := by
  have heof := isEof_after (u := u) (r := []) (by rw [h, List.append_nil])
  simp [scanNul, heof]

theorem scanNul_cons (h : s.text.toList = u ++ '\x00' :: r) :
    (s.after u).scanNul = .ok (passed s u (.start '\x00' r .nul)) := by
  have hmove := advance_one_after rfl h
  simp [scanNul, isEof_after h, hmove, passed, Piece.start]

theorem eatBlanks_after {c : Char} (hc : Text.isBlank c = true) (h : s.text.toList = u ++ c :: r) :
    (s.after u).eatBlanks = .ok (s.after (u ++ c :: r.takeWhile Text.isBlank)) := by
  rw [eatBlanks, eatWhile_after Byte.Class.blank rfl h, List.takeWhile_cons_of_pos hc]

theorem scanCarriageReturn_after (h : s.text.toList = u ++ '\r' :: r) :
    (s.after u).scanCarriageReturn = .ok (passed s u (.start '\r' r .carriageReturn)) := by
  have hmove := advance_one_after rfl h
  have hlook : (s.after (u ++ ['\r'])).current = .ok (Byte.first r) := current_after (by simp [h])
  simp only [scanCarriageReturn, hmove, hlook, Fault.ok_bind, eq_lineFeed_iff, Piece.start]
  split
  · next hr =>
    obtain ⟨r', rfl⟩ := List.head?_eq_some_iff.mp hr
    have hmove' : (s.after (u ++ ['\r'])).advance 1 = .ok (s.after (u ++ ['\r'] ++ ['\n'])) :=
      advance_one_after (r := r') rfl (by simp [h])
    simp [hmove', passed]
  · rfl

theorem scanWord_after {c : Char} (hc : Text.isWordStart c = true)
    (h : s.text.toList = u ++ c :: r) :
    (s.after u).scanWord = .ok (passed s u (.start c r .word)) := by
  have hmove := advance_one_after (Lead.size_of_starts (l := .word) (by decide) hc) h
  have hrest : (s.after (u ++ [c])).eatWhile Byte.isWordPart =
      .ok (s.after (u ++ [c] ++ r.takeWhile Text.isWordPart)) :=
    eatWhile_after Byte.Class.wordPart rfl (by simp [h])
  simp [scanWord, hmove, hrest, passed, Piece.start]

theorem scanNumber_after (h : s.text.toList = u ++ r) :
    (s.after u).scanNumber = .ok (passed s u (.number r)) := by
  have hwhole := eatWhile_after Byte.Class.digit rfl h
  have hsplit : s.text.toList = u ++ r.takeWhile Char.isDigit ++ r.dropWhile Char.isDigit := by
    rw [List.append_assoc, List.takeWhile_append_dropWhile, h]
  have hlook := current_after hsplit
  have hpoint : Byte.first (r.dropWhile Char.isDigit) = Byte.point ↔
      (r.dropWhile Char.isDigit).head? = some '.' :=
    Byte.first_eq_iff (a := '.') rfl (by decide) _
  simp only [scanNumber, hwhole, hlook, Fault.ok_bind, hpoint, Piece.number, passed]
  generalize r.takeWhile Char.isDigit = whole at *
  split
  · next hr =>
    obtain ⟨r', hr'⟩ := List.head?_eq_some_iff.mp hr
    rw [hr'] at hsplit
    have hpeek := peek_after (c := '.') rfl hsplit
    simp only [hpeek, Fault.ok_bind, hr', Piece.fraction, if_pos]
    -- A point belongs to the number when there is a digit behind it.
    cases r' with
    | nil => rfl
    | cons d r' =>
      rw [Byte.Class.digit.first]
      cases hd : d.isDigit with
      | false => simp [hd]
      | true =>
        have hmove := advance_one_after (c := '.') rfl hsplit
        have hdigits : (s.after (u ++ whole ++ ['.'])).eatWhile Byte.isDigit =
            .ok (s.after (u ++ whole ++ ['.'] ++ (d :: r').takeWhile Char.isDigit)) :=
          eatWhile_after Byte.Class.digit rfl (by simp [hsplit])
        rw [if_pos rfl, hmove, Fault.ok_bind, hdigits, Fault.ok_bind]
        simp [hd]
  · next hr =>
    have hnone : Piece.fraction (r.dropWhile Char.isDigit) = [] := by
      cases hdrop : r.dropWhile Char.isDigit with
      | nil => rfl
      | cons d r' =>
        rw [hdrop] at hr
        rw [Piece.fraction, if_neg (by simpa using hr)]
    simp [hnone]

theorem scanPaired_after {c : Char} {alone joined : Tag} (hc : c.utf8Size = 1)
    (h : s.text.toList = u ++ c :: r) :
    (s.after u).scanPaired alone joined = .ok (passed s u (.start c r (.paired alone joined))) := by
  have hmove := advance_one_after hc h
  have hlook : (s.after (u ++ [c])).current = .ok (Byte.first r) := current_after (by simp [h])
  have hequal : Byte.first r = Byte.equal ↔ r.head? = some '=' :=
    Byte.first_eq_iff (a := '=') rfl (by decide) r
  simp only [scanPaired, hmove, hlook, Fault.ok_bind, hequal, Piece.start]
  split
  · next hr =>
    obtain ⟨r', rfl⟩ := List.head?_eq_some_iff.mp hr
    have hmove' : (s.after (u ++ [c])).advance 1 = .ok (s.after (u ++ [c] ++ ['='])) :=
      advance_one_after (r := r') rfl (by simp [h])
    simp [hmove', passed]
  · rfl

/-! ### Comments -/

/-- The bytes of a star and a slash in a row are those characters. Only a star has a byte that is a
star, so the pair does not start inside a character. -/
theorem star_slash_of_byteAt {c : Char} {k : Nat} (h : s.text.toList = u ++ c :: r)
    (hk : k < c.utf8Size)
    (hstar : (Buffer.ofSource s).byteAt (byteLength u + k) = Byte.star)
    (hslash : (Buffer.ofSource s).byteAt (byteLength u + k + 1) = Byte.slash) :
    c = '*' ∧ r.head? = some '/' := by
  have hmem := byteAt_mem_utf8EncodeChar h hk
  rw [hstar] at hmem
  have hc : c = '*' := by
    apply Classical.byContradiction
    intro hne
    have hclass : Byte.Class (· == Byte.star) (· == '*') := Byte.Class.only (a := '*') rfl
    have := hclass.of_mem (c := c) (by simpa using hne) _ hmem
    simp at this
  subst hc
  have hk0 : k = 0 := Nat.lt_one_iff.mp hk
  subst hk0
  have hbyte := byteAt_eq_first (s := s) (u := u ++ ['*']) (r := r) (by simp [h])
  rw [byteLength_append] at hbyte
  refine ⟨rfl, ?_⟩
  rw [← Byte.first_eq_iff (a := '/') rfl (by decide), ← hbyte]
  exact hslash

/-- The search for the end of a block comment goes to the first star and slash. -/
theorem findPair?_of_toList (h : s.text.toList = u ++ r) :
    (Buffer.ofSource s).findPair? Byte.star Byte.slash (byteLength u)
        (Buffer.ofSource s).sourceLen =
      if (Piece.commentRest r).1 then some (byteLength (u ++ (Piece.commentRest r).2) - 2)
      else none := by
  induction r generalizing u with
  | nil =>
    have hstop := sourceLen_eq_of_toList h
    rw [byteLength_nil, Nat.add_zero] at hstop
    rw [Buffer.findPair?, if_neg (by omega)]
    rfl
  | cons c r ih =>
    have hstop := sourceLen_eq_of_toList h
    rw [byteLength_cons] at hstop
    have hfirst : (Buffer.ofSource s).byteAt (byteLength u) = Byte.star ↔ c = '*' := by
      rw [byteAt_eq_first h, show Byte.star = Byte.ofAscii '*' from rfl,
        Byte.first_eq_iff (a := '*') rfl (by decide), List.head?_cons, Option.some.injEq]
    by_cases hc : c = '*' ∧ r.head? = some '/'
    · obtain ⟨rfl, hr⟩ := hc
      obtain ⟨r', rfl⟩ := List.head?_eq_some_iff.mp hr
      have hsecond : (Buffer.ofSource s).byteAt (byteLength u + 1) = Byte.slash := by
        have hbyte := byteAt_eq_first (s := s) (u := u ++ ['*']) (r := '/' :: r') (by simp [h])
        rw [byteLength_append] at hbyte
        exact hbyte
      rw [byteLength_cons] at hstop
      have hstar : '*'.utf8Size = 1 := rfl
      have hslash : '/'.utf8Size = 1 := rfl
      have hclosed : Piece.commentRest ('*' :: '/' :: r') = (true, ['*', '/']) := by
        rw [Piece.commentRest, if_pos ⟨rfl, hr⟩]
      rw [hclosed, Buffer.findPair?, if_pos (by omega), if_pos (by simp [hfirst.mpr rfl, hsecond])]
      simp [hstar, hslash]
    · have hskip : ∀ k < c.utf8Size,
          ¬ ((Buffer.ofSource s).byteAt (byteLength u + k) = Byte.star ∧
            (Buffer.ofSource s).byteAt (byteLength u + k + 1) = Byte.slash) := by
        rintro k hk ⟨hstar, hslash⟩
        exact hc (star_slash_of_byteAt h hk hstar hslash)
      have hnext := ih (u := u ++ [c]) (by simp [h])
      rw [byteLength_append, byteLength_cons, byteLength_nil, Nat.add_zero] at hnext
      rw [Buffer.findPair?_skip c.utf8Size hskip, hnext, Piece.commentRest, if_neg hc]
      simp

/-- A closed comment ends with the two bytes that close it. -/
theorem two_le_of_commentRest (h : (Piece.commentRest r).1 = true) :
    2 ≤ byteLength (Piece.commentRest r).2 := by
  induction r with
  | nil => cases h
  | cons c r ih =>
    rw [Piece.commentRest] at h ⊢
    split
    · exact Nat.le_refl _
    · next hc =>
      rw [if_neg hc] at h
      have := ih h
      simp only [byteLength_cons]
      omega

/-- Without an end, a comment takes the rest of the text. -/
theorem commentRest_of_open (h : (Piece.commentRest r).1 = false) :
    (Piece.commentRest r).2 = r := by
  induction r with
  | nil => rfl
  | cons c r ih =>
    rw [Piece.commentRest] at h ⊢
    split
    · next hc => rw [if_pos hc] at h; cases h
    · next hc =>
      rw [if_neg hc] at h
      exact congrArg (c :: ·) (ih h)

theorem pastCommentEnd_after (h : s.text.toList = u ++ r) :
    (s.after u).pastCommentEnd =
      .ok ((Piece.commentRest r).1, s.after (u ++ (Piece.commentRest r).2)) := by
  have hlen : (s.after u).sourceLen = byteLength u + byteLength r := sourceLen_eq_of_toList h
  have hle : (s.after u).offset ≤ (s.after u).sourceLen := by
    rw [hlen]
    exact Nat.le_add_right _ _
  have hfind := findPair?_of_toList h
  rw [pastCommentEnd, if_pos hle, hlen, Source.after]
  rw [sourceLen_eq_of_toList h] at hfind
  simp only [hfind]
  cases hclosed : (Piece.commentRest r).1 with
  | true =>
    have := two_le_of_commentRest hclosed
    rw [if_pos rfl, byteLength_append]
    simp only [Source.after, byteLength_append]
    congr 3
    omega
  | false =>
    rw [if_neg Bool.false_ne_true, commentRest_of_open hclosed, Source.after, byteLength_append]

theorem scanSlash_after (h : s.text.toList = u ++ '/' :: r) :
    (s.after u).scanSlash = .ok (passed s u (.afterSlash r)) := by
  have hmove := advance_one_after rfl h
  have hlook : (s.after (u ++ ['/'])).current = .ok (Byte.first r) := current_after (by simp [h])
  have hslash : Byte.first r = Byte.slash ↔ r.head? = some '/' :=
    Byte.first_eq_iff (a := '/') rfl (by decide) r
  have hstar : Byte.first r = Byte.star ↔ r.head? = some '*' :=
    Byte.first_eq_iff (a := '*') rfl (by decide) r
  simp only [scanSlash, hmove, hlook, Fault.ok_bind, hslash, hstar, Piece.afterSlash]
  split
  · next hr =>
    obtain ⟨r', rfl⟩ := List.head?_eq_some_iff.mp hr
    have hmove' : (s.after (u ++ ['/'])).advance 1 = .ok (s.after (u ++ ['/'] ++ ['/'])) :=
      advance_one_after (r := r') rfl (by simp [h])
    have hline := eatLine_after (u := u ++ ['/'] ++ ['/']) (r := r') (s := s) (by simp [h])
    rw [hmove', Fault.ok_bind, hline]
    simp [passed]
  split
  · next hr =>
    obtain ⟨r', rfl⟩ := List.head?_eq_some_iff.mp hr
    have hmove' : (s.after (u ++ ['/'])).advance 1 = .ok (s.after (u ++ ['/'] ++ ['*'])) :=
      advance_one_after (r := r') rfl (by simp [h])
    have hend := pastCommentEnd_after (u := u ++ ['/'] ++ ['*']) (r := r') (s := s) (by simp [h])
    rw [hmove', Fault.ok_bind, hend, List.tail_cons]
    cases (Piece.commentRest r').1 <;> simp [passed]
  · rfl

/-! ### String literals -/

theorem atLineEnd_after (h : s.text.toList = u ++ r) :
    (s.after u).atLineEnd = .ok (decide (r ≠ []) && Piece.lineEnds r) := by
  have hreturn : Byte.first r = Byte.carriageReturn ↔ r.head? = some '\r' :=
    Byte.first_eq_iff (a := '\r') rfl (by decide) r
  simp only [atLineEnd, current_after h, Fault.ok_bind, eq_lineFeed_iff, hreturn]
  cases r with
  | nil => rfl
  | cons c r =>
    simp only [List.head?_cons, Option.some.injEq]
    split
    · next hc => simp [hc, Piece.lineEnds]
    split
    · next hc =>
      subst hc
      have hlook : decide (Byte.first r = Byte.lineFeed) = (r.head? == some '\n') := by
        rw [Bool.eq_iff_iff, decide_eq_true_iff, beq_iff_eq, eq_lineFeed_iff]
      rw [peek_after rfl h, Fault.ok_bind, Fault.pure_eq_ok, hlook]
      simp [Piece.lineEnds]
    · next hlf hcr => simp [Piece.lineEnds, hlf, hcr]

/-- At the end of the line or the text a literal stops, escaped or not. -/
theorem literalRest_of_lineEnds (escaped : Bool) (h : Piece.lineEnds r = true) :
    Piece.literalRest escaped r = (false, []) := by
  cases r with
  | nil => rfl
  | cons c r => rw [Piece.literalRest, if_pos h]

theorem scanStringBody_of_closed {c d : Cursor} (h : c.stringStep = .ok (.closed d)) :
    c.scanStringBody = .ok (.string, d) := by
  rw [scanStringBody]
  split <;> simp_all

theorem scanStringBody_of_cut {c d : Cursor} (h : c.stringStep = .ok (.cut d)) :
    c.scanStringBody = .ok (.unterminatedString, d) := by
  rw [scanStringBody]
  split <;> simp_all

theorem scanStringBody_of_more {c d : Cursor} (h : c.stringStep = .ok (.more d)) :
    c.scanStringBody = d.scanStringBody := by
  rw [scanStringBody]
  split <;> simp_all

/-- Where the same step comes next, the same literal is left. -/
theorem scanStringBody_congr {c d : Cursor} (h : c.stringStep = d.stringStep) :
    c.scanStringBody = d.scanStringBody := by
  cases hd : d.stringStep with
  | error fault =>
    rw [scanStringBody, scanStringBody]
    split <;> split <;> simp_all
  | ok step =>
    cases step with
    | closed e => rw [scanStringBody_of_closed (h.trans hd), scanStringBody_of_closed hd]
    | cut e => rw [scanStringBody_of_cut (h.trans hd), scanStringBody_of_cut hd]
    | more e => rw [scanStringBody_of_more (h.trans hd), scanStringBody_of_more hd]

/-- A step passes characters that have no meaning in a literal. -/
theorem stringStep_plain {c : Char} (hc : Text.isStringDelimiter c = false)
    (h : s.text.toList = u ++ c :: r) :
    (s.after u).stringStep = (s.after (u ++ [c])).stringStep := by
  have hnext : s.text.toList = (u ++ [c]) ++ r := by simp [h]
  rw [stringStep, stringStep, toStringDelimiter_after h, toStringDelimiter_after hnext,
    List.takeWhile_cons_of_pos (by simp [hc]), List.dropWhile_cons_of_pos (by simp [hc])]
  simp

/-- At a character with a meaning the search stops at once. -/
theorem toStringDelimiter_here {c : Char} (hc : Text.isStringDelimiter c = true)
    (h : s.text.toList = u ++ c :: r) :
    (s.after u).toStringDelimiter = .ok (Byte.ofAscii c, s.after u) := by
  rw [toStringDelimiter_after h, List.takeWhile_cons_of_neg (by simp [hc]),
    List.dropWhile_cons_of_neg (by simp [hc]),
    Byte.first_of_ascii (Byte.Class.stringDelimiter.size hc), List.append_nil]

theorem stringStep_nil (h : s.text.toList = u) :
    (s.after u).stringStep = .ok (.cut (s.after u)) := by
  have hend := toStringDelimiter_after (s := s) (u := u) (r := []) (by rw [h, List.append_nil])
  rw [stringStep, hend]
  simp [Byte.nul, Byte.quote, Byte.backslash, Byte.carriageReturn]

theorem stringStep_quote (h : s.text.toList = u ++ '"' :: r) :
    (s.after u).stringStep = .ok (.closed (s.after (u ++ ['"']))) := by
  have hmove := advance_one_after rfl h
  rw [stringStep, toStringDelimiter_here rfl h, Fault.ok_bind]
  simp only
  rw [if_pos (by decide), hmove]
  rfl

theorem stringStep_lineFeed (h : s.text.toList = u ++ '\n' :: r) :
    (s.after u).stringStep = .ok (.cut (s.after u)) := by
  rw [stringStep, toStringDelimiter_here rfl h, Fault.ok_bind]
  rfl

theorem stringStep_carriageReturn (h : s.text.toList = u ++ '\r' :: r) :
    (s.after u).stringStep = if r.head? = some '\n' then .ok (.cut (s.after u))
      else .ok (.more (s.after (u ++ ['\r']))) := by
  have hmove := advance_one_after rfl h
  have hpeek := peek_after rfl h
  rw [stringStep, toStringDelimiter_here rfl h, Fault.ok_bind]
  simp only
  rw [if_neg (by decide), if_neg (by decide), if_pos (by decide), hpeek, Fault.ok_bind, hmove]
  simp only [eq_lineFeed_iff, Fault.ok_bind, Fault.pure_eq_ok]

/-- A backslash takes the next character along, but no line end. -/
theorem stringStep_backslash (h : s.text.toList = u ++ '\\' :: r) :
    (s.after u).stringStep =
      .ok (.more (s.after (u ++ '\\' :: if Piece.lineEnds r then [] else r.take 1))) := by
  have hmove := advance_one_after rfl h
  have hnext : s.text.toList = (u ++ ['\\']) ++ r := by simp [h]
  rw [stringStep, toStringDelimiter_here rfl h, Fault.ok_bind]
  simp only
  rw [if_neg (by decide), if_pos (by decide), hmove, Fault.ok_bind, atLineEnd_after hnext,
    Fault.ok_bind, isEof_after hnext, Fault.ok_bind]
  cases r with
  | nil => rfl
  | cons c r =>
    rw [advanceChar_after hnext]
    cases hends : Piece.lineEnds (c :: r) <;> simp

/-- The rest of a string literal is scanned as its characters say. -/
theorem scanStringBody_after (h : s.text.toList = u ++ r) :
    (s.after u).scanStringBody =
      .ok (if (Piece.literalRest false r).1 then .string else .unterminatedString,
        s.after (u ++ (Piece.literalRest false r).2)) := by
  -- A backslash may take two characters at once, so the induction is on the length.
  induction hn : r.length using Nat.strongRecOn generalizing u r with
  | ind n ih =>
    cases r with
    | nil =>
      rw [scanStringBody_of_cut (stringStep_nil (by rw [h, List.append_nil]))]
      simp [Piece.literalRest]
    | cons c r =>
      have hone : ∀ {v : List Char} {w : List Char}, s.text.toList = v ++ w → w.length ≤ r.length →
          (s.after v).scanStringBody =
            .ok (if (Piece.literalRest false w).1 then .string else .unterminatedString,
              s.after (v ++ (Piece.literalRest false w).2)) := by
        intro v w hv hw
        exact ih w.length (by rw [← hn, List.length_cons]; omega) hv rfl
      have hnext : s.text.toList = (u ++ [c]) ++ r := by simp [h]
      cases hc : Text.isStringDelimiter c with
      | false =>
        simp only [Text.isStringDelimiter, Bool.or_eq_false_iff, beq_eq_false_iff_ne] at hc
        have hplain : Piece.escapes false c = false := by simp [Piece.escapes, hc]
        rw [scanStringBody_congr (stringStep_plain (by simp [Text.isStringDelimiter, hc]) h),
          hone hnext (Nat.le_refl _), Piece.literalRest, hplain]
        simp [Piece.lineEnds, hc]
      | true =>
        simp only [Text.isStringDelimiter, Bool.or_eq_true, beq_iff_eq] at hc
        rcases hc with ((rfl | rfl) | rfl) | rfl
        · rw [scanStringBody_of_closed (stringStep_quote h)]
          simp [Piece.literalRest, Piece.lineEnds]
        · rw [scanStringBody_of_more (stringStep_backslash h), Piece.literalRest]
          -- At the end of the line a backslash takes nothing along.
          split
          · next hends =>
            rw [hone hnext (Nat.le_refl _), literalRest_of_lineEnds _ hends,
              literalRest_of_lineEnds _ hends]
            simp [Piece.lineEnds]
          · next hends =>
            cases r with
            | nil => exact absurd rfl hends
            | cons d r =>
              rw [List.take_succ_cons, List.take_zero,
                hone (v := u ++ ['\\', d]) (w := r) (by simp [h]) (Nat.le_succ _),
                Piece.literalRest, if_neg hends]
              simp [Piece.lineEnds, Piece.escapes]
        · rw [scanStringBody_of_cut (stringStep_lineFeed h)]
          simp [Piece.literalRest, Piece.lineEnds]
        · have hstep := stringStep_carriageReturn h
          split at hstep
          · next hr =>
            rw [scanStringBody_of_cut hstep]
            simp [Piece.literalRest, Piece.lineEnds, hr]
          · next hr =>
            rw [scanStringBody_of_more hstep, hone hnext (Nat.le_refl _), Piece.literalRest]
            simp [Piece.lineEnds, hr, Piece.escapes]

theorem scanString_after (h : s.text.toList = u ++ '"' :: r) :
    (s.after u).scanString = .ok (passed s u (.start '"' r .quote)) := by
  have hmove := advance_one_after rfl h
  rw [scanString, hmove, Fault.ok_bind, scanStringBody_after (r := r) (by simp [h])]
  simp [passed, Piece.start]

/-! ### Every rule -/

/-- What a scan in front of `r` gives. -/
def scanned (s : Source) (u r : List Char) : Tag × Cursor :=
  match Piece.cut? r with
  | none => (.eof, s.after u)
  | some p => passed s u p

/-- **A scan cuts the first piece**, and at the end of the text nothing. -/
theorem scan_after (h : s.text.toList = u ++ r) : (s.after u).scan = .ok (scanned s u r) := by
  cases r with
  | nil =>
    rw [scan, current_after h, Fault.ok_bind]
    exact scanNul_nil (by rw [h, List.append_nil])
  | cons c r =>
    have hstarts := Lead.starts_ofChar c
    rw [scan, current_after h, Fault.ok_bind, Lead.ofByte_first]
    simp only [scanned, Piece.cut?]
    cases hl : Lead.ofChar c <;> rw [hl] at hstarts
    case nul => subst hstarts; exact scanNul_cons h
    case blank => rw [eatBlanks_after hstarts h]; rfl
    case carriageReturn => subst hstarts; exact scanCarriageReturn_after h
    case lineFeed => subst hstarts; rw [advance_one_after rfl h]; rfl
    case word => exact scanWord_after hstarts h
    case digit => exact scanNumber_after h
    case quote => subst hstarts; exact scanString_after h
    case slash => subst hstarts; exact scanSlash_after h
    case single tag =>
      rw [advance_one_after (Lead.size_of_starts (l := .single tag) (by simp) hstarts) h]
      rfl
    case paired alone joined =>
      exact scanPaired_after (Lead.size_of_starts (l := .paired alone joined) (by simp) hstarts) h
    case other => rw [advanceChar_after h]; rfl

end Cursor
end Lexico
