import Lexico.Proofs.Scanner.Reading
import Lexico.Proofs.Segment.Follow

/-!
# Lexemes alone

What ends a token in the middle of a text, the end of the text does as well. A lexeme taken out of a
source and analyzed as a source of its own is therefore the same token again, with the same error if
there was one; what a token is depends on its lexeme and on nothing around it.
-/

namespace Lexico

/-! ### Pieces at the end of a text -/

namespace Piece

/-- The end of a text stops whatever stops somewhere. -/
theorem stops_nil (r : List Char) : Stops r [] where
  head _ h := by cases h
  fraction _ := rfl
  lineEnds _ := rfl
  lineFeed _ := .inl rfl

/-- A token is cut in the same way at the end of a text. -/
theorem Cuts.at_end {t : Tag} {w r : List Char} (h : Cuts t w r) (ht : t.isTrivia = false) :
    Cuts t w [] :=
  ⟨h.1, h.2.imp (stops_nil r) ht (fun _ => rfl) nofun⟩

end Piece

/-! ### The error of a token -/

/-- The error that is recorded for the token at an index: the error tokens have one each, in their
order. -/
def Analysis.errorAt? (a : Analysis) (i : Nat) : Option LexicalError :=
  match a.tokens[i]? with
  | some t => if t.isError then a.errors[(a.tokens.take i).countP Token.isError]? else none
  | none => none

/-- The token at the start of a text. -/
def Token.atStart (t : Token) : Token := { t with position := .start }

/-- The error at the start of a text. -/
def LexicalError.atStart (e : LexicalError) : LexicalError := { e with position := .start }

theorem Reads.isError_token {u r : List Char} {xs : List Occurrence} (h : Reads u r xs) :
    ∀ o ∈ xs, o.token.isError = o.error?.isSome := by
  intro o ho
  obtain ⟨r', -, hcuts, ht⟩ := h.cuts_of_mem ho
  rw [Occurrence.isError_token ht hcuts.1.ne_eof, Occurrence.isSome_error?]

/-- The error recorded for a token is what is wrong with its occurrence. -/
theorem Reads.errorAt?_eq {u r : List Char} {xs : List Occurrence} (h : Reads u r xs) {i : Nat}
    {o : Occurrence} (ho : xs[i]? = some o) :
    (⟨xs.map Occurrence.token, xs.filterMap Occurrence.error?⟩ : Analysis).errorAt? i =
      o.error? := by
  obtain ⟨front, back, rfl, rfl⟩ : ∃ front back, xs = front ++ o :: back ∧ front.length = i := by
    obtain ⟨hi, rfl⟩ := List.getElem?_eq_some_iff.mp ho
    refine ⟨xs.take i, xs.drop (i + 1), ?_, List.length_take_of_le (Nat.le_of_lt hi)⟩
    rw [List.getElem_cons_drop, List.take_append_drop]
  -- As many errors are recorded before as there are error tokens in front.
  have hcount : (((front ++ o :: back).map Occurrence.token).take front.length).countP
      Token.isError = (front.filterMap Occurrence.error?).length := by
    rw [← List.map_take, List.take_left, List.countP_map, List.length_filterMap_eq_countP]
    apply List.countP_congr
    intro o' ho'
    rw [← h.isError_token o' (List.mem_append_left _ ho')]
    rfl
  rw [Analysis.errorAt?, List.getElem?_map, ho]
  show (if o.token.isError then _ else none) = _
  rw [hcount, h.isError_token o (List.mem_of_getElem? ho)]
  cases herr : o.error? with
  | none => rfl
  | some e =>
    show ((front ++ o :: back).filterMap Occurrence.error?)[_]? = _
    rw [List.filterMap_append, List.filterMap_cons_some herr,
      List.getElem?_append_right (Nat.le_refl _), Nat.sub_self]
    rfl

/-! ### Lexemes as sources -/

/-- The lexeme of an occurrence is the same token when it stands alone. -/
theorem Occurrence.analyze_alone {o : Occurrence} {r : List Char}
    (hcuts : Piece.Cuts o.tag o.text r) (ht : o.tag.isTrivia = false) {l : Source}
    (hl : l.text = o.lexeme) :
    l.analyze = .ok ⟨[o.token.atStart], (o.error?.map LexicalError.atStart).toList⟩ := by
  have htext : l.text.toList = o.text := by rw [hl, lexeme, String.toList_ofList]
  have hread : Reads [] ([] ++ (o.text ++ [])) [⟨o.tag, o.text, []⟩] :=
    .next gap_nil (hcuts.at_end ht) ht (.done gap_nil)
  rw [List.nil_append, List.append_nil] at hread
  have htoken : Occurrence.token ⟨o.tag, o.text, []⟩ = o.token.atStart := by
    rw [token, position, Position.after_nil]
    rfl
  have herror : Occurrence.error? ⟨o.tag, o.text, []⟩ = o.error?.map LexicalError.atStart := by
    rw [error?, error?, Option.map_map, position, Position.after_nil]
    rfl
  rw [Source.analyze_of_reads (by rwa [htext]), List.map_singleton, htoken, List.filterMap_cons,
    herror]
  cases o.error?.map LexicalError.atStart <;> rfl

theorem Occurrence.position_error? {o : Occurrence} {e : LexicalError} (h : o.error? = some e) :
    e.position = o.position := by
  obtain ⟨cause, -, rfl⟩ := Option.map_eq_some_iff.mp h
  rfl

/-- **Lexemes are self-contained.** A lexeme analyzed alone is one token, with the kind and the
lexeme that it had, and the error recorded for it, if any, is recorded again; both are at the start.
So tokens with the same lexeme, in whatever sources, have the same kind. -/
theorem analyze_lexeme (s : Source) :
    ∃ a, s.analyze = .ok a ∧ ∀ i t, a.tokens[i]? = some t →
      (a.errorAt? i).isSome = t.isError ∧ (∀ e ∈ a.errorAt? i, e.position = t.position) ∧
      (∃ l : Source, l.text = t.lexeme ∧ l.analyze =
        .ok ⟨[t.atStart], ((a.errorAt? i).map LexicalError.atStart).toList⟩) ∧
      ∀ s' a', Source.analyze s' = .ok a' → ∀ t' ∈ a'.tokens, t'.lexeme = t.lexeme →
        t'.kind = t.kind := by
  obtain ⟨xs, hxs⟩ := exists_reads [] s.text.toList
  refine ⟨_, Source.analyze_of_reads hxs, ?_⟩
  intro i t ht
  rw [List.getElem?_map, Option.map_eq_some_iff] at ht
  obtain ⟨o, ho, rfl⟩ := ht
  have hmem := List.mem_of_getElem? ho
  obtain ⟨r, htext, hcuts, ht⟩ := hxs.cuts_of_mem hmem
  obtain ⟨l, hl⟩ := Source.exists_stretch htext
  have hanalyze := Occurrence.analyze_alone hcuts ht hl
  rw [hxs.errorAt?_eq ho]
  refine ⟨(hxs.isError_token o hmem).symm, fun e he => Occurrence.position_error? he,
    ⟨l, hl, hanalyze⟩, ?_⟩
  intro s' a' ha' t' ht' hlexeme
  -- The other token is read from the same lexeme.
  obtain ⟨ys, hys⟩ := exists_reads [] s'.text.toList
  rw [Source.analyze_of_reads hys, Except.ok.injEq] at ha'
  subst ha'
  obtain ⟨o', ho', rfl⟩ := List.mem_map.mp ht'
  obtain ⟨r', -, hcuts', ht'⟩ := hys.cuts_of_mem ho'
  have hsame := Occurrence.analyze_alone hcuts' ht' (hl.trans hlexeme.symm)
  rw [hanalyze, Except.ok.injEq, Analysis.mk.injEq] at hsame
  exact (congrArg Token.kind (List.cons.inj hsame.1).1).symm

/-- A literal that its line leaves open behind a backslash is open in the same way when it stands
alone. -/
theorem analyze_lexeme_backslash :
    let s : Source := ⟨"!1\n \"a\\\r\n", by decide⟩
    let t : Token := ⟨.error, "\"a\\", ⟨2, 2⟩⟩
    ∃ a, s.analyze = .ok a ∧ a.tokens[2]? = some t ∧
      a.errorAt? 2 = some ⟨.unterminatedString, t.position⟩ ∧
      ∃ l : Source, l.text = t.lexeme ∧
        l.analyze = .ok ⟨[t.atStart], [⟨.unterminatedString, .start⟩]⟩ := by
  intro s t
  obtain ⟨a, ha, hall⟩ := analyze_lexeme s
  have heval : s.analyze.toOption =
      some ⟨[⟨.error, "!", ⟨1, 1⟩⟩, ⟨.integerLiteral, "1", ⟨1, 2⟩⟩, t],
        [⟨.unrecognizedChar '!', ⟨1, 1⟩⟩, ⟨.unterminatedString, ⟨2, 2⟩⟩]⟩ := by
    decide +kernel
  rw [ha] at heval
  cases heval
  obtain ⟨-, -, hlexeme, -⟩ := hall 2 t rfl
  exact ⟨_, ha, rfl, by decide, hlexeme⟩

end Lexico
