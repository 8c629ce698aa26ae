import Lexico.Proofs.Segment.Scan
import Lexico.Proofs.Source.Audit
import Lexico.Segment.Basic

/-!
# Audited segments

Each rule for cutting in its audited form. It has the same result, and a cursor inside the text stays
inside it: no rule looks or moves past a byte before it has seen that the byte belongs to the text.
-/

namespace Lexico.Audit

open Audited (note lift Safe)
open Cursor (Inside On StringStep)

/-! ### The rules -/

/-- `Cursor.scanNul` -/
def scanNul (c : Cursor) : Audited (Tag × Cursor) := do
  if ← isEof c then return (.eof, c)
  else return (.unrecognizedChar, ← advance c 1)

/-- `Cursor.scanCarriageReturn` -/
def scanCarriageReturn (c : Cursor) : Audited (Tag × Cursor) := do
  let d ← advance c 1
  if (← current d) = Byte.lineFeed then return (.newline, ← advance d 1)
  else return (.whitespace, d)

/-- `Cursor.scanWord` -/
def scanWord (c : Cursor) : Audited (Tag × Cursor) := do
  let d ← advance c 1
  return (.ident, ← eatWhile d Byte.isWordPart)

/-- `Cursor.scanNumber` -/
def scanNumber (c : Cursor) : Audited (Tag × Cursor) := do
  let d ← eatWhile c Byte.isDigit
  if (← current d) = Byte.point then
    if Byte.isDigit (← peek d) then
      let e ← advance d 1
      return (.decimal, ← eatWhile e Byte.isDigit)
    else return (.int, d)
  else return (.int, d)

/-- `Cursor.scanPaired` -/
def scanPaired (alone joined : Tag) (c : Cursor) : Audited (Tag × Cursor) := do
  let d ← advance c 1
  if (← current d) = Byte.equal then return (joined, ← advance d 1)
  else return (alone, d)

/-- `Cursor.scanSlash` -/
def scanSlash (c : Cursor) : Audited (Tag × Cursor) := do
  let d ← advance c 1
  let b ← current d
  if b = Byte.slash then
    let e ← advance d 1
    return (.lineComment, ← eatLine e)
  else if b = Byte.star then
    let e ← advance d 1
    let (closed, e) ← pastCommentEnd e
    return (if closed then .blockComment else .unterminatedBlockComment, e)
  else return (.slash, d)

/-- `Cursor.atLineEnd` -/
def atLineEnd (c : Cursor) : Audited Bool := do
  let b ← current c
  if b = Byte.lineFeed then return true
  else if b = Byte.carriageReturn then return (← peek c) = Byte.lineFeed
  else return false

/-- `Cursor.stringStep` -/
def stringStep (c : Cursor) : Audited StringStep := do
  let (b, d) ← toStringDelimiter c
  if b = Byte.quote then return .closed (← advance d 1)
  else if b = Byte.backslash then
    let e ← advance d 1
    if ← atLineEnd e then return .more e
    else if ← isEof e then return .more e
    else return .more (← advanceChar e)
  else if b = Byte.carriageReturn then
    if (← peek d) = Byte.lineFeed then return .cut d
    else return .more (← advance d 1)
  else return .cut d

/-! ### The results are the same -/

@[simp] theorem result_scanNul (c : Cursor) : (scanNul c).result = c.scanNul := by
  simp [scanNul, Cursor.scanNul]

@[simp] theorem result_scanCarriageReturn (c : Cursor) :
    (scanCarriageReturn c).result = c.scanCarriageReturn := by
  simp [scanCarriageReturn, Cursor.scanCarriageReturn]

@[simp] theorem result_scanWord (c : Cursor) : (scanWord c).result = c.scanWord := by
  simp [scanWord, Cursor.scanWord]

@[simp] theorem result_scanNumber (c : Cursor) : (scanNumber c).result = c.scanNumber := by
  simp [scanNumber, Cursor.scanNumber]

@[simp] theorem result_scanPaired (alone joined : Tag) (c : Cursor) :
    (scanPaired alone joined c).result = c.scanPaired alone joined := by
  simp [scanPaired, Cursor.scanPaired]

@[simp] theorem result_scanSlash (c : Cursor) : (scanSlash c).result = c.scanSlash := by
  simp [scanSlash, Cursor.scanSlash]

@[simp] theorem result_atLineEnd (c : Cursor) : (atLineEnd c).result = c.atLineEnd := by
  simp [atLineEnd, Cursor.atLineEnd]

@[simp] theorem result_stringStep (c : Cursor) : (stringStep c).result = c.stringStep := by
  simp [stringStep, Cursor.stringStep]

/-! ### Literals and segments -/

/-- `Cursor.scanStringBody` -/
def scanStringBody (c : Cursor) : Audited (Tag × Cursor) := do
  match ← (stringStep c).attach with
  | ⟨.closed d, _⟩ => return (.string, d)
  | ⟨.cut d, _⟩ => return (.unterminatedString, d)
  | ⟨.more d, h⟩ =>
    have := Cursor.remaining_lt_of_stringStep (result_stringStep c ▸ h)
    scanStringBody d
termination_by c.sourceLen - c.offset

/-- `Cursor.scanString` -/
def scanString (c : Cursor) : Audited (Tag × Cursor) := do
  let d ← advance c 1
  scanStringBody d

/-- `Cursor.scan` -/
def scan (c : Cursor) : Audited (Tag × Cursor) := do
  match Lead.ofByte (← current c) with
  | .nul => scanNul c
  | .blank => return (.whitespace, ← eatBlanks c)
  | .carriageReturn => scanCarriageReturn c
  | .lineFeed => return (.newline, ← advance c 1)
  | .word => scanWord c
  | .digit => scanNumber c
  | .quote => scanString c
  | .slash => scanSlash c
  | .single tag => return (tag, ← advance c 1)
  | .paired alone joined => scanPaired alone joined c
  | .other => return (.unrecognizedChar, ← advanceChar c)

/-- `Cursor.nextSegment`, which subtracts where it started. -/
def nextSegment (c : Cursor) : Audited (Segment × Cursor) := do
  let (tag, d) ← scan c
  note (.sub d.offset c.offset)
  return (⟨tag, d.offset - c.offset⟩, d)

@[simp] theorem result_scanStringBody (c : Cursor) :
    (scanStringBody c).result = c.scanStringBody := by
  fun_induction Cursor.scanStringBody c with
  | case1 c fault h =>
    rw [scanStringBody, Audited.result_attach_bind_of_error (result_stringStep c ▸ h)]
  | case2 c d h => rw [scanStringBody, Audited.result_attach_bind (result_stringStep c ▸ h)]; rfl
  | case3 c d h => rw [scanStringBody, Audited.result_attach_bind (result_stringStep c ▸ h)]; rfl
  | case4 c d h _ ih =>
    rw [scanStringBody, Audited.result_attach_bind (result_stringStep c ▸ h)]
    exact ih

@[simp] theorem result_scanString (c : Cursor) : (scanString c).result = c.scanString := by
  simp [scanString, Cursor.scanString]

@[simp] theorem result_scan (c : Cursor) : (scan c).result = c.scan := by
  rw [scan, Cursor.scan, Audited.result_bind, result_current]
  congr
  funext b
  cases Lead.ofByte b <;> simp

@[simp] theorem result_nextSegment (c : Cursor) : (nextSegment c).result = c.nextSegment := by
  simp [nextSegment, Cursor.nextSegment]

/-- `Cursor.segmentsAfter` -/
def segmentsAfter (done : List Segment) (c : Cursor) : Audited (List Segment) := do
  match ← (nextSegment c).attach with
  | ⟨(x, d), h⟩ =>
    if hx : x.tag = .eof then return done.reverse
    else
      have := Cursor.lt_of_nextSegment (result_nextSegment c ▸ h) hx
      segmentsAfter (x :: done) d
termination_by c.buffer.bytes.size - c.offset
decreasing_by
  obtain ⟨⟨hbuf, hlt⟩, hsize⟩ := this
  rw [hbuf]
  omega

@[simp] theorem result_segmentsAfter (done : List Segment) (c : Cursor) :
    (segmentsAfter done c).result = c.segmentsAfter done := by
  fun_induction Cursor.segmentsAfter done c with
  | case1 done c fault h =>
    rw [segmentsAfter, Audited.result_attach_bind_of_error (result_nextSegment c ▸ h)]
  | case2 done c x d h hx =>
    rw [segmentsAfter, Audited.result_attach_bind (result_nextSegment c ▸ h)]
    simp only [dif_pos hx]
    rfl
  | case3 done c x d h hx _ ih =>
    rw [segmentsAfter, Audited.result_attach_bind (result_nextSegment c ▸ h)]
    simp only [dif_neg hx]
    exact ih

/-! ### The rules are safe -/

variable {s : Source} {c : Cursor}

theorem safe_scanNul (h : c.Inside s) :
    (scanNul c).Safe (.ofSource s) fun x => x.2.Inside s := by
  apply (safe_isEof h).bind
  intro e hon
  cases e with
  | true => exact Safe.pure h
  | false => exact (safe_advance_one (hon rfl)).bind fun d hd => Safe.pure hd

theorem safe_scanCarriageReturn (h : c.On s) :
    (scanCarriageReturn c).Safe (.ofSource s) fun x => x.2.Inside s := by
  apply (safe_advance_one h).bind
  intro d hd
  apply (safe_current hd).bind
  rintro b ⟨-, hon⟩
  split
  · next hb =>
    subst hb
    exact (safe_advance_one (hon (by decide))).bind fun e he => Safe.pure he
  · exact Safe.pure hd

theorem safe_scanWord (h : c.On s) :
    (scanWord c).Safe (.ofSource s) fun x => x.2.Inside s := by
  apply (safe_advance_one h).bind
  intro d hd
  exact (safe_eatWhile hd (by decide)).bind fun e he => Safe.pure he

theorem safe_scanNumber (h : c.Inside s) :
    (scanNumber c).Safe (.ofSource s) fun x => x.2.Inside s := by
  apply (safe_eatWhile h (by decide)).bind
  intro d hd
  apply (safe_current hd).bind
  rintro b ⟨-, hon⟩
  split
  · next hb =>
    -- The point is a byte of the text, so there is a byte behind it to look at.
    subst hb
    have hpoint := hon (by decide)
    apply (safe_peek hpoint).bind
    intro b' _
    split
    · apply (safe_advance_one hpoint).bind
      intro e he
      exact (safe_eatWhile he (by decide)).bind fun f hf => Safe.pure hf
    · exact Safe.pure hd
  · exact Safe.pure hd

theorem safe_scanPaired (alone joined : Tag) (h : c.On s) :
    (scanPaired alone joined c).Safe (.ofSource s) fun x => x.2.Inside s := by
  apply (safe_advance_one h).bind
  intro d hd
  apply (safe_current hd).bind
  rintro b ⟨-, hon⟩
  split
  · next hb =>
    subst hb
    exact (safe_advance_one (hon (by decide))).bind fun e he => Safe.pure he
  · exact Safe.pure hd

theorem safe_scanSlash (h : c.On s) :
    (scanSlash c).Safe (.ofSource s) fun x => x.2.Inside s := by
  apply (safe_advance_one h).bind
  intro d hd
  apply (safe_current hd).bind
  rintro b ⟨-, hon⟩
  split
  · next hb =>
    subst hb
    apply (safe_advance_one (hon (by decide))).bind
    intro e he
    exact (safe_eatLine he).bind fun f hf => Safe.pure hf
  · split
    · next hb =>
      subst hb
      apply (safe_advance_one (hon (by decide))).bind
      intro e he
      exact (safe_pastCommentEnd he).bind fun x hx => Safe.pure hx
    · exact Safe.pure hd

/-- Behind a carriage return of the text there is a byte to look at. -/
theorem safe_atLineEnd (h : c.Inside s) :
    (atLineEnd c).Safe (.ofSource s) fun _ => True := by
  apply (safe_current h).bind
  rintro b ⟨-, hon⟩
  split
  · exact Safe.pure trivial
  · split
    · next hb =>
      subst hb
      exact (safe_peek (hon (by decide))).bind fun _ _ => Safe.pure trivial
    · exact Safe.pure trivial

/-- Where a string literal ends or goes on after a step. -/
def stepEnd : StringStep → Cursor
  | .closed c | .cut c | .more c => c

theorem safe_stringStep (h : c.Inside s) :
    (stringStep c).Safe (.ofSource s) fun r => (stepEnd r).Inside s := by
  apply (safe_toStringDelimiter h).bind
  rintro ⟨b, d⟩ ⟨hd, hdelimiter⟩
  have hon : b ≠ Byte.nul → d.On s := hdelimiter
  show Safe (if b = Byte.quote then _ else _) _ _
  split
  · next hb =>
    subst hb
    exact (safe_advance_one (hon (by decide))).bind fun e he => Safe.pure he
  split
  · next hb =>
    subst hb
    apply (safe_advance_one (hon (by decide))).bind
    intro e he
    apply (safe_atLineEnd he).bind
    intro ends _
    split
    · exact Safe.pure he
    · apply (safe_isEof he).bind
      intro eof hon'
      cases eof with
      | true => exact Safe.pure he
      | false => exact (safe_advanceChar (hon' rfl)).bind fun f hf => Safe.pure hf
  split
  · next hb =>
    subst hb
    have hreturn := hon (by decide)
    apply (safe_peek hreturn).bind
    intro b' _
    split
    · exact Safe.pure hd
    · exact (safe_advance_one hreturn).bind fun e he => Safe.pure he
  · exact Safe.pure hd

theorem safe_scanStringBody (h : c.Inside s) :
    (scanStringBody c).Safe (.ofSource s) fun x => x.2.Inside s := by
  induction hn : c.sourceLen - c.offset using Nat.strongRecOn generalizing c with
  | ind n ih =>
    rw [scanStringBody]
    apply (safe_stringStep h).attach.bind
    rintro ⟨r, hr⟩ hd
    rw [result_stringStep] at hr
    cases r with
    | closed d => exact Safe.pure hd
    | cut d => exact Safe.pure hd
    | more d =>
      have hless := Cursor.remaining_lt_of_stringStep hr
      exact ih _ (hn ▸ hless) hd rfl

theorem safe_scanString (h : c.On s) :
    (scanString c).Safe (.ofSource s) fun x => x.2.Inside s := by
  apply (safe_advance_one h).bind
  intro d hd
  exact safe_scanStringBody hd

/-- A first byte other than zero is a byte of the text. -/
theorem safe_scan (h : c.Inside s) : (scan c).Safe (.ofSource s) fun x => x.2.Inside s := by
  apply (safe_current h).bind
  rintro b ⟨-, hbyte⟩
  have hon (hl : Lead.ofByte b ≠ .nul) : c.On s := by
    apply hbyte
    rintro rfl
    exact hl (by decide)
  cases hl : Lead.ofByte b with
  | nul => exact safe_scanNul h
  | blank => exact (safe_eatWhile h (by decide)).bind fun d hd => Safe.pure hd
  | carriageReturn => exact safe_scanCarriageReturn (hon (by simp [hl]))
  | lineFeed => exact (safe_advance_one (hon (by simp [hl]))).bind fun d hd => Safe.pure hd
  | word => exact safe_scanWord (hon (by simp [hl]))
  | digit => exact safe_scanNumber h
  | quote => exact safe_scanString (hon (by simp [hl]))
  | slash => exact safe_scanSlash (hon (by simp [hl]))
  | single tag => exact (safe_advance_one (hon (by simp [hl]))).bind fun d hd => Safe.pure hd
  | paired alone joined => exact safe_scanPaired alone joined (hon (by simp [hl]))
  | other => exact (safe_advanceChar (hon (by simp [hl]))).bind fun d hd => Safe.pure hd

/-! ### Segments are safe -/

/-- No rule goes back, whatever its tag. -/
theorem le_of_scan {c d : Cursor} {t : Tag} (h : c.scan = .ok (t, d)) : c ≤ d := by
  obtain ⟨b, hb, h⟩ := Fault.bind_eq_ok_iff.mp h
  cases hl : Lead.ofByte b <;> rw [hl] at h
  case nul =>
    obtain ⟨e, -, h⟩ := Fault.bind_eq_ok_iff.mp h
    split at h
    · cases Fault.pure_eq_ok_iff.mp h
      exact Cursor.le_refl c
    · obtain ⟨d', hd, h⟩ := Fault.bind_eq_ok_iff.mp h
      cases Fault.pure_eq_ok_iff.mp h
      exact Cursor.le_of_advance hd
  case carriageReturn => exact Cursor.le_of_lt (Cursor.lt_of_scanCarriageReturn h)
  case word => exact Cursor.le_of_lt (Cursor.lt_of_scanWord h)
  case digit =>
    exact Cursor.le_of_lt (Cursor.lt_of_scanNumber hb (Lead.isDigit_of_ofByte hl) h)
  case quote => exact Cursor.le_of_lt (Cursor.lt_of_scanString h)
  case slash => exact Cursor.le_of_lt (Cursor.lt_of_scanSlash h)
  case paired => exact Cursor.le_of_lt (Cursor.lt_of_scanPaired h)
  -- The other rules move once and say where to.
  all_goals
    obtain ⟨d', hd, h⟩ := Fault.bind_eq_ok_iff.mp h
    cases Fault.pure_eq_ok_iff.mp h
  case blank => exact Cursor.le_of_eatWhile hd
  case other => exact Cursor.le_of_lt (Cursor.lt_of_advanceChar hd)
  all_goals exact Cursor.le_of_advance hd

/-- A segment ends inside the text, as far from its start as its length. -/
theorem safe_nextSegment (h : c.Inside s) :
    (nextSegment c).Safe (.ofSource s) fun x =>
      x.2.Inside s ∧ c.offset + x.1.len = x.2.offset := by
  have hscan := safe_scan h
  apply Safe.bind (P := fun x => x.2.Inside s ∧ c ≤ x.2)
  · refine ⟨hscan.1, fun x hx => ⟨hscan.2 x hx, ?_⟩⟩
    rw [result_scan] at hx
    exact le_of_scan hx
  · rintro ⟨t, d⟩ ⟨hd, hle⟩
    apply Safe.sub hle.2
    exact Safe.pure ⟨hd, Nat.add_sub_cancel' hle.2⟩

theorem safe_segmentsAfter (done : List Segment) (h : c.Inside s) :
    (segmentsAfter done c).Safe (.ofSource s) fun _ => True := by
  induction hn : c.buffer.bytes.size - c.offset using Nat.strongRecOn generalizing c done with
  | ind n ih =>
    rw [segmentsAfter]
    apply (safe_nextSegment h).attach.bind
    rintro ⟨⟨x, d⟩, hx⟩ ⟨hd, -⟩
    rw [result_nextSegment] at hx
    show Safe (if _ : x.tag = .eof then _ else _) _ _
    split
    · exact Safe.pure trivial
    · next htag =>
      obtain ⟨⟨hbuf, hlt⟩, hsize⟩ := Cursor.lt_of_nextSegment hx htag
      have hless : d.buffer.bytes.size - d.offset < n := by
        rw [← hn, hbuf]
        omega
      exact ih _ hless _ hd rfl

end Lexico.Audit
