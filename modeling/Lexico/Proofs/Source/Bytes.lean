import Lexico.Source.Basic
import Lexico.Source.Byte

/-!
# Characters and their bytes

A text is read byte by byte, but what is said about it is said in characters. Two facts carry one
to the other. An ASCII character is one byte, and every byte of any other character is at least
`0x80`; so a class of bytes that has none of those (`Byte.Class`) is a class of characters, and it
can be tested at the first byte of a character. An ASCII byte is found just where its character
stands (`getElem?_encode_iff`).
-/

namespace Lexico

/-! ### How many bytes -/

/-- The number of bytes that characters take. -/
def byteLength : List Char → Nat
  | [] => 0
  | c :: cs => c.utf8Size + byteLength cs

@[simp] theorem byteLength_nil : byteLength [] = 0 := rfl

@[simp] theorem byteLength_cons (c : Char) (cs : List Char) :
    byteLength (c :: cs) = c.utf8Size + byteLength cs := rfl

@[simp] theorem byteLength_append (cs ds : List Char) :
    byteLength (cs ++ ds) = byteLength cs + byteLength ds := by
  induction cs with
  | nil => rw [List.nil_append, byteLength_nil, Nat.zero_add]
  | cons c cs ih => rw [List.cons_append, byteLength_cons, byteLength_cons, ih, Nat.add_assoc]

theorem length_le_byteLength (cs : List Char) : cs.length ≤ byteLength cs := by
  induction cs with
  | nil => exact Nat.le_refl _
  | cons c cs ih =>
    have := c.utf8Size_pos
    rw [List.length_cons, byteLength_cons]
    omega

theorem byteLength_eq_zero_iff {cs : List Char} : byteLength cs = 0 ↔ cs = [] := by
  constructor
  · intro h
    have := length_le_byteLength cs
    exact List.length_eq_zero_iff.mp (by omega)
  · rintro rfl
    rfl

/-- The bytes that characters take. -/
def encode (cs : List Char) : List UInt8 := cs.flatMap String.utf8EncodeChar

@[simp] theorem encode_nil : encode [] = [] := rfl

@[simp] theorem encode_cons (c : Char) (cs : List Char) :
    encode (c :: cs) = String.utf8EncodeChar c ++ encode cs := rfl

@[simp] theorem encode_append (cs ds : List Char) :
    encode (cs ++ ds) = encode cs ++ encode ds := List.flatMap_append

@[simp] theorem length_encode (cs : List Char) : (encode cs).length = byteLength cs := by
  induction cs with
  | nil => rfl
  | cons c cs ih => rw [encode_cons, List.length_append, ih, String.length_utf8EncodeChar,
      byteLength_cons]

theorem utf8ByteSize_eq (text : String) : text.utf8ByteSize = byteLength text.toList := by
  rw [← String.size_toByteArray, ← String.utf8Encode_toList, List.utf8Encode,
    List.size_toByteArray, ← length_encode]
  rfl

/-! ### Which bytes -/

/-- What holds of the characters below 128 holds of every character of one byte. -/
theorem forall_ascii {P : Char → Prop} (h : ∀ n < 128, P (Char.ofNat n)) {c : Char}
    (hc : c.utf8Size = 1) : P c := by
  have hlt : c.toNat < 128 := by
    have := UInt32.le_iff_toNat_le.mp (Char.utf8Size_eq_one_iff.mp hc)
    exact Nat.lt_succ_of_le this
  rw [← Char.ofNat_toNat c]
  exact h c.toNat hlt

theorem utf8EncodeChar_of_ascii {c : Char} (hc : c.utf8Size = 1) :
    String.utf8EncodeChar c = [Byte.ofAscii c] :=
  String.utf8EncodeChar_eq_singleton hc

/-- What holds of the numbers of eight bits holds of every byte. -/
theorem forall_byte {P : UInt8 → Prop} (h : ∀ y : BitVec 8, P (UInt8.ofBitVec y)) (b : UInt8) :
    P b :=
  h b.toBitVec

/-- A byte after the first of a character. -/
private theorem le_continuation (x : UInt8) : 0x80 ≤ (x &&& 0x3f ||| 0x80) :=
  forall_byte (P := fun x => 0x80 ≤ (x &&& 0x3f ||| 0x80)) (by decide +kernel) x

private theorem charWidth_continuation (x : UInt8) : Byte.charWidth (x &&& 0x3f ||| 0x80) = 1 :=
  forall_byte (P := fun x => Byte.charWidth (x &&& 0x3f ||| 0x80) = 1) (by decide +kernel) x

/-- The first byte of a character of two, three or four bytes. -/
private theorem charWidth_lead (x : UInt8) :
    (0x80 ≤ (x &&& 0x1f ||| 0xc0) ∧ Byte.charWidth (x &&& 0x1f ||| 0xc0) = 2) ∧
    (0x80 ≤ (x &&& 0x0f ||| 0xe0) ∧ Byte.charWidth (x &&& 0x0f ||| 0xe0) = 3) ∧
    (0x80 ≤ (x &&& 0x07 ||| 0xf0) ∧ Byte.charWidth (x &&& 0x07 ||| 0xf0) = 4) :=
  forall_byte (P := fun x =>
    (0x80 ≤ (x &&& 0x1f ||| 0xc0) ∧ Byte.charWidth (x &&& 0x1f ||| 0xc0) = 2) ∧
    (0x80 ≤ (x &&& 0x0f ||| 0xe0) ∧ Byte.charWidth (x &&& 0x0f ||| 0xe0) = 3) ∧
    (0x80 ≤ (x &&& 0x07 ||| 0xf0) ∧ Byte.charWidth (x &&& 0x07 ||| 0xf0) = 4))
    (by decide +kernel) x

/-- No byte of a character outside ASCII is an ASCII byte, and its first byte tells how many there
are. -/
theorem utf8EncodeChar_of_not_ascii {c : Char} (hc : c.utf8Size ≠ 1) :
    (∀ b ∈ String.utf8EncodeChar c, 0x80 ≤ b) ∧
      ∃ b bs, String.utf8EncodeChar c = b :: bs ∧ Byte.charWidth b = c.utf8Size := by
  rcases c.utf8Size_eq with h | h | h | h
  · exact absurd h hc
  · rw [String.utf8EncodeChar_eq_cons_cons h, h]
    refine ⟨?_, _, _, rfl, (charWidth_lead _).1.2⟩
    simp [le_continuation, (charWidth_lead _).1.1]
  · rw [String.utf8EncodeChar_eq_cons_cons_cons h, h]
    refine ⟨?_, _, _, rfl, (charWidth_lead _).2.1.2⟩
    simp [le_continuation, (charWidth_lead _).2.1.1]
  · rw [String.utf8EncodeChar_eq_cons_cons_cons_cons h, h]
    refine ⟨?_, _, _, rfl, (charWidth_lead _).2.2.2⟩
    simp [le_continuation, (charWidth_lead _).2.2.1]

/-- Characters of one byte each are as many as their bytes. -/
theorem byteLength_eq_length {cs : List Char} (h : ∀ b ∈ encode cs, b < 0x80) :
    byteLength cs = cs.length := by
  induction cs with
  | nil => rfl
  | cons c cs ih =>
    rw [encode_cons, List.forall_mem_append] at h
    have hc : c.utf8Size = 1 := by
      apply Classical.byContradiction
      intro hne
      obtain ⟨hwide, b, bs, hb, -⟩ := utf8EncodeChar_of_not_ascii hne
      have hmem : b ∈ String.utf8EncodeChar c := by
        rw [hb]
        exact List.mem_cons_self
      exact absurd (h.1 b hmem) (UInt8.not_lt.mpr (hwide b hmem))
    rw [byteLength_cons, hc, ih h.2, List.length_cons, Nat.add_comm]

namespace Byte

/-- The first byte of a text, or the sentinel after it. -/
def first (cs : List Char) : UInt8 := (encode cs).headD nul

@[simp] theorem first_nil : first [] = nul := rfl

theorem first_of_ascii {c : Char} (hc : c.utf8Size = 1) (cs : List Char) :
    first (c :: cs) = ofAscii c := by
  simp [first, utf8EncodeChar_of_ascii hc]

theorem le_first_of_not_ascii {c : Char} (hc : c.utf8Size ≠ 1) (cs : List Char) :
    0x80 ≤ first (c :: cs) := by
  obtain ⟨hall, b, bs, hb, -⟩ := utf8EncodeChar_of_not_ascii hc
  rw [first, encode_cons, hb]
  exact hall b (by simp [hb])

/-- The first byte of a character tells how many there are. -/
theorem charWidth_first (c : Char) (cs : List Char) :
    charWidth (first (c :: cs)) = c.utf8Size := by
  by_cases hc : c.utf8Size = 1
  · rw [first_of_ascii hc, hc]
    exact forall_ascii (P := fun c => charWidth (ofAscii c) = 1) (by decide +kernel) hc
  · obtain ⟨-, b, bs, hb, hwidth⟩ := utf8EncodeChar_of_not_ascii hc
    rw [first, encode_cons, hb]
    exact hwidth

/-- The first byte of a character tells how many there are, and each other one tells one. -/
theorem utf8EncodeChar_eq_cons (c : Char) :
    ∃ b bs, String.utf8EncodeChar c = b :: bs ∧ charWidth b = c.utf8Size ∧
      ∀ x ∈ bs, charWidth x = 1 := by
  have hfirst {b : UInt8} {bs : List UInt8} (h : String.utf8EncodeChar c = b :: bs) :
      charWidth b = c.utf8Size := by
    rw [← charWidth_first c [], first, encode_cons, h]
    rfl
  rcases c.utf8Size_eq with h | h | h | h
  · have hc := utf8EncodeChar_of_ascii h
    exact ⟨_, _, hc, hfirst hc, nofun⟩
  · have hc := String.utf8EncodeChar_eq_cons_cons h
    exact ⟨_, _, hc, hfirst hc, by simp [charWidth_continuation]⟩
  · have hc := String.utf8EncodeChar_eq_cons_cons_cons h
    exact ⟨_, _, hc, hfirst hc, by simp [charWidth_continuation]⟩
  · have hc := String.utf8EncodeChar_eq_cons_cons_cons_cons h
    exact ⟨_, _, hc, hfirst hc, by simp [charWidth_continuation]⟩

/-- From no byte of a text does the width that it tells lead out of the text. -/
theorem add_charWidth_le {cs : List Char} {i : Nat} {b : UInt8} (h : (encode cs)[i]? = some b) :
    i + charWidth b ≤ byteLength cs := by
  induction cs generalizing i with
  | nil => simp at h
  | cons c cs ih =>
    rw [encode_cons, List.getElem?_append, String.length_utf8EncodeChar] at h
    rw [byteLength_cons]
    split at h
    · next hi =>
      obtain ⟨lead, bs, hc, hlead, hbs⟩ := utf8EncodeChar_eq_cons c
      rw [hc] at h
      cases i with
      | zero =>
        cases h
        omega
      | succ i =>
        have := hbs b (List.mem_of_getElem? h)
        omega
    · have := ih h
      omega

/-! ### Classes -/

/-- The class `p` of bytes is the class `q` of characters, all of them ASCII. -/
structure Class (p : UInt8 → Bool) (q : Char → Bool) : Prop where
  ascii : ∀ c, c.utf8Size = 1 → p (ofAscii c) = q c
  high : ∀ b, 0x80 ≤ b → p b = false
  wide : ∀ c, c.utf8Size ≠ 1 → q c = false

namespace Class

variable {p : UInt8 → Bool} {q : Char → Bool}

/-- A class is tested at the first byte of a character. -/
theorem first (h : Class p q) (c : Char) (cs : List Char) : p (first (c :: cs)) = q c := by
  by_cases hc : c.utf8Size = 1
  · rw [first_of_ascii hc, h.ascii c hc]
  · rw [h.high _ (le_first_of_not_ascii hc cs), h.wide c hc]

/-- Characters in a class have one byte. -/
theorem size (h : Class p q) {c : Char} (hc : q c = true) : c.utf8Size = 1 := by
  apply Classical.byContradiction
  intro hne
  rw [h.wide c hne] at hc
  cases hc

/-- No byte of a character outside a class is in the class. -/
theorem of_mem (h : Class p q) {c : Char} (hc : q c = false) :
    ∀ b ∈ String.utf8EncodeChar c, p b = false := by
  intro b hb
  by_cases hsize : c.utf8Size = 1
  · rw [utf8EncodeChar_of_ascii hsize, List.mem_singleton] at hb
    rw [hb, h.ascii c hsize, hc]
  · exact h.high b ((utf8EncodeChar_of_not_ascii hsize).1 b hb)

end Class

end Byte

/-! ### Classes of characters -/

namespace Text

/-- Space and tab. -/
def isBlank (c : Char) : Bool := c == ' ' || c == '\t'

/-- ASCII letters and the underscore. -/
def isWordStart (c : Char) : Bool := c.isAlpha || c == '_'

/-- ASCII letters, digits and the underscore. -/
def isWordPart (c : Char) : Bool := c.isAlphanum || c == '_'

/-- What stops the search through a string literal. -/
def isStringDelimiter (c : Char) : Bool := c == '"' || c == '\\' || c == '\n' || c == '\r'

/-- A character outside ASCII is past all the letters and digits. -/
theorem val_gt_of_not_ascii {c : Char} (hc : c.utf8Size ≠ 1) : 127 < c.val.toNat := by
  rw [Ne, Char.utf8Size_eq_one_iff, UInt32.le_iff_toNat_le] at hc
  exact Nat.lt_of_not_le hc

/-- A character outside ASCII is none of the ASCII characters. -/
theorem ne_of_not_ascii {c d : Char} (hc : c.utf8Size ≠ 1) (hd : d.utf8Size = 1) : c ≠ d := by
  intro h
  exact hc (h ▸ hd)

theorem isDigit_of_not_ascii {c : Char} (hc : c.utf8Size ≠ 1) : c.isDigit = false := by
  have hgt := val_gt_of_not_ascii hc
  have h9 : '9'.val.toNat = 57 := rfl
  simp only [Char.isDigit, Bool.and_eq_false_iff, decide_eq_false_iff_not, UInt32.le_iff_toNat_le]
  omega

theorem isAlpha_of_not_ascii {c : Char} (hc : c.utf8Size ≠ 1) : c.isAlpha = false := by
  have hgt := val_gt_of_not_ascii hc
  have hZ : 'Z'.val.toNat = 90 := rfl
  have hz : 'z'.val.toNat = 122 := rfl
  show (decide ('A'.val ≤ c.val ∧ c.val ≤ 'Z'.val) ||
    decide ('a'.val ≤ c.val) && decide (c.val ≤ 'z'.val)) = false
  simp only [Bool.or_eq_false_iff, Bool.and_eq_false_iff, decide_eq_false_iff_not,
    UInt32.le_iff_toNat_le]
  omega

end Text

namespace Byte.Class

theorem blank : Class Byte.isBlank Text.isBlank where
  ascii _ := forall_ascii (P := fun c => Byte.isBlank (ofAscii c) = Text.isBlank c)
    (by decide +kernel)
  high := forall_byte (P := fun b => 0x80 ≤ b → Byte.isBlank b = false) (by decide +kernel)
  wide c hc := by
    simp [Text.isBlank, Text.ne_of_not_ascii hc (d := ' ') rfl,
      Text.ne_of_not_ascii hc (d := '\t') rfl]

theorem digit : Class Byte.isDigit Char.isDigit where
  ascii _ := forall_ascii (P := fun c => Byte.isDigit (ofAscii c) = c.isDigit) (by decide +kernel)
  high := forall_byte (P := fun b => 0x80 ≤ b → Byte.isDigit b = false) (by decide +kernel)
  wide _ hc := Text.isDigit_of_not_ascii hc

theorem wordPart : Class Byte.isWordPart Text.isWordPart where
  ascii _ := forall_ascii (P := fun c => Byte.isWordPart (ofAscii c) = Text.isWordPart c)
    (by decide +kernel)
  high := forall_byte (P := fun b => 0x80 ≤ b → Byte.isWordPart b = false) (by decide +kernel)
  wide c hc := by
    simp [Text.isWordPart, Char.isAlphanum, Text.isAlpha_of_not_ascii hc,
      Text.isDigit_of_not_ascii hc, Text.ne_of_not_ascii hc (d := '_') rfl]

theorem stringDelimiter : Class Byte.isStringDelimiter Text.isStringDelimiter where
  ascii _ := forall_ascii (P := fun c => Byte.isStringDelimiter (ofAscii c) =
    Text.isStringDelimiter c) (by decide +kernel)
  high := forall_byte (P := fun b => 0x80 ≤ b → Byte.isStringDelimiter b = false)
    (by decide +kernel)
  wide c hc := by
    simp [Text.isStringDelimiter, Text.ne_of_not_ascii hc (d := '"') rfl,
      Text.ne_of_not_ascii hc (d := '\\') rfl, Text.ne_of_not_ascii hc (d := '\n') rfl,
      Text.ne_of_not_ascii hc (d := '\r') rfl]

/-- One ASCII character is a class. -/
theorem only {a : Char} (ha : a.utf8Size = 1) : Class (· == ofAscii a) (· == a) where
  ascii c hc := by
    have hback {d : Char} (hd : d.utf8Size = 1) : Char.ofUInt8 (ofAscii d) = d :=
      forall_ascii (P := fun d => Char.ofUInt8 (ofAscii d) = d) (by decide +kernel) hd
    rw [Bool.eq_iff_iff, beq_iff_eq, beq_iff_eq]
    constructor
    · intro h
      rw [← hback hc, h, hback ha]
    · intro h
      rw [h]
  high b hb := by
    have hlt := forall_ascii (P := fun a => ofAscii a < 0x80) (by decide +kernel) ha
    have hne : b ≠ ofAscii a := by
      intro h
      rw [h] at hb
      exact absurd hlt (UInt8.not_lt.mpr hb)
    simpa using hne
  wide c hc := by simpa using Text.ne_of_not_ascii hc ha

end Byte.Class

/-- The first byte of a text is that of an ASCII character when the first character is. -/
theorem Byte.first_eq_iff {a : Char} (ha : a.utf8Size = 1) (hnul : a ≠ '\x00') (cs : List Char) :
    Byte.first cs = Byte.ofAscii a ↔ cs.head? = some a := by
  cases cs with
  | nil =>
    have h := forall_ascii (P := fun a => a ≠ '\x00' → Byte.nul ≠ Byte.ofAscii a)
      (by decide +kernel) ha hnul
    simpa using h
  | cons c cs =>
    have h := (Byte.Class.only ha).first c cs
    rw [List.head?_cons, Option.some.injEq, ← beq_iff_eq, h, beq_iff_eq]

/-! ### Offsets of characters -/

/-- The byte of an ASCII character is found just where that character stands. -/
theorem getElem?_encode_iff {a : Char} (ha : a.utf8Size = 1) {cs : List Char} {i : Nat} :
    (encode cs)[i]? = some (Byte.ofAscii a) ↔ ∃ u r, cs = u ++ a :: r ∧ byteLength u = i := by
  constructor
  · intro h
    induction cs generalizing i with
    | nil => cases h
    | cons c cs ih =>
      rw [encode_cons, List.getElem?_append, String.length_utf8EncodeChar] at h
      split at h
      · next hi =>
        -- No other character has such a byte.
        have hc : c = a := by
          apply Classical.byContradiction
          intro hne
          have hother := (Byte.Class.only ha).of_mem (c := c) (by simpa using hne) _
            (List.mem_of_getElem? h)
          simp at hother
        subst hc
        rw [ha, Nat.lt_one_iff] at hi
        exact ⟨[], cs, rfl, hi.symm⟩
      · next hi =>
        obtain ⟨u, r, rfl, hu⟩ := ih h
        refine ⟨c :: u, r, rfl, ?_⟩
        rw [byteLength_cons, hu]
        omega
  · rintro ⟨u, r, rfl, rfl⟩
    rw [encode_append, encode_cons, utf8EncodeChar_of_ascii ha, ← length_encode,
      List.getElem?_append_right (Nat.le_refl _), Nat.sub_self]
    rfl

/-- The byte of an ASCII character is found as often as the character is. -/
theorem count_encode {a : Char} (ha : a.utf8Size = 1) (cs : List Char) :
    (encode cs).count (Byte.ofAscii a) = cs.count a := by
  induction cs with
  | nil => rfl
  | cons c cs ih =>
    rw [encode_cons, List.count_append, ih, List.count_cons, Nat.add_comm]
    congr 1
    split
    · next hc =>
      obtain rfl := beq_iff_eq.mp hc
      rw [utf8EncodeChar_of_ascii ha]
      exact List.count_singleton_self
    · next hc =>
      have hother := (Byte.Class.only ha).of_mem (eq_false_of_ne_true hc)
      rw [List.count_eq_zero]
      intro hmem
      simpa using hother _ hmem

/-- The farther split of a text goes on from the nearer one. -/
theorem exists_append_of_byteLength_le {u v r r' : List Char} (h : u ++ r = v ++ r')
    (hle : byteLength u ≤ byteLength v) : ∃ w, v = u ++ w ∧ r = w ++ r' := by
  rcases List.append_eq_append_iff.mp h with hsplit | ⟨w, rfl, rfl⟩
  · exact hsplit
  · have hw : byteLength w = 0 := by
      rw [byteLength_append] at hle
      omega
    obtain rfl := byteLength_eq_zero_iff.mp hw
    exact ⟨[], by simp, rfl⟩

/-- A split of a text behind an ASCII character goes on from behind that. -/
theorem exists_append_of_byteLength_lt {a : Char} (ha : a.utf8Size = 1) {u v cs r : List Char}
    (h : u ++ a :: cs = v ++ r) (hlt : byteLength u < byteLength v) :
    ∃ w, v = u ++ a :: w ∧ cs = w ++ r := by
  have hle : byteLength (u ++ [a]) ≤ byteLength v := by
    rw [byteLength_append, byteLength_cons, byteLength_nil, ha]
    exact hlt
  obtain ⟨w, rfl, hcs⟩ :=
    exists_append_of_byteLength_le (u := u ++ [a]) (r := cs) (by simpa using h) hle
  exact ⟨w, by simp, hcs⟩

end Lexico
