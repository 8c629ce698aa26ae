import Lexico.Proofs.Text.Column
import Lexico.Text.Escape

/-!
# Escaped text read back

A character is written by itself or by an escape. `Writes c w` lists the ways without regard to
where the character stands; whatever follows, the writing tells the character and where it ends
(`Writes.inj`), so a text is known by how it is written. A space is written by itself and nothing
else ends in one: the spaces at the end of an escaped text are those of the text.

    written_escape : Written text.toList (escape text).toList
    Written.inj : Written cs w → Written ds w → cs = ds
    Written.trimEnd : Written cs w → Written (trimEnd cs) (trimEnd w)
-/

namespace Lexico.Text

/-! ### Hexadecimal digits -/

/-- The lower-case hexadecimal digits of a number. -/
def hexDigits (n : Nat) : List Char := Nat.toDigits 16 n

theorem digitChar_inj : ∀ d < 16, ∀ e < 16, Nat.digitChar d = Nat.digitChar e → d = e := by decide

theorem hexDigits_of_lt {n : Nat} (h : n < 16) : hexDigits n = [Nat.digitChar n] :=
  Nat.toDigits_of_lt_base h

theorem hexDigits_of_le {n : Nat} (h : 16 ≤ n) :
    hexDigits n = hexDigits (n / 16) ++ [Nat.digitChar (n % 16)] :=
  Nat.toDigits_of_base_le (by decide) h

/-- Each digit is one of sixteen. -/
theorem mem_hexDigits {n : Nat} {c : Char} (h : c ∈ hexDigits n) :
    ∃ d < 16, c = Nat.digitChar d := by
  induction n using Nat.strongRecOn with
  | ind n ih =>
    rcases Nat.lt_or_ge n 16 with hn | hn
    · rw [hexDigits_of_lt hn, List.mem_singleton] at h
      exact ⟨n, hn, h⟩
    · rw [hexDigits_of_le hn, List.mem_append, List.mem_singleton] at h
      rcases h with h | h
      · exact ih (n / 16) (by omega) h
      · exact ⟨n % 16, by omega, h⟩

theorem hexDigits_inj {m n : Nat} (h : hexDigits m = hexDigits n) : m = n := by
  induction m using Nat.strongRecOn generalizing n with
  | ind m ih =>
    -- A number below sixteen has one digit, and any other one more than its sixteenth.
    rcases Nat.lt_or_ge m 16 with hm | hm <;> rcases Nat.lt_or_ge n 16 with hn | hn
    · rw [hexDigits_of_lt hm, hexDigits_of_lt hn, List.cons.injEq] at h
      exact digitChar_inj m hm n hn h.1
    · rw [hexDigits_of_lt hm, hexDigits_of_le hn] at h
      have hlen := congrArg List.length h
      have hpos : 0 < (hexDigits (n / 16)).length := Nat.length_toDigits_pos
      rw [List.length_append, List.length_singleton, List.length_singleton] at hlen
      omega
    · rw [hexDigits_of_le hm, hexDigits_of_lt hn] at h
      have hlen := congrArg List.length h
      have hpos : 0 < (hexDigits (m / 16)).length := Nat.length_toDigits_pos
      rw [List.length_append, List.length_singleton, List.length_singleton] at hlen
      omega
    · rw [hexDigits_of_le hm, hexDigits_of_le hn] at h
      obtain ⟨hfront, hlast⟩ := List.append_inj' h rfl
      rw [List.cons.injEq] at hlast
      have hdiv := ih (m / 16) (by omega) hfront
      have hmod := digitChar_inj _ (Nat.mod_lt m (by decide)) _ (Nat.mod_lt n (by decide)) hlast.1
      omega

/-! ### Ways to write a character -/

/-- The character for the letter behind a backslash. -/
def unescape? : Char → Option Char
  | '0' => some '\x00'
  | 't' => some '\t'
  | 'n' => some '\n'
  | 'r' => some '\r'
  | '"' => some '"'
  | '\'' => some '\''
  | '\\' => some '\\'
  | _ => none

/-- The text `w` is a way to write the character `c`. -/
inductive Writes (c : Char) : List Char → Prop
  | plain : shortEscape? c = none → Writes c [c]
  | short {d} : unescape? d = some c → Writes c ['\\', d]
  | code : c ≠ ' ' → Writes c (['\\', 'u', '\x7b'] ++ hexDigits c.toNat ++ ['\x7d'])

theorem writes_of_shortEscape {c : Char} {e : String} (h : shortEscape? c = some e) :
    Writes c e.toList := by
  unfold shortEscape? at h
  split at h <;> cases h <;> exact .short rfl

theorem writes_codeEscape {c : Char} (h : c ≠ ' ') : Writes c (codeEscape c).toList := by
  have htext : (codeEscape c).toList =
      ['\\', 'u', '\x7b'] ++ hexDigits c.toNat ++ ['\x7d'] := by
    simp [codeEscape, hexDigits]
  rw [htext]
  exact .code h

theorem writes_escapeInner (c : Char) : Writes c (escapeInner c).toList := by
  rw [escapeInner]
  split
  · next he => exact writes_of_shortEscape he
  · next hnone =>
    split
    · rw [Char.toString, String.toList_singleton]
      exact .plain hnone
    · next hhidden =>
      apply writes_codeEscape
      rintro rfl
      exact hhidden rfl

theorem writes_escapeChar (c : Char) : Writes c (escapeChar c).toList := by
  rw [escapeChar]
  split
  · next he => exact writes_of_shortEscape he
  · split
    · next hcombining =>
      apply writes_codeEscape
      rintro rfl
      cases hcombining
    · exact writes_escapeInner c

namespace Writes

variable {c d : Char} {w v r r' : List Char}

theorem ne_nil (h : Writes c w) : w ≠ [] := by
  cases h <;> simp

theorem ne_backslash (h : shortEscape? c = none) : c ≠ '\\' := by
  rintro rfl
  cases h

theorem digitChar_ne_brace : ∀ e < 16, (Nat.digitChar e != '\x7d') = true := by decide

theorem ne_brace (n : Nat) : ∀ x ∈ hexDigits n, (x != '\x7d') = true := by
  intro x hx
  obtain ⟨e, he, rfl⟩ := mem_hexDigits hx
  exact digitChar_ne_brace e he

/-- **What is written is read back**: the character, and where its writing ends. -/
theorem inj (h : Writes c w) (h' : Writes d v) (htext : w ++ r = v ++ r') : c = d ∧ r = r' := by
  cases h with
  | plain hc =>
    have hne := ne_backslash hc
    cases h' with
    | plain _ => exact List.cons.inj htext
    | short _ => exact absurd (List.cons.inj htext).1 hne
    | code _ => exact absurd (List.cons.inj htext).1 hne
  | @short x hx =>
    cases h' with
    | plain hd => exact absurd (List.cons.inj htext).1.symm (ne_backslash hd)
    | @short y hy =>
      obtain ⟨rfl, hrest⟩ := List.cons.inj (List.cons.inj htext).2
      exact ⟨Option.some.inj (hx.symm.trans hy), hrest⟩
    | code _ =>
      obtain ⟨rfl, -⟩ := List.cons.inj (List.cons.inj htext).2
      cases hx
  | code _ =>
    cases h' with
    | plain hd => exact absurd (List.cons.inj htext).1.symm (ne_backslash hd)
    | @short y hy =>
      obtain ⟨rfl, -⟩ := List.cons.inj (List.cons.inj htext).2
      cases hy
    | code _ =>
      -- The digits go up to the brace.
      have hdigits : hexDigits c.toNat ++ '\x7d' :: r = hexDigits d.toNat ++ '\x7d' :: r' := by
        simpa using htext
      obtain ⟨hnumber, hrest⟩ := Piece.run_append_inj (ne_brace _) (ne_brace _)
        (Piece.stopsBefore_cons rfl r) (Piece.stopsBefore_cons rfl r') hdigits
      exact ⟨Char.toNat_inj.mp (hexDigits_inj hnumber), (List.cons.inj hrest).2⟩

/-- A line feed is not written by itself. -/
theorem lineFeed_not_mem (h : Writes c w) : '\n' ∉ w := by
  cases h with
  | plain hc =>
    rw [List.mem_singleton]
    rintro rfl
    cases hc
  | @short d hd =>
    have hne : '\n' ≠ d := by
      rintro rfl
      cases hd
    simpa using hne
  | code _ =>
    have hdigits : '\n' ∉ hexDigits c.toNat := by
      intro hmem
      obtain ⟨e, he, hfeed⟩ := mem_hexDigits hmem
      have hne : ∀ e < 16, '\n' ≠ Nat.digitChar e := by decide
      exact hne e he hfeed
    simpa using hdigits

theorem eq_of_space (h : Writes ' ' w) : w = [' '] := by
  cases h with
  | plain _ => rfl
  | @short d hd =>
    unfold unescape? at hd
    split at hd <;> cases hd
  | code hne => exact absurd rfl hne

/-- Only a space is written with a space at the end. -/
theorem last_ne (h : Writes c w) (hc : c ≠ ' ') : w.getLast? ≠ some ' ' := by
  cases h with
  | plain _ => simpa using hc
  | @short d hd =>
    have hne : d ≠ ' ' := by
      rintro rfl
      cases hd
    simpa using hne
  | code _ =>
    rw [List.getLast?_concat]
    decide

end Writes

/-! ### Written texts -/

/-- The text `w` writes the characters one after the other. -/
inductive Written : List Char → List Char → Prop
  | nil : Written [] []
  | cons {c w cs v} : Writes c w → Written cs v → Written (c :: cs) (w ++ v)

theorem written_flatMap {f : Char → List Char} (hf : ∀ c, Writes c (f c)) (cs : List Char) :
    Written cs (cs.flatMap f) := by
  induction cs with
  | nil => exact .nil
  | cons c cs ih => exact .cons (hf c) ih

/-- An escaped text writes the characters of the text. -/
theorem written_escape (text : String) : Written text.toList (escape text).toList := by
  rw [escape]
  cases text.toList with
  | nil => exact .nil
  | cons c cs =>
    show Written (c :: cs) (String.join (escapeChar c :: cs.map escapeInner)).toList
    rw [String.toList_join, List.flatMap_cons, List.flatMap_map]
    exact .cons (writes_escapeChar c) (written_flatMap writes_escapeInner cs)

namespace Written

variable {cs ds w v : List Char}

/-- **A text is known by how it is written.** -/
theorem inj (h : Written cs w) (h' : Written ds w) : cs = ds := by
  induction h generalizing ds with
  | nil =>
    generalize htext : [] = w at h'
    cases h' with
    | nil => rfl
    | cons hd _ => exact absurd (List.append_eq_nil_iff.mp htext.symm).1 hd.ne_nil
  | @cons c w cs v hc _ ih =>
    generalize htext : w ++ v = w' at h'
    cases h' with
    | nil => exact absurd (List.append_eq_nil_iff.mp htext).1 hc.ne_nil
    | cons hd hds =>
      obtain ⟨rfl, rfl⟩ := hc.inj hd htext
      rw [ih hds]

theorem lineFeed_not_mem (h : Written cs w) : '\n' ∉ w := by
  induction h with
  | nil => exact List.not_mem_nil
  | cons hc _ ih =>
    rw [List.mem_append, not_or]
    exact ⟨hc.lineFeed_not_mem, ih⟩

/-- Two texts in a row are written one after the other. -/
theorem of_append (h : Written (cs ++ ds) w) :
    ∃ v u, w = v ++ u ∧ Written cs v ∧ Written ds u := by
  induction cs generalizing w with
  | nil => exact ⟨[], w, rfl, .nil, h⟩
  | cons c cs ih =>
    cases h with
    | cons hc hrest =>
      obtain ⟨v, u, rfl, hv, hu⟩ := ih hrest
      exact ⟨_, u, (List.append_assoc ..).symm, .cons hc hv, hu⟩

theorem eq_spaces {n : Nat} (h : Written (spaces n) w) : w = spaces n := by
  induction n generalizing w with
  | zero =>
    cases h
    rfl
  | succ n ih =>
    cases h with
    | cons hc hrest =>
      rw [hc.eq_of_space, ih hrest]
      rfl

theorem last_ne (h : Written cs w) (hlast : cs.getLast? ≠ some ' ') : w.getLast? ≠ some ' ' := by
  induction h with
  | nil => exact hlast
  | @cons c w cs v hc hcs ih =>
    cases cs with
    | nil =>
      cases hcs
      rw [List.append_nil]
      apply hc.last_ne
      rintro rfl
      exact hlast rfl
    | cons d cs =>
      have hv : v ≠ [] := by
        cases hcs with
        | cons hd _ => exact fun hnil => hd.ne_nil (List.append_eq_nil_iff.mp hnil).1
      rw [List.getLast?_append_of_ne_nil w hv]
      apply ih
      rwa [List.getLast?_cons_cons] at hlast

/-- **Spaces at the end** of a written text are those of the text. -/
theorem trimEnd (h : Written cs w) : Written (trimEnd cs) (trimEnd w) := by
  obtain ⟨n, hn⟩ := exists_spaces cs
  rw [hn] at h
  obtain ⟨v, u, rfl, hv, hu⟩ := h.of_append
  rw [hu.eq_spaces, trimEnd_append_spaces, trimEnd_of_last (hv.last_ne (last_trimEnd cs))]
  exact hv

end Written

end Lexico.Text
