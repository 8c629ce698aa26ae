import Lexico.Proofs.Source.Cursor
import Lexico.Proofs.Source.Position

/-!
# Walking over a text

A position is moved over a text at once, by counting. That is the same as a walk from character to
character, in which each step adds one to the line or to the column and stops at the largest number;
so texts may be cut anywhere. It is also the same as counting on the bytes of the text alone, where
the last line feed is searched from the back and the characters behind it are counted as bytes if
they are all ASCII (`advanceOverBytes_eq`).
-/

namespace Lexico.Position

open Buffer (data_toUTF8 size_toUTF8)

/-! ### Character by character -/

/-- The position behind one character. -/
def step (p : Position) (c : Char) : Position :=
  if c = '\n' then ⟨saturatingAdd p.line 1, 1⟩ else ⟨p.line, saturatingAdd p.column 1⟩

@[simp] theorem advanceOver_empty (p : Position) : p.advanceOver "" = p := by
  apply eq_of_line_column
  · rw [line_advanceOver]
    exact saturatingAdd_zero _
  · rw [column_advanceOver_of_not_mem List.not_mem_nil]
    exact saturatingAdd_zero _

theorem advanceOver_singleton (p : Position) (c : Char) :
    p.advanceOver (String.ofList [c]) = p.step c := by
  have htext : (String.ofList [c]).toList = [c] := String.toList_ofList
  have hline := line_advanceOver p (String.ofList [c])
  rw [htext] at hline
  rw [step]
  split
  · next hc =>
    subst hc
    refine eq_of_line_column hline ?_
    rw [column_advanceOver_of_mem (by rw [htext]; exact List.mem_singleton_self _), htext]
    exact saturatingAdd_zero 1
  · next hc =>
    have hnone : '\n' ∉ [c] := fun h => hc (List.mem_singleton.mp h).symm
    apply eq_of_line_column
    · rw [hline, List.count_eq_zero.mpr hnone, saturatingAdd_zero]
    · rw [column_advanceOver_of_not_mem (by rwa [htext]), htext]
      rfl

/-- **A position walks** from character to character. -/
theorem advanceOver_eq_foldl (p : Position) (text : String) :
    p.advanceOver text = text.toList.foldl step p := by
  generalize hcs : text.toList = cs
  obtain rfl : text = String.ofList cs := by rw [← hcs, String.ofList_toList]
  clear hcs
  induction cs generalizing p with
  | nil => exact advanceOver_empty p
  | cons c cs ih =>
    rw [← List.singleton_append, String.ofList_append, advanceOver_append, advanceOver_singleton,
      ih, List.singleton_append, List.foldl_cons]

/-! ### Byte by byte -/

/-- A count as a number of 32 bits, or the largest of these. -/
def clamp (n : Nat) : UInt32 := saturatingAdd 0 n

/-- The number of characters of a text. ASCII characters are counted as bytes. -/
def charCount (text : String) : UInt32 :=
  if text.toUTF8.data.all (· < 0x80) then clamp text.utf8ByteSize else clamp text.length

/-- The last offset below `n` at which the byte stands. -/
def lastOffset? (bytes : ByteArray) (b : UInt8) : Nat → Option Nat
  | 0 => none
  | n + 1 => if bytes.data[n]? = some b then some n else lastOffset? bytes b n

/-- The position after a text that starts at `p`, found from the bytes of the text. -/
def advanceOverBytes (p : Position) (text : String) : Position :=
  let bytes := text.toUTF8
  match lastOffset? bytes Byte.lineFeed bytes.size with
  | none => { p with column := saturatingAdd p.column (charCount text).toNat }
  | some i =>
    let tail := (String.fromUTF8? (bytes.extract (i + 1) bytes.size)).getD ""
    ⟨saturatingAdd p.line (clamp (bytes.data.count Byte.lineFeed)).toNat,
      saturatingAdd 1 (charCount tail).toNat⟩

/-- To stop at the largest number before adding makes no difference. -/
theorem saturatingAdd_clamp (a : UInt32) (n : Nat) :
    saturatingAdd a (clamp n).toNat = saturatingAdd a n := by
  apply UInt32.toNat_inj.mp
  rw [toNat_saturatingAdd, toNat_saturatingAdd, clamp, toNat_saturatingAdd]
  show min (a.toNat + min (0 + n) _) _ = _
  omega

theorem charCount_eq (text : String) : charCount text = clamp text.toList.length := by
  rw [charCount, data_toUTF8]
  split
  · next hall =>
    rw [utf8ByteSize_eq, byteLength_eq_length]
    simpa using hall
  · rw [String.length_toList]

theorem lastOffset?_of_none {bytes : ByteArray} {b : UInt8} {n : Nat}
    (h : ∀ i < n, bytes.data[i]? ≠ some b) : lastOffset? bytes b n = none := by
  induction n with
  | zero => rfl
  | succ n ih =>
    rw [lastOffset?, if_neg (h n (Nat.lt_succ_self n)), ih]
    exact fun i hi => h i (Nat.lt_succ_of_lt hi)

/-- The search from the back stops at the last offset with the byte. -/
theorem lastOffset?_of_last {bytes : ByteArray} {b : UInt8} {i n : Nat} (hi : i < n)
    (hfound : bytes.data[i]? = some b)
    (hlast : ∀ j, i < j → bytes.data[j]? ≠ some b) : lastOffset? bytes b n = some i := by
  induction n with
  | zero => cases hi
  | succ n ih =>
    rw [lastOffset?]
    rcases Nat.lt_succ_iff_lt_or_eq.mp hi with hlt | rfl
    · rw [if_neg (hlast n hlt), ih hlt]
    · rw [if_pos hfound]

/-- A text with a line feed splits in front of its last line. -/
theorem exists_lineFeed_lastLine {cs : List Char} (h : '\n' ∈ cs) :
    ∃ v, cs = v ++ '\n' :: lastLine cs := by
  obtain ⟨v, hcs, hv, hlast⟩ := exists_append_lastLine cs
  rcases hv with rfl | hv
  · rw [hcs] at h
    exact absurd h hlast
  · obtain ⟨v, rfl⟩ := List.getLast?_eq_some_iff.mp hv
    exact ⟨v, by rwa [List.append_assoc] at hcs⟩

section

variable {text : String}

theorem getElem?_data_toUTF8 {i : Nat} :
    text.toUTF8.data[i]? = some Byte.lineFeed ↔
      ∃ u r, text.toList = u ++ '\n' :: r ∧ byteLength u = i := by
  rw [data_toUTF8, List.getElem?_toArray]
  exact getElem?_encode_iff (a := '\n') rfl

/-- No line feed is found where there is none. -/
theorem lastOffset?_of_not_mem (h : '\n' ∉ text.toList) :
    lastOffset? text.toUTF8 Byte.lineFeed text.toUTF8.size = none := by
  apply lastOffset?_of_none
  intro i _ hi
  obtain ⟨u, r, htext, -⟩ := getElem?_data_toUTF8.mp hi
  exact h (htext ▸ by simp)

/-- The line feed that is found is the one in front of the last line. -/
theorem lastOffset?_of_split {v : List Char} (h : text.toList = v ++ '\n' :: lastLine text.toList)
    (hlast : '\n' ∉ lastLine text.toList) :
    lastOffset? text.toUTF8 Byte.lineFeed text.toUTF8.size = some (byteLength v) := by
  apply lastOffset?_of_last
  · rw [size_toUTF8, h, byteLength_append, byteLength_cons]
    have := Char.utf8Size_pos '\n'
    omega
  · exact getElem?_data_toUTF8.mpr ⟨v, _, h, rfl⟩
  · intro j hj hfound
    obtain ⟨u, r, htext, rfl⟩ := getElem?_data_toUTF8.mp hfound
    obtain ⟨w, -, hw⟩ := exists_append_of_byteLength_lt rfl (h.symm.trans htext) hj
    exact hlast (hw ▸ by simp)

/-- The bytes behind that line feed are the last line. -/
theorem fromUTF8?_tail {v : List Char} (h : text.toList = v ++ '\n' :: lastLine text.toList) :
    String.fromUTF8? (text.toUTF8.extract (byteLength v + 1) text.toUTF8.size) =
      some (String.ofList (lastLine text.toList)) := by
  have hbytes : text.toUTF8 = (v ++ ['\n']).utf8Encode ++ (lastLine text.toList).utf8Encode := by
    rw [← List.utf8Encode_append, ← List.append_cons, ← h, String.toUTF8_eq_toByteArray,
      String.utf8Encode_toList]
  have hfront : byteLength v + 1 = (v ++ ['\n']).utf8Encode.size := by
    rw [size_utf8Encode, byteLength_append]
    rfl
  have hend := congrArg ByteArray.size hbytes
  rw [ByteArray.size_append] at hend
  have htail : text.toUTF8.extract (byteLength v + 1) text.toUTF8.size =
      (lastLine text.toList).utf8Encode := by
    rw [hend, hfront]
    conv => lhs; rw [hbytes]
    exact ByteArray.extract_append_eq_right rfl rfl
  rw [htail, fromUTF8?_utf8Encode]

end

/-- **The bytes of a text** lead to the same position. -/
theorem advanceOverBytes_eq (p : Position) (text : String) :
    p.advanceOverBytes text = p.advanceOver text := by
  rw [advanceOverBytes]
  by_cases hfeed : '\n' ∈ text.toList
  · obtain ⟨v, hv⟩ := exists_lineFeed_lastLine hfeed
    obtain ⟨-, -, -, hlast⟩ := exists_append_lastLine text.toList
    have hcount : (encode text.toList).count Byte.lineFeed = text.toList.count '\n' :=
      count_encode (a := '\n') rfl _
    simp only [lastOffset?_of_split hv hlast, fromUTF8?_tail hv, Option.getD_some, charCount_eq,
      String.toList_ofList, saturatingAdd_clamp, data_toUTF8, List.count_toArray, hcount]
    exact eq_of_line_column (line_advanceOver p text).symm (column_advanceOver_of_mem hfeed).symm
  · simp only [lastOffset?_of_not_mem hfeed, charCount_eq, saturatingAdd_clamp]
    apply eq_of_line_column
    · rw [line_advanceOver, List.count_eq_zero.mpr hfeed, saturatingAdd_zero]
    · rw [column_advanceOver_of_not_mem hfeed]

/-- **Moving over a text is walking over it**, from whatever position: character by character, in
one go from the bytes, or part by part. -/
theorem advanceOver_walk :
    (∀ (p : Position) (text : String), p.advanceOver text = text.toList.foldl step p) ∧
    (∀ (p : Position) (text : String), p.advanceOverBytes text = text.toList.foldl step p) ∧
    (∀ (p : Position) (a b : String),
      p.advanceOver (a ++ b) = (p.advanceOver a).advanceOver b) ∧
    ∀ p : Position, p.advanceOver "" = p := by
  refine ⟨advanceOver_eq_foldl, ?_, advanceOver_append, advanceOver_empty⟩
  intro p text
  rw [advanceOverBytes_eq, advanceOver_eq_foldl]

end Lexico.Position
