import Lexico.Output.Sink

/-!
# Sinks and what they take

A sink without a limit takes texts whole, one after the other, and so all of them as one text. A
sink with a limit takes what it has room for, and how a text is cut into pieces does not show in it:

    filledWith_append : s.filledWith (texts ++ more) = (s.filledWith texts).filledWith more
    writeAll_eq : s.writeAll texts =
      (s.filledWith texts, if s.Fits texts then .ok () else .error .limitReached)
-/

namespace Lexico.Sink

/-- The sink with some texts taken whole. -/
def taking (s : Sink) (texts : List String) : Sink :=
  { s with accepted := s.accepted ++ (String.join texts).toUTF8 }

theorem taking_nil (s : Sink) : s.taking [] = s := by
  rw [taking, String.join_nil, String.toUTF8, String.toByteArray_empty, ByteArray.append_empty]

theorem taking_cons (s : Sink) (text : String) (texts : List String) :
    s.taking (text :: texts) = (s.taking [text]).taking texts := by
  simp only [taking, String.join_cons, String.join_nil, String.append_empty, String.toUTF8,
    String.toByteArray_append, ByteArray.append_assoc]

theorem taking_append (s : Sink) (texts more : List String) :
    s.taking (texts ++ more) = (s.taking texts).taking more := by
  induction texts generalizing s with
  | nil => rw [List.nil_append, taking_nil]
  | cons text texts ih => rw [List.cons_append, taking_cons, ih, ← taking_cons]

theorem write_of_endless {s : Sink} (h : s.limit = none) (text : String) :
    s.write text = (s.taking [text], .ok ()) := by
  have hfits : s.fitting text.toUTF8 = text.toUTF8 := by rw [fitting, h]
  simp only [write, hfits, Nat.lt_irrefl, if_false, taking, String.join_cons, String.join_nil,
    String.append_empty]

/-- **Without a limit** all texts are taken, and none is refused. -/
theorem writeAll_of_endless {s : Sink} (h : s.limit = none) (texts : List String) :
    s.writeAll texts = (s.taking texts, .ok ()) := by
  induction texts generalizing s with
  | nil => rw [writeAll, taking_nil]
  | cons text texts ih =>
    rw [writeAll, write_of_endless h, taking_cons s text texts]
    exact ih h

/-! ### Sinks with a limit -/

/-- There is room for all of the texts. -/
def Fits (s : Sink) (texts : List String) : Prop :=
  ∀ limit ∈ s.limit, (String.join texts).toUTF8.size ≤ limit - s.accepted.size

instance (s : Sink) (texts : List String) : Decidable (s.Fits texts) :=
  inferInstanceAs (Decidable (∀ limit ∈ s.limit, _))

/-- The sink with as much of the texts as there is room for. -/
def filledWith (s : Sink) (texts : List String) : Sink :=
  { s with accepted := s.accepted ++ s.fitting (String.join texts).toUTF8 }

theorem fits_of_endless {s : Sink} (h : s.limit = none) (texts : List String) : s.Fits texts := by
  intro limit hlimit
  rw [h] at hlimit
  cases hlimit

theorem fits_nil (s : Sink) : s.Fits [] := fun _ _ => Nat.zero_le _

/-- An empty sink has room for as many bytes as its limit says. -/
theorem fits_ofLimit_iff {limit : Nat} {flushFails : Bool} {texts : List String} :
    (ofLimit (some limit) flushFails).Fits texts ↔ (String.join texts).toUTF8.size ≤ limit := by
  simp [Fits, ofLimit]

theorem accepted_filledWith_ofLimit (limit : Nat) (flushFails : Bool) (texts : List String) :
    ((ofLimit (some limit) flushFails).filledWith texts).accepted =
      (String.join texts).toUTF8.extract 0 limit := by
  simp [filledWith, fitting, ofLimit]

theorem size_fitting {s : Sink} {limit : Nat} (h : s.limit = some limit) (bytes : ByteArray) :
    (s.fitting bytes).size = min (limit - s.accepted.size) bytes.size := by
  simp only [fitting, h, ByteArray.size_extract, Nat.sub_zero]

theorem size_fitting_lt_iff {s : Sink} {texts : List String} :
    (s.fitting (String.join texts).toUTF8).size < (String.join texts).toUTF8.size ↔
      ¬ s.Fits texts := by
  cases hlimit : s.limit with
  | none => simp [fitting, hlimit, fits_of_endless hlimit]
  | some limit =>
    simp only [size_fitting hlimit, Fits, hlimit, Option.mem_some_iff, forall_eq']
    omega

theorem extract_of_size_le {bytes : ByteArray} {room : Nat} (h : bytes.size ≤ room) :
    bytes.extract 0 room = bytes := by
  have hmax : bytes.extract 0 (max room bytes.size) = bytes := ByteArray.extract_zero_max_size
  rwa [Nat.max_eq_left h] at hmax

/-- What fits is taken whole. -/
theorem filledWith_of_fits {s : Sink} {texts : List String} (h : s.Fits texts) :
    s.filledWith texts = s.taking texts := by
  cases hlimit : s.limit with
  | none => simp only [filledWith, taking, fitting, hlimit]
  | some limit =>
    simp only [filledWith, taking, fitting, hlimit, extract_of_size_le (h limit hlimit)]

theorem filledWith_nil (s : Sink) : s.filledWith [] = s := by
  rw [filledWith_of_fits s.fits_nil, taking_nil]

/-- **Cut into pieces or not**, texts leave the same bytes in a sink. -/
theorem filledWith_append (s : Sink) (texts more : List String) :
    s.filledWith (texts ++ more) = (s.filledWith texts).filledWith more := by
  cases hlimit : s.limit with
  | none =>
    simp only [filledWith, fitting, hlimit, String.join_append, String.toUTF8,
      String.toByteArray_append, ByteArray.append_assoc]
  | some limit =>
    simp only [filledWith, fitting, hlimit, String.join_append, String.toUTF8,
      String.toByteArray_append, ByteArray.extract_append, ByteArray.append_assoc,
      ByteArray.size_append, ByteArray.size_extract, Nat.zero_sub]
    congr 4
    omega

theorem fits_append {s : Sink} {texts more : List String} :
    s.Fits (texts ++ more) ↔ s.Fits texts ∧ (s.filledWith texts).Fits more := by
  cases hlimit : s.limit with
  | none =>
    have hmore : (s.filledWith texts).Fits more :=
      fits_of_endless (s := s.filledWith texts) hlimit more
    simp only [fits_of_endless hlimit, hmore, and_self]
  | some limit =>
    simp [Fits, filledWith, fitting, hlimit]
    omega

/-- A sink that has refused takes nothing more. -/
theorem filledWith_append_of_not_fits {s : Sink} {texts : List String} (h : ¬ s.Fits texts)
    (more : List String) : s.filledWith (texts ++ more) = s.filledWith texts := by
  cases hlimit : s.limit with
  | none => exact absurd (fits_of_endless hlimit texts) h
  | some limit =>
    have hfull : limit - (s.filledWith texts).accepted.size = 0 := by
      have hsize := size_fitting hlimit (String.join texts).toUTF8
      have hlt := size_fitting_lt_iff.mpr h
      simp only [filledWith, ByteArray.size_append]
      omega
    have hnothing (bytes : ByteArray) : (s.filledWith texts).fitting bytes = .empty := by
      have hlimit' : (s.filledWith texts).limit = some limit := hlimit
      simp only [fitting, hlimit', hfull]
      exact ByteArray.extract_same
    rw [filledWith_append]
    conv => lhs; rw [filledWith, hnothing, ByteArray.append_empty]

theorem write_eq (s : Sink) (text : String) :
    s.write text =
      (s.filledWith [text], if s.Fits [text] then .ok () else .error .limitReached) := by
  have hjoin : String.join [text] = text := by
    rw [String.join_cons, String.join_nil, String.append_empty]
  have hlt : (s.fitting (String.join [text]).toUTF8).size < (String.join [text]).toUTF8.size ↔
      ¬ s.Fits [text] := size_fitting_lt_iff
  rw [hjoin] at hlt
  simp only [write, filledWith, hjoin, hlt, ite_not]

/-- **A sink in a sequence of writes** takes what there is room for, and refuses if that is not
all. -/
theorem writeAll_eq (s : Sink) (texts : List String) :
    s.writeAll texts =
      (s.filledWith texts, if s.Fits texts then .ok () else .error .limitReached) := by
  induction texts generalizing s with
  | nil =>
    rw [writeAll, if_pos s.fits_nil, filledWith_nil]
  | cons text texts ih =>
    have hsplit : text :: texts = [text] ++ texts := rfl
    rw [writeAll, write_eq, hsplit]
    by_cases hfits : s.Fits [text]
    · simp only [hfits, if_true, ih, fits_append, true_and, filledWith_append]
    · simp only [hfits, if_false, fits_append, false_and, filledWith_append_of_not_fits hfits]

end Lexico.Sink
