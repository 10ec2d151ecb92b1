import KernelMonitor.Library.CText

/-! # UTF-8 in byte strings

A byte string is UTF-8 when it is the encoding of some characters. Where it can be cut is
seen from the single byte behind the cut.
-/

namespace KernelMonitor.Library

def Utf8 (s : Bytes) : Prop := s.toByteArray.IsValidUTF8

/-- One column for each byte that begins a character. -/
def columns (s : Bytes) : Nat := s.countP fun c => c.IsUTF8FirstByte

/-- No character goes on across the cut. -/
def Boundary (s : Bytes) (k : Nat) : Prop := ∀ c ∈ s[k]?, c.IsUTF8FirstByte

instance (s : Bytes) (k : Nat) : Decidable (Boundary s k) :=
  decidable_of_iff (s[k]?.all fun c => c.IsUTF8FirstByte) (by
    unfold Boundary
    cases s[k]? <;> simp)

theorem utf8_iff {s : Bytes} :
    Utf8 s ↔ ∃ chars : List Char, s = chars.flatMap String.utf8EncodeChar := by
  constructor
  · rintro ⟨chars, same⟩
    exact ⟨chars, List.toByteArray_inj.mp same⟩
  · rintro ⟨chars, rfl⟩
    exact ⟨chars, rfl⟩

theorem utf8_text (literal : String) : Utf8 (text literal) := utf8_iff.mpr ⟨literal.toList, rfl⟩

theorem Utf8.append {s t : Bytes} (first : Utf8 s) (second : Utf8 t) : Utf8 (s ++ t) := by
  unfold Utf8 at *
  rw [List.toByteArray_append]
  exact first.append second

theorem toByteArray_take (s : Bytes) (k : Nat) :
    (s.take k).toByteArray = s.toByteArray.extract 0 k := by
  apply ByteArray.ext
  simp

theorem toByteArray_drop (s : Bytes) (k : Nat) :
    (s.drop k).toByteArray = s.toByteArray.extract k s.length := by
  apply ByteArray.ext
  simp

section Cut

variable {s : Bytes} {k : Nat}

theorem boundary_of_le (behind : s.length ≤ k) : Boundary s k := by
  simp [Boundary, List.getElem?_eq_none behind]

/-- `String` has the same positions. -/
theorem valid_iff_boundary {str : String} (bytes : str.toByteArray = s.toByteArray)
    (inside : k ≤ s.length) : String.Pos.Raw.IsValid str ⟨k⟩ ↔ Boundary s k := by
  have size : str.utf8ByteSize = s.length := by
    rw [← String.size_toByteArray, bytes]
    exact List.size_toByteArray
  rw [String.Pos.Raw.isValid_iff_isUTF8FirstByte]
  simp only [String.Pos.Raw.ext_iff, String.Pos.Raw.lt_iff, String.getUTF8Byte,
    String.byteIdx_rawEndPos, size, bytes]
  rcases Nat.lt_or_eq_of_le inside with less | same
  · simp [Boundary, less, less.ne]
  · simp [same, boundary_of_le]

theorem utf8_take_iff (valid : Utf8 s) : Utf8 (s.take k) ↔ Boundary s k := by
  by_cases inside : k ≤ s.length
  · have bytes : (String.ofByteArray s.toByteArray valid).toByteArray = s.toByteArray := rfl
    rw [← valid_iff_boundary bytes inside, String.Pos.Raw.isValid_iff_isValidUTF8_extract_zero,
      Utf8, toByteArray_take]
    simp only [String.Pos.Raw.le_iff, String.byteIdx_rawEndPos, ← String.size_toByteArray,
      List.size_toByteArray, inside, true_and]
  · have behind : s.length ≤ k := by omega
    rw [List.take_of_length_le behind]
    exact iff_of_true valid (boundary_of_le behind)

theorem utf8_drop_iff (valid : Utf8 s) : Utf8 (s.drop k) ↔ Boundary s k := by
  by_cases inside : k ≤ s.length
  · have bytes : (String.ofByteArray s.toByteArray valid).toByteArray = s.toByteArray := rfl
    rw [← valid_iff_boundary bytes inside,
      String.Pos.Raw.isValid_iff_isValidUTF8_extract_utf8ByteSize, Utf8, toByteArray_drop]
    simp only [String.Pos.Raw.le_iff, String.byteIdx_rawEndPos, ← String.size_toByteArray,
      List.size_toByteArray, inside, true_and]
  · have behind : s.length ≤ k := by omega
    rw [List.drop_eq_nil_of_le behind]
    exact iff_of_true ByteArray.isValidUTF8_empty (boundary_of_le behind)

end Cut

theorem columns_le_length (s : Bytes) : columns s ≤ s.length := List.countP_le_length

end KernelMonitor.Library
