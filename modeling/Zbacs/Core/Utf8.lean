import Zbacs.Core.Types

namespace Zbacs.Core

open Zbacs.Lib

-- The bytes of a string, character by character.
theorem utf8_eq_flatMap (s : String) : utf8 s = s.toList.flatMap String.utf8EncodeChar := by
  rw [utf8, String.toUTF8, ← String.utf8Encode_toList, List.utf8Encode, List.data_toByteArray]

@[simp] theorem utf8_ofList (l : List Char) :
    utf8 (String.ofList l) = l.flatMap String.utf8EncodeChar := by
  rw [utf8_eq_flatMap, String.toList_ofList]

theorem utf8_injective {s t : String} (h : utf8 s = utf8 t) : s = t := by
  apply String.toByteArray_inj.mp
  apply ByteArray.ext
  exact Array.toList_inj.mp h

-- An ASCII byte is a character of its own.
theorem mem_utf8EncodeChar {c : Char} {b : UInt8} (hb : b.toNat < 0x80)
    (h : b ∈ String.utf8EncodeChar c) : c.toNat = b.toNat := by
  unfold String.utf8EncodeChar at h
  dsimp only at h
  have hvalid := c.val.toNat_lt
  split_ifs at h with h₁ h₂ h₃
  · rw [List.mem_singleton] at h
    subst h
    simp only [UInt8.toNat_ofNat', Char.toNat]
    omega
  all_goals
    simp only [List.mem_cons, List.not_mem_nil, or_false] at h
    rcases h with rfl | h
    · simp only [UInt8.toNat_ofNat'] at hb
      omega
    · rcases h with rfl | rfl | rfl
      all_goals
        simp only [UInt8.toNat_ofNat'] at hb
        omega

theorem mem_utf8 {s : String} {b : UInt8} (hb : b.toNat < 0x80) (h : b ∈ utf8 s) :
    ∃ c ∈ s.toList, c.toNat = b.toNat := by
  rw [utf8_eq_flatMap] at h
  obtain ⟨c, hc, hmem⟩ := List.mem_flatMap.mp h
  exact ⟨c, hc, mem_utf8EncodeChar hb hmem⟩

-- Text that is cut off between two characters is the beginning of the text.
theorem toList_prefix_of_utf8 {s t : String} (h : utf8 s <+: utf8 t) : s.toList <+: t.toList := by
  obtain ⟨rest, hrest⟩ := h
  apply List.isPrefix_of_utf8Encode_append_eq_utf8Encode rest.toByteArray
  rw [String.utf8Encode_toList, String.utf8Encode_toList]
  apply ByteArray.ext
  apply Array.toList_inj.mp
  simpa [utf8] using hrest

end Zbacs.Core
