import Zbacs.Core.Container

namespace Zbacs.Core

open Zbacs.Lib

theorem fromUTF8?_utf8 (s : String) : String.fromUTF8? ⟨(utf8 s).toArray⟩ = some s := by
  simp [utf8, String.fromUTF8?, String.fromUTF8, s.isValidUTF8]

theorem utf8_of_fromUTF8? {bytes : Bytes} {name : String} (h : String.fromUTF8? ⟨bytes.toArray⟩ = some name) :
    utf8 name = bytes := by
  unfold String.fromUTF8? at h
  split at h
  · cases h
    rfl
  · cases h

-- A length, a name of that length and zeros.
def padding (name : String) (zeros : Nat) : Bytes :=
  leBytes 2 (utf8 name).length ++ utf8 name ++ List.replicate zeros 0

-- The sizes a padded name may have.
structure PaddedSize (size : Nat) : Prop where
  blocks : size % namePadBlock = 0
  shortest : namePadBlock ≤ size
  longest : size ≤ maxNameCtLen - tagLen

section Padding

variable {name : String} {zeros : Nat}

@[simp] theorem length_padding :
    (padding name zeros).length = 2 + (utf8 name).length + zeros := by
  simp [padding, Nat.add_assoc]

theorem unpadName_padding (hshort : (utf8 name).length ≤ maxNameLen)
    (hsize : PaddedSize (padding name zeros).length) : unpadName (padding name zeros) = .ok name := by
  have hlt : (utf8 name).length < 256 ^ 2 := by
    unfold maxNameLen at hshort
    omega
  have htake : leNat ((padding name zeros).take 2) = (utf8 name).length := by
    rw [padding, List.append_assoc, List.take_left' (length_leBytes 2 _), leNat_leBytes 2 _ hlt]
  have hname : ((padding name zeros).drop 2).take (utf8 name).length = utf8 name := by
    rw [padding, List.append_assoc, List.drop_left' (length_leBytes 2 _), List.take_left]
  have hzeros : ((padding name zeros).drop (2 + (utf8 name).length)).any (· ≠ 0) = false := by
    rw [padding, List.drop_left' (by simp)]
    simp
  have hshape : ¬((padding name zeros).length < namePadBlock ∨
      (padding name zeros).length % namePadBlock ≠ 0 ∨
      (padding name zeros).length > maxNameCtLen - tagLen) := by
    have hmin := hsize.shortest
    have hmax := hsize.longest
    simp only [hsize.blocks, ne_eq, not_true_eq_false, false_or]
    omega
  have hfits : ¬((utf8 name).length > maxNameLen ∨
      2 + (utf8 name).length > (padding name zeros).length) := by
    rw [length_padding]
    omega
  simp only [unpadName, if_neg hshape, htake, if_neg hfits, hzeros, hname, fromUTF8?_utf8]
  rfl

end Padding

-- The padded plaintext of a name: length prefix, name, zeros.
def paddedName (name : String) : Bytes :=
  let used := leBytes 2 (utf8 name).length ++ utf8 name
  used ++ List.replicate (divCeil (2 + (utf8 name).length) namePadBlock * namePadBlock - used.length) 0

theorem padded_bounds (len : Nat) (h : len ≤ maxNameLen) :
    2 + len ≤ divCeil (2 + len) namePadBlock * namePadBlock ∧
    namePadBlock ≤ divCeil (2 + len) namePadBlock * namePadBlock ∧
    divCeil (2 + len) namePadBlock * namePadBlock ≤ maxNameCtLen - tagLen := by
  simp only [divCeil, namePadBlock, maxNameLen, maxNameCtLen, tagLen] at *
  omega

theorem padName_eq (name : String) (h : (utf8 name).length ≤ maxNameLen) :
    padName name = .ok (paddedName name) := by
  have hb := (padded_bounds _ h).2.1
  simp only [padName, paddedName, if_neg (Nat.not_lt.mpr h), Nat.max_eq_left hb]

theorem length_paddedName (name : String) (h : (utf8 name).length ≤ maxNameLen) :
    (paddedName name).length = divCeil (2 + (utf8 name).length) namePadBlock * namePadBlock := by
  have hb := (padded_bounds _ h).1
  simp only [paddedName, List.length_append, length_leBytes, List.length_replicate]
  omega

theorem unpadName_paddedName (name : String) (h : (utf8 name).length ≤ maxNameLen) :
    unpadName (paddedName name) = .ok name := by
  obtain ⟨-, hmin, hmax⟩ := padded_bounds _ h
  have hlength := length_paddedName name h
  refine unpadName_padding h ⟨?_, ?_, ?_⟩
  · exact (congrArg (· % namePadBlock) hlength).trans (Nat.mul_mod_left _ _)
  · exact hmin.trans_eq hlength.symm
  · exact hlength.trans_le hmax

-- What a name ciphertext decrypts back to, given its padded plaintext.
theorem decryptName_eq {P : Primitives} {h : Header} {dek : Dek} {name : String}
    (hd : P.aead.decrypt dek (nonce h.body.np nameIndex) nameAad h.body.name =
      some (paddedName name)) (hlen : (utf8 name).length ≤ maxNameLen) :
    decryptName P h dek = .ok name := by
  simp only [decryptName, hd, unpadName_paddedName name hlen]

end Zbacs.Core
