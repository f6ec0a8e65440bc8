import Zbacs.Core.Container.Name

namespace Zbacs.Core

open Zbacs.Lib

section Unpad

variable {buf : Bytes} {name : String}

-- All that `unpadName` takes.
theorem unpadName_eq_ok : unpadName buf = .ok name ↔ (utf8 name).length ≤ maxNameLen ∧
    PaddedSize buf.length ∧ ∃ zeros, buf = padding name zeros := by
  constructor
  · intro h
    unfold unpadName at h
    dsimp only at h
    simp only [ite_error_eq_ok] at h
    obtain ⟨hshape, hfits, hzeros, h⟩ := h
    split at h
    · cases h
    · rename_i hutf8
      cases h
      have hbytes := utf8_of_fromUTF8? hutf8
      have hmin : 64 ≤ buf.length := by
        unfold namePadBlock at hshape
        omega
      have hlen : (utf8 name).length = leNat (buf.take 2) := by
        rw [hbytes, List.length_take, List.length_drop]
        omega
      have hhead : leBytes 2 (leNat (buf.take 2)) = buf.take 2 := by
        have htwo : (buf.take 2).length = 2 := by
          rw [List.length_take]
          omega
        have hback := leBytes_leNat (buf.take 2)
        rwa [htwo] at hback
      have htail : buf.drop (2 + leNat (buf.take 2)) =
          List.replicate (buf.drop (2 + leNat (buf.take 2))).length 0 := by
        refine List.eq_replicate_of_mem fun b hb => ?_
        by_contra hb'
        exact hzeros (List.any_eq_true.mpr ⟨b, hb, by simpa using hb'⟩)
      refine ⟨by rw [hlen]; omega, ⟨by omega, by omega, by omega⟩,
        (buf.drop (2 + leNat (buf.take 2))).length, ?_⟩
      rw [padding, hlen, hhead, hbytes, ← htail, ← List.drop_drop, List.append_assoc,
        List.take_append_drop, List.take_append_drop]
  · rintro ⟨hshort, hsize, zeros, rfl⟩
    exact unpadName_padding hshort hsize

end Unpad

section Pad

variable {buf : Bytes} {name : String}

-- What a name is padded to: the fewest zeros that fill a block.
theorem padName_eq_ok : padName name = .ok buf ↔ (utf8 name).length ≤ maxNameLen ∧
    ∃ zeros < namePadBlock, buf = padding name zeros ∧ (padding name zeros).length % namePadBlock = 0 := by
  have hceil : ∀ used, divCeil used namePadBlock * namePadBlock - used < namePadBlock ∧
      (used + (divCeil used namePadBlock * namePadBlock - used)) % namePadBlock = 0 := by
    intro used
    unfold divCeil namePadBlock
    omega
  constructor
  · intro h
    have hshort : (utf8 name).length ≤ maxNameLen := by
      by_contra hlong
      rw [padName, if_pos (Nat.lt_of_not_le hlong)] at h
      cases h
    rw [padName_eq name hshort] at h
    cases h
    have hused : (leBytes 2 (utf8 name).length ++ utf8 name).length = 2 + (utf8 name).length := by simp
    refine ⟨hshort, _, (hceil (2 + (utf8 name).length)).1, ?_, ?_⟩
    · rw [paddedName, hused, padding]
    · rw [length_padding]
      exact (hceil (2 + (utf8 name).length)).2
  · rintro ⟨hshort, zeros, hzeros, rfl, hblocks⟩
    rw [padName_eq name hshort, paddedName, padding]
    have hused : (leBytes 2 (utf8 name).length ++ utf8 name).length = 2 + (utf8 name).length := by simp
    rw [length_padding] at hblocks
    have hsame : divCeil (2 + (utf8 name).length) namePadBlock * namePadBlock -
        (2 + (utf8 name).length) = zeros := by
      obtain ⟨hlt, hmod⟩ := hceil (2 + (utf8 name).length)
      unfold namePadBlock at *
      omega
    rw [hused, hsame]

end Pad

-- A padded name with a whole block of zeros too many.
def Overpadded (buf : Bytes) : Prop :=
  ∃ name zeros, buf = padding name zeros ∧ (utf8 name).length ≤ maxNameLen ∧ namePadBlock ≤ zeros ∧
    buf.length % namePadBlock = 0 ∧ buf.length ≤ maxNameCtLen - tagLen

-- A name that can be read out of these bytes is padded to them again.
def PaddedBack (buf : Bytes) : Prop := ∀ name, unpadName buf = .ok name → padName name = .ok buf

section Canonical

variable {buf : Bytes} {name : String} {zeros : Nat}

theorem padding_inj {name' : String} {zeros' : Nat} (hshort : (utf8 name).length ≤ maxNameLen)
    (hshort' : (utf8 name').length ≤ maxNameLen) (h : padding name zeros = padding name' zeros') :
    zeros = zeros' := by
  have hlt : ∀ {s : String}, (utf8 s).length ≤ maxNameLen → (utf8 s).length < 256 ^ 2 := by
    intro s hs
    unfold maxNameLen at hs
    omega
  have hsize := congrArg List.length h
  rw [length_padding, length_padding] at hsize
  have hhead := congrArg (List.take 2) h
  rw [padding, List.append_assoc, List.take_left' (length_leBytes 2 _), padding, List.append_assoc,
    List.take_left' (length_leBytes 2 _)] at hhead
  have hlen := leBytes_inj (hlt hshort) (hlt hshort') hhead
  omega

theorem paddedBack_iff : PaddedBack buf ↔ ¬Overpadded buf := by
  constructor
  · rintro h ⟨name, zeros, rfl, hshort, hzeros, hblocks, hlongest⟩
    have hsize : PaddedSize (padding name zeros).length := by
      refine ⟨hblocks, ?_, hlongest⟩
      rw [length_padding]
      omega
    obtain ⟨-, zeros', hfew, hsame, -⟩ := padName_eq_ok.mp
      (h name (unpadName_padding hshort hsize))
    have heq := padding_inj hshort hshort hsame
    omega
  · intro h name hname
    obtain ⟨hshort, hsize, zeros, rfl⟩ := unpadName_eq_ok.mp hname
    refine padName_eq_ok.mpr ⟨hshort, zeros, ?_, rfl, hsize.blocks⟩
    by_contra hmany
    exact h ⟨name, zeros, rfl, hshort, Nat.not_lt.mp hmany, hsize.blocks, hsize.longest⟩

-- A name comes back from what it is padded to, in whole blocks and within the limit.
theorem unpadName_padName (hshort : (utf8 name).length ≤ maxNameLen) :
    ∃ buf, padName name = .ok buf ∧ unpadName buf = .ok name ∧ buf.length % namePadBlock = 0 ∧
      buf.length ≤ maxNameCtLen - tagLen := by
  obtain ⟨-, -, hlongest⟩ := padded_bounds _ hshort
  have hlength := length_paddedName name hshort
  refine ⟨paddedName name, padName_eq name hshort, unpadName_paddedName name hshort, ?_, ?_⟩
  · rw [hlength]
    exact Nat.mul_mod_left _ _
  · rw [hlength]
    exact hlongest

-- The padding is canonical on some bytes exactly when these have no whole block more than the name
-- they hold needs.
theorem padding_canonical_iff (buf : Bytes) :
    ((∀ name, (utf8 name).length ≤ 1024 → ∃ padded, padName name = .ok padded ∧
        unpadName padded = .ok name ∧ padded.length % 64 = 0 ∧ padded.length ≤ maxNameCtLen - tagLen) ∧
      PaddedBack buf) ↔ ¬Overpadded buf := by
  constructor
  · rintro ⟨-, hback⟩
    exact paddedBack_iff.mp hback
  · intro h
    exact ⟨fun name hshort => unpadName_padName hshort, paddedBack_iff.mpr h⟩

-- One letter in two blocks.
theorem not_padding_canonical : ¬∀ buf, PaddedBack buf := by
  intro h
  have hname : (utf8 "a").length = 1 := by decide
  have hover : Overpadded (padding "a" 125) := by
    refine ⟨"a", 125, rfl, ?_, ?_, ?_, ?_⟩
    · rw [hname]
      decide
    · decide
    · rw [length_padding, hname]
      decide
    · rw [length_padding, hname]
      decide
  exact paddedBack_iff.mp (h (padding "a" 125)) hover

end Canonical

end Zbacs.Core
