import Zbacs.Lib.Bytes

namespace Zbacs.Lib

-- ECDSA over P-256 as its users see it. Numbers are 32 bytes, the high ones first.

namespace P256

def prime : Nat := 0xffffffff00000001000000000000000000000000ffffffffffffffffffffffff

def order : Nat := 0xffffffff00000000ffffffffffffffffbce6faada7179e84f3b9cac2fc632551

def coefficient : Nat := 0x5ac635d8aa3a93e7b3ebbd55769886bc651d06b0cc53b0f63bce3c3e27d2604b

-- The coordinates of a point other than the one at infinity.
def onCurve (x y : FixedBytes 32) : Bool :=
  let x := beNat x.bytes
  let y := beNat y.bytes
  x < prime && y < prime && y * y % prime == (x * x * x + (prime - 3) * x + coefficient) % prime

-- One of the numbers that count the points.
def isScalar (s : FixedBytes 32) : Bool := 0 < beNat s.bytes && beNat s.bytes < order

-- A signature with `s` is as good as one with the negative of `s`. The high one of the two is not taken.
def isHigh (s : FixedBytes 32) : Bool := order / 2 < beNat s.bytes

def negate (s : FixedBytes 32) : FixedBytes 32 := ⟨beBytes 32 (order - beNat s.bytes), length_beBytes ..⟩

-- The low one in place of a high one.
def normalizeS (s : FixedBytes 32) : Option (FixedBytes 32) := if isHigh s then some (negate s) else none

section Scalars

variable {s : FixedBytes 32}

theorem isScalar_iff : isScalar s = true ↔ 0 < beNat s.bytes ∧ beNat s.bytes < order := by
  simp [isScalar]

theorem beNat_negate : beNat (negate s).bytes = order - beNat s.bytes := by
  apply beNat_beBytes
  have horder : order < 256 ^ 32 := by decide
  omega

theorem isScalar_negate (h : isScalar s = true) : isScalar (negate s) = true := by
  rw [isScalar_iff] at h
  rw [isScalar_iff, beNat_negate]
  omega

theorem negate_negate (h : isScalar s = true) : negate (negate s) = s := by
  rw [isScalar_iff] at h
  have hback : order - beNat (negate s).bytes = beNat s.bytes := by
    rw [beNat_negate]
    omega
  have hbytes := beBytes_beNat s.bytes
  rw [s.length_bytes] at hbytes
  apply FixedBytes.ext
  change beBytes 32 (order - beNat (negate s).bytes) = s.bytes
  rw [hback, hbytes]

theorem negate_eq_iff {t : FixedBytes 32} (hs : isScalar s = true) (ht : isScalar t = true) :
    negate s = t ↔ s = negate t := by
  constructor
  · rintro rfl
    exact (negate_negate hs).symm
  · rintro rfl
    exact negate_negate ht

theorem isHigh_negate : isHigh (negate s) = !isHigh s := by
  have hodd : order % 2 = 1 := by decide
  rw [isHigh, isHigh, beNat_negate, ← decide_not, decide_eq_decide]
  omega

end Scalars

end P256

-- What of it is hard: the public key of a scalar, a signature over 32 bytes and the equation that
-- a signature meets.
structure Ecdsa where
  publicKey : FixedBytes 32 → FixedBytes 32 × FixedBytes 32
  sign : (sk digest : FixedBytes 32) → FixedBytes 32 × FixedBytes 32
  holds : (digest r s x y : FixedBytes 32) → Bool

namespace Ecdsa

open P256

structure Correct (E : Ecdsa) : Prop where
  onCurve_publicKey : ∀ sk, isScalar sk = true → onCurve (E.publicKey sk).1 (E.publicKey sk).2 = true
  isScalar_sign : ∀ sk digest, isScalar sk = true →
    isScalar (E.sign sk digest).1 = true ∧ isScalar (E.sign sk digest).2 = true
  holds_sign : ∀ sk digest, isScalar sk = true → E.holds digest (E.sign sk digest).1
    (E.sign sk digest).2 (E.publicKey sk).1 (E.publicKey sk).2 = true
  holds_negate : ∀ digest r s x y, isScalar s = true →
    E.holds digest r (negate s) x y = E.holds digest r s x y

variable (E : Ecdsa)

-- A signature that is taken everywhere.
def signLowS (sk digest : FixedBytes 32) : FixedBytes 32 × FixedBytes 32 :=
  let (r, s) := E.sign sk digest
  (r, (normalizeS s).getD s)

-- What a verifier asks who takes low ones only.
def verifyLowS (digest r s x y : FixedBytes 32) : Bool :=
  onCurve x y && isScalar r && isScalar s && !isHigh s && E.holds digest r s x y

variable {E}

theorem verifyLowS_iff {digest r s x y : FixedBytes 32} : E.verifyLowS digest r s x y = true ↔
    onCurve x y = true ∧ isScalar r = true ∧ isScalar s = true ∧ isHigh s = false ∧
      E.holds digest r s x y = true := by
  simp [verifyLowS, and_assoc]

theorem Correct.verifyLowS_signLowS (h : E.Correct) {sk : FixedBytes 32} (hsk : isScalar sk = true)
    (digest : FixedBytes 32) : E.verifyLowS digest (E.signLowS sk digest).1 (E.signLowS sk digest).2
      (E.publicKey sk).1 (E.publicKey sk).2 = true := by
  obtain ⟨hr, hs⟩ := h.isScalar_sign sk digest hsk
  have hholds := h.holds_sign sk digest hsk
  rw [verifyLowS_iff]
  refine ⟨h.onCurve_publicKey sk hsk, hr, ?_⟩
  dsimp only [signLowS, normalizeS]
  by_cases hhigh : isHigh (E.sign sk digest).2 = true
  · rw [if_pos hhigh, Option.getD_some, h.holds_negate _ _ _ _ _ hs]
    exact ⟨isScalar_negate hs, by rw [isHigh_negate, hhigh]; rfl, hholds⟩
  · rw [if_neg hhigh, Option.getD_none]
    exact ⟨hs, Bool.not_eq_true _ ▸ hhigh, hholds⟩

-- Signatures by the key one with the nonce one, and by no others: the public key is the base point, `r`
-- its first coordinate, and `s` the sum of `r` and the digest, or the negative of it.

def baseX : FixedBytes 32 :=
  ⟨beBytes 32 0x6b17d1f2e12c4247f8bce6e563a440f277037d812deb33a0f4a13945d898c296, length_beBytes ..⟩

def baseY : FixedBytes 32 :=
  ⟨beBytes 32 0x4fe342e2fe1a7f9b8ee7eb4a7c0f9e162bce33576b315ececbb6406837bf51f5, length_beBytes ..⟩

def sumNat (digest : FixedBytes 32) : Nat := (beNat digest.bytes + beNat baseX.bytes) % order

-- Where the sum is zero another nonce would be taken.
def sum (digest : FixedBytes 32) : FixedBytes 32 :=
  ⟨beBytes 32 (if sumNat digest = 0 then 1 else sumNat digest), length_beBytes ..⟩

def atOne : Ecdsa where
  publicKey _ := (baseX, baseY)
  sign _ digest := (baseX, sum digest)
  holds digest r s x y := x = baseX && y = baseY && r = baseX && (s = sum digest || s = negate (sum digest))

theorem beNat_sum (digest : FixedBytes 32) : 0 < beNat (sum digest).bytes ∧
    beNat (sum digest).bytes < order := by
  have horder : order < 256 ^ 32 ∧ 1 < order := by decide
  have hsum : sumNat digest < order := Nat.mod_lt _ (Nat.zero_lt_of_lt horder.2)
  rw [sum, beNat_beBytes]
  · split_ifs
    · exact ⟨Nat.one_pos, horder.2⟩
    · exact ⟨Nat.pos_of_ne_zero ‹_›, hsum⟩
  · split_ifs
    · omega
    · omega

theorem atOne_correct : atOne.Correct := by
  have hbase : onCurve baseX baseY = true ∧ isScalar baseX = true := by decide +kernel
  have hsum : ∀ digest, isScalar (sum digest) = true := fun digest => isScalar_iff.mpr (beNat_sum digest)
  refine ⟨fun _ _ => hbase.1, fun _ digest _ => ⟨hbase.2, hsum digest⟩, ?_, ?_⟩
  · intro _ digest _
    simp [atOne]
  · intro digest r s x y hs
    have hleft := negate_eq_iff hs (hsum digest)
    have hright := negate_eq_iff hs (isScalar_negate (hsum digest))
    rw [negate_negate (hsum digest)] at hright
    simp only [atOne, hleft, hright, Bool.or_comm]

end Ecdsa

end Zbacs.Lib
