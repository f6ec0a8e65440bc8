import Zbacs.Auth.WebAuthn
import Zbacs.Lib.Digits

namespace Zbacs.Auth.WebAuthn.Windows

open Zbacs.Lib
open Zbacs.Agent (Confirmation)
open Zbacs.Agent.Setup (P256PublicKey)

-- The key in a Windows machine's TPM. The store promises no low signatures, and the validators take no
-- high ones.

-- The order of the curve.
def N : FixedBytes 32 :=
  ⟨[0xff, 0xff, 0xff, 0xff, 0x00, 0x00, 0x00, 0x00, 0xff, 0xff, 0xff, 0xff, 0xff, 0xff, 0xff, 0xff,
    0xbc, 0xe6, 0xfa, 0xad, 0xa7, 0x17, 0x9e, 0x84, 0xf3, 0xb9, 0xca, 0xc2, 0xfc, 0x63, 0x25, 0x51], rfl⟩

def halfN : FixedBytes 32 := ⟨Digits.halve 0 N.bytes, by rw [Digits.length_halve, N.length_bytes]⟩

def isHighS (s : FixedBytes 32) : Bool := Digits.greater s.bytes halfN.bytes

-- Fold `s` into the lower half of the curve order.
def normalizeLowS (r s : FixedBytes 32) : FixedBytes 32 × FixedBytes 32 :=
  if !isHighS s then (r, s)
  else
    (r, ⟨(Digits.subtract N.bytes s.bytes).1, by
      rw [Digits.length_subtract (by rw [N.length_bytes, s.length_bytes]), N.length_bytes]⟩)

structure CngError where
  code : UInt32
  message : String
deriving DecidableEq

def cngErr (what : String) (e : CngError) : AuthError :=
  .hardware (what ++ ": " ++ e.message ++ " (0x" ++ hexEncode (beBytes 4 e.code.toNat) ++ ")")

-- What the store says to a signature: how long it will be, and what it writes.
structure CngTurn where
  size : Except CngError Nat
  signs : Except CngError Bytes

-- The buffer has the length that was promised.
def CngTurn.buffer (len : Nat) (written : Bytes) : Bytes :=
  (written ++ List.replicate len 0).take len

-- The public key as the store exports it: magic, length, and the two coordinates.
def exportPublic (blob : Bytes) : Except AuthError P256PublicKey :=
  if h : blob.length < 8 + 64 then .error (.malformed "ECC public blob is too short")
  else if leNat (blob.take 4) ≠ 0x31534345 ∨ leNat ((blob.drop 4).take 4) ≠ 32 then
    .error (.malformed "key is not ECDSA P-256")
  else .ok ⟨⟨(blob.drop 8).take 32, by simp; omega⟩, ⟨(blob.drop 40).take 32, by simp; omega⟩⟩

structure WindowsDeviceKey where
  publicKey : P256PublicKey
  requireOsConfirm : Bool

-- The person dismissed the prompt.
def userCancelled : UInt32 := 0x8009002e

def WindowsDeviceKey.sign (C : Crates) (k : WindowsDeviceKey) (t : CngTurn) (confirmation : Confirmation) :
    Except AuthError ApprovalAssertion :=
  if confirmation = .osUserVerification ∧ !k.requireOsConfirm then
    .error (.confirmationUnavailable .deviceKey confirmation)
  else match t.size with
    | .error e => .error (cngErr "size signature" e)
    | .ok len => match t.signs with
      | .error e => .error (if e.code = userCancelled then .cancelled else cngErr "sign" e)
      | .ok written =>
        let sig := CngTurn.buffer len written
        if h : sig.length ≠ 64 then
          .error (.malformed "CNG returned a signature that is not 64 bytes")
        else
          let (r, s) := normalizeLowS ⟨sig.take 32, by simp; omega⟩ ⟨sig.drop 32, by simp; omega⟩
          .ok (.p256Raw (keyId C k.publicKey) r s)

section Normalize

variable {r s : FixedBytes 32}

theorem beNat_N : beNat N.bytes = P256.order := by decide +kernel

theorem beNat_halfN : beNat halfN.bytes = P256.order / 2 := by
  have hhalf := @Digits.beNat_halve N.bytes 0 (by decide)
  rw [beNat_N, UInt8.toNat_zero, Nat.zero_mul, Nat.zero_add] at hhalf
  exact hhalf

theorem isHighS_eq (s : FixedBytes 32) : isHighS s = P256.isHigh s := by
  rw [Bool.eq_iff_iff, isHighS, Digits.greater_iff (by rw [s.length_bytes, halfN.length_bytes]), beNat_halfN,
    P256.isHigh, decide_eq_true_eq]

-- Folding is taking the negative, where there is one; past the order it goes round and stays past it.
theorem beNat_folded (h : P256.isHigh s = true) : beNat (normalizeLowS r s).2.bytes =
    if beNat s.bytes ≤ P256.order then P256.order - beNat s.bytes
    else 256 ^ 32 + P256.order - beNat s.bytes := by
  have hlen : N.bytes.length = s.bytes.length := by rw [N.length_bytes, s.length_bytes]
  have hsubtract := Digits.beNat_subtract hlen
  have hout := beNat_lt (Digits.subtract N.bytes s.bytes).1
  rw [Digits.length_subtract hlen, N.length_bytes] at hout
  rw [beNat_N, N.length_bytes] at hsubtract
  have hs := beNat_lt s.bytes
  rw [s.length_bytes] at hs
  have hfolded : (normalizeLowS r s).2.bytes = (Digits.subtract N.bytes s.bytes).1 := by
    rw [normalizeLowS, isHighS_eq, h]
    rfl
  have horder : P256.order < 256 ^ 32 := by decide
  rw [hfolded]
  generalize (Digits.subtract N.bytes s.bytes).2 = borrow at hsubtract
  cases borrow with
  | false =>
      rw [Bool.toNat_false, Nat.zero_mul] at hsubtract
      rw [if_pos (by omega)]
      omega
  | true =>
      rw [Bool.toNat_true, Nat.one_mul] at hsubtract
      rw [if_neg (by omega)]
      omega

theorem normalizeLowS_low (h : P256.isHigh s = false) : normalizeLowS r s = (r, s) := by
  rw [normalizeLowS, isHighS_eq, h]
  rfl

theorem normalizeLowS_fst : (normalizeLowS r s).1 = r := by
  unfold normalizeLowS
  split <;> rfl

theorem normalizeLowS_high (hs : P256.isScalar s = true) (h : P256.isHigh s = true) :
    normalizeLowS r s = (r, P256.negate s) := by
  have hrange := P256.isScalar_iff.mp hs
  have hfolded := @beNat_folded r s h
  rw [if_pos hrange.2.le, ← P256.beNat_negate] at hfolded
  exact Prod.ext normalizeLowS_fst (Digits.eq_of_beNat hfolded)

-- What was no scalar does not become one.
theorem isScalar_normalizeLowS : P256.isScalar (normalizeLowS r s).2 = P256.isScalar s := by
  cases hhigh : P256.isHigh s with
  | false => rw [normalizeLowS_low hhigh]
  | true =>
      have hfolded := @beNat_folded r s hhigh
      have hs := beNat_lt s.bytes
      rw [s.length_bytes] at hs
      have horder : P256.order < 256 ^ 32 := by decide
      have hpos : P256.order / 2 < beNat s.bytes := of_decide_eq_true hhigh
      rw [Bool.eq_iff_iff, P256.isScalar_iff, P256.isScalar_iff, hfolded]
      split_ifs <;> omega

end Normalize

-- The store's signature as it is: two numbers that meet the equation for the key.
def Signed (C : Crates) (key : P256PublicKey) (digest r s : FixedBytes 32) : Prop :=
  P256.onCurve key.x key.y = true ∧ P256.isScalar r = true ∧ P256.isScalar s = true ∧
    C.ecdsa.holds digest r s key.x key.y = true

section Sign

variable {C : Crates} {key : P256PublicKey} {digest r s : FixedBytes 32} {k : WindowsDeviceKey}
  {t : CngTurn} {confirmation : Confirmation} {a : ApprovalAssertion}

-- High or low, a signature is taken for what it is.
theorem verifyLowS_normalizeLowS (hE : C.ecdsa.Correct) :
    C.ecdsa.verifyLowS digest (normalizeLowS r s).1 (normalizeLowS r s).2 key.x key.y = true ↔
      Signed C key digest r s := by
  rw [Ecdsa.verifyLowS_iff, normalizeLowS_fst, isScalar_normalizeLowS, Signed]
  refine and_congr_right fun _ => and_congr_right fun _ => and_congr_right fun hs => ?_
  cases hhigh : P256.isHigh s with
  | false => rw [normalizeLowS_low hhigh, and_iff_right hhigh]
  | true =>
      rw [normalizeLowS_high hs hhigh, hE.holds_negate _ _ _ _ _ hs, P256.isHigh_negate, hhigh]
      exact and_iff_right rfl

-- What comes of a signature is what the store wrote, folded.
theorem sign_eq_ok (h : k.sign C t confirmation = .ok a) : ∃ len written r s,
    t.size = .ok len ∧ t.signs = .ok written ∧ CngTurn.buffer len written = r.bytes ++ s.bytes ∧
    a = .p256Raw (keyId C k.publicKey) (normalizeLowS r s).1 (normalizeLowS r s).2 := by
  unfold WindowsDeviceKey.sign at h
  split_ifs at h
  cases hsize : t.size with
  | error e =>
      rw [hsize] at h
      cases h
  | ok len => cases hsigns : t.signs with
    | error e =>
        rw [hsize, hsigns] at h
        cases h
    | ok written =>
        rw [hsize, hsigns] at h
        dsimp only at h
        split_ifs at h
        exact ⟨len, written, _, _, rfl, rfl, (List.take_append_drop 32 _).symm, (Except.ok.inj h).symm⟩

end Sign

end Zbacs.Auth.WebAuthn.Windows
