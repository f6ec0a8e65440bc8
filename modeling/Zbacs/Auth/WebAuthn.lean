import Zbacs.Auth.Otak
import Zbacs.Lib.Base64
import Zbacs.Lib.Ecdsa
import Zbacs.Lib.Json.Value

namespace Zbacs.Auth.WebAuthn

open Zbacs.Lib Zbacs.Lib.Json
open Zbacs.Core (utf8)
open Zbacs.Agent (Confirmation)
open Zbacs.Agent.Setup (SignerKind P256PublicKey)

-- The assertions of P-256 signers, and the check the agent makes of one before it is spent on chain.

inductive AuthError where
  | cancelled
  | confirmationUnavailable (kind : SignerKind) (confirmation : Confirmation)
  | hardware (what : String)
  | unsupported (kind : SignerKind)
  | malformed (why : String)
  | invalidSignature
  | highS
  | challengeMismatch
  | userVerificationMissing
  | encode (what : String)
deriving DecidableEq

def kindWord : SignerKind → String
  | .platformPasskey => "PlatformPasskey"
  | .deviceKey => "DeviceKey"
  | .bsa => "Bsa"
  | .otak => "Otak"

def confirmationWord : Confirmation → String
  | .notRequired => "NotRequired"
  | .osUserVerification => "OsUserVerification"

def AuthError.text : AuthError → String
  | cancelled => "approval cancelled by user"
  | confirmationUnavailable kind confirmation =>
    "signer " ++ kindWord kind ++ " cannot provide " ++ confirmationWord confirmation
  | hardware what => "authenticator error: " ++ what
  | unsupported kind => "signer kind " ++ kindWord kind ++ " is not available on this device"
  | malformed why => "assertion is malformed: " ++ why
  | invalidSignature => "assertion does not verify against the registered key"
  | highS => "signature is not low-s normalised"
  | challengeMismatch => "client data challenge mismatch"
  | userVerificationMissing => "authenticator did not report user presence/verification"
  | encode what => "encoding: " ++ what

-- The kind of signer that makes it.
def kind : ApprovalAssertion → SignerKind
  | .webAuthn .. => .platformPasskey
  | .p256Raw .. => .deviceKey
  | .bsa _ => .bsa
  | .otak .. => .otak

-- What the check rests on: the curve, the hashes and the reader of JSON.
structure Crates where
  ecdsa : Ecdsa
  keccak256 : Bytes → FixedBytes 32
  sha256 : Bytes → FixedBytes 32
  fromStr : String → Option Value

variable (C : Crates)

def keyId (key : P256PublicKey) : KeyId := C.keccak256 (key.x.bytes ++ key.y.bytes)

structure AuthenticatorFlags where
  byte : UInt8
deriving DecidableEq

namespace AuthenticatorFlags

-- user present
def up (f : AuthenticatorFlags) : Bool := f.byte &&& 0x01 ≠ 0

-- user verified
def uv (f : AuthenticatorFlags) : Bool := f.byte &&& 0x04 ≠ 0

-- backup eligible
def be (f : AuthenticatorFlags) : Bool := f.byte &&& 0x08 ≠ 0

-- backed up
def bs (f : AuthenticatorFlags) : Bool := f.byte &&& 0x10 ≠ 0

-- The passkey lives in a cloud keychain.
def isSynced (f : AuthenticatorFlags) : Bool := f.be || f.bs

end AuthenticatorFlags

structure AuthenticatorData where
  rpIdHash : FixedBytes 32
  flags : AuthenticatorFlags
  signCount : UInt32
deriving DecidableEq

def AuthenticatorData.parse (bytes : Bytes) : Except AuthError AuthenticatorData :=
  if h : bytes.length < 37 then .error (.malformed "authenticator data shorter than 37 bytes")
  else .ok
    { rpIdHash := ⟨bytes.take 32, by simp; omega⟩
      flags := ⟨bytes.getD 32 0⟩
      signCount := .ofNat (beNat ((bytes.drop 33).take 4)) }

-- What the authenticator signed.
def webauthnSignedDigest (authenticatorData : Bytes) (clientDataJson : String) : FixedBytes 32 :=
  C.sha256 (authenticatorData ++ (C.sha256 (utf8 clientDataJson)).bytes)

-- The challenge in the client data.
def clientDataChallenge (clientDataJson : String) : Except AuthError Bytes :=
  match C.fromStr clientDataJson with
  | none => .error (.malformed "client data is not JSON")
  | some v =>
    if (v.get "type").bind Value.asStr ≠ some "webauthn.get" then
      .error (.malformed "client data type is not webauthn.get")
    else match (v.get "challenge").bind Value.asStr with
      | none => .error (.malformed "client data has no challenge")
      | some c => match Base64.decode c.toList with
        | none => .error (.malformed "challenge is not base64url")
        | some b => .ok b

-- Raw verification over a hash; only low ones are taken. A key is coordinates until it is looked at.
def verifyP256 (key : P256PublicKey) (digest r s : FixedBytes 32) : Except AuthError Unit :=
  if !P256.onCurve key.x key.y then .error (.malformed "public key not on curve")
  else if !(P256.isScalar r && P256.isScalar s) then .error (.malformed "r/s out of range")
  else if (P256.normalizeS s).isSome then .error .highS
  else if !C.ecdsa.holds digest r s key.x key.y then .error .invalidSignature
  else .ok ()

def verifyAssertion (key : P256PublicKey) (challenge : FixedBytes 32) :
    ApprovalAssertion → Except AuthError Unit
  | .webAuthn authenticatorData clientDataJson r s => do
    let ad ← AuthenticatorData.parse authenticatorData
    if !(ad.flags.up && ad.flags.uv) then .error .userVerificationMissing
    else
      let found ← clientDataChallenge C clientDataJson
      if found ≠ challenge.bytes then .error .challengeMismatch
      else verifyP256 C key (webauthnSignedDigest C authenticatorData clientDataJson) r s
  | .p256Raw id r s =>
    if id ≠ keyId C key then .error .invalidSignature
    else verifyP256 C key challenge r s
  | .bsa _ | .otak .. =>
    .error (.malformed "BSA/OTAK assertions are not P-256; verify through their provider")

section Verify

variable {C} {key : P256PublicKey} {challenge digest r s : FixedBytes 32} {id : KeyId}

theorem verifyP256_eq_ok : verifyP256 C key digest r s = .ok () ↔
    C.ecdsa.verifyLowS digest r s key.x key.y = true := by
  rw [Ecdsa.verifyLowS_iff]
  unfold verifyP256 P256.normalizeS
  by_cases hcurve : P256.onCurve key.x key.y = true
  · by_cases hscalars : P256.isScalar r = true ∧ P256.isScalar s = true
    · by_cases hhigh : P256.isHigh s = true
      · simp [hcurve, hscalars, hhigh]
      · by_cases hholds : C.ecdsa.holds digest r s key.x key.y = true
        · simp [hcurve, hscalars, hhigh, hholds]
        · simp [hcurve, hscalars, hhigh, hholds]
    · have hrange : (P256.isScalar r && P256.isScalar s) = false := by
        rw [← Bool.not_eq_true, Bool.and_eq_true]
        exact hscalars
      simp only [hcurve, hrange]
      simp only [Bool.not_true, Bool.not_false, Bool.false_eq_true, if_false, if_true, reduceCtorEq,
        true_and, false_iff]
      exact fun h => hscalars ⟨h.1, h.2.1⟩
  · simp [hcurve]

theorem verifyAssertion_raw : verifyAssertion C key challenge (.p256Raw id r s) = .ok () ↔
    id = keyId C key ∧ C.ecdsa.verifyLowS challenge r s key.x key.y = true := by
  rw [verifyAssertion]
  by_cases hid : id = keyId C key
  · rw [if_neg (not_not_intro hid), verifyP256_eq_ok]
    simp [hid]
  · rw [if_pos hid]
    simp [hid]

theorem clientDataChallenge_eq_ok {text : String} {b : Bytes} : clientDataChallenge C text = .ok b ↔
    ∃ v, C.fromStr text = some v ∧ (v.get "type").bind Value.asStr = some "webauthn.get" ∧
      (v.get "challenge").bind Value.asStr = some (String.ofList (Base64.encode b)) := by
  unfold clientDataChallenge
  constructor
  · intro h
    split at h
    · cases h
    · rename_i v hv
      split_ifs at h with htype
      split at h
      · cases h
      · rename_i c hc
        split at h
        · cases h
        · rename_i found hdecode
          cases h
          refine ⟨v, hv, not_not.mp htype, ?_⟩
          rw [hc, Base64.encode_of_decode hdecode, String.ofList_toList]
  · rintro ⟨v, hv, htype, hc⟩
    simp only [hv, htype, hc]
    simp [String.toList_ofList, Base64.decode_encode]

theorem parse_eq_ok {b : Bytes} {ad : AuthenticatorData} (h : AuthenticatorData.parse b = .ok ad) :
    37 ≤ b.length ∧ ad.flags = ⟨b.getD 32 0⟩ := by
  unfold AuthenticatorData.parse at h
  split_ifs at h with hlen
  cases h
  exact ⟨Nat.not_lt.mp hlen, rfl⟩

theorem exists_parse {b : Bytes} (h : 37 ≤ b.length) : ∃ ad, AuthenticatorData.parse b = .ok ad ∧
    ad.flags = ⟨b.getD 32 0⟩ := by
  unfold AuthenticatorData.parse
  rw [dif_neg (Nat.not_lt.mpr h)]
  exact ⟨_, rfl, rfl⟩

-- Everything up to the signature.
structure Fits (C : Crates) (challenge : FixedBytes 32) (authenticatorData : Bytes)
    (clientDataJson : String) : Prop where
  long : 37 ≤ authenticatorData.length
  up : (⟨authenticatorData.getD 32 0⟩ : AuthenticatorFlags).up = true
  uv : (⟨authenticatorData.getD 32 0⟩ : AuthenticatorFlags).uv = true
  -- an assertion, for this challenge in its one spelling
  clientData : ∃ v, C.fromStr clientDataJson = some v ∧
    (v.get "type").bind Value.asStr = some "webauthn.get" ∧
    (v.get "challenge").bind Value.asStr = some (String.ofList (Base64.encode challenge.bytes))

theorem verifyAssertion_of_fits {ad : Bytes} {text : String} (h : Fits C challenge ad text) :
    verifyAssertion C key challenge (.webAuthn ad text r s) =
      verifyP256 C key (webauthnSignedDigest C ad text) r s := by
  obtain ⟨parsed, hparse, hflags⟩ := exists_parse h.long
  have hup : parsed.flags.up = true := hflags ▸ h.up
  have huv : parsed.flags.uv = true := hflags ▸ h.uv
  have hdata := clientDataChallenge_eq_ok.mpr h.clientData
  simp [verifyAssertion, hparse, hup, huv, hdata]

theorem verifyAssertion_webAuthn {ad : Bytes} {text : String} :
    verifyAssertion C key challenge (.webAuthn ad text r s) = .ok () ↔ Fits C challenge ad text ∧
      C.ecdsa.verifyLowS (webauthnSignedDigest C ad text) r s key.x key.y = true := by
  constructor
  · intro h
    simp only [verifyAssertion, bind_eq_ok, ite_error_eq_ok] at h
    obtain ⟨parsed, hparse, hseen, found, hfound, hchallenge, h⟩ := h
    obtain ⟨hlong, hflags⟩ := parse_eq_ok hparse
    rw [not_not] at hchallenge
    subst hchallenge
    simp only [Bool.not_eq_true', Bool.not_eq_false, Bool.and_eq_true, hflags] at hseen
    exact ⟨⟨hlong, hseen.1, hseen.2, clientDataChallenge_eq_ok.mp hfound⟩, verifyP256_eq_ok.mp h⟩
  · rintro ⟨hfits, hverify⟩
    rw [verifyAssertion_of_fits hfits, verifyP256_eq_ok.mpr hverify]

end Verify

-- What the check of an assertion lets through.

-- The other signature that meets the same equation.
def twin : ApprovalAssertion → ApprovalAssertion
  | .webAuthn authenticatorData clientDataJson r s =>
    .webAuthn authenticatorData clientDataJson r (P256.negate s)
  | .p256Raw id r s => .p256Raw id r (P256.negate s)
  | .bsa token => .bsa token
  | .otak identity mac => .otak identity mac

section Exact

variable {C} {key : P256PublicKey} {challenge digest r s : FixedBytes 32}

-- The high one of two signatures gets as far as the low one, and is refused for what it is.
theorem verifyP256_negate (h : verifyP256 C key digest r s = .ok ()) :
    verifyP256 C key digest r (P256.negate s) = .error .highS := by
  obtain ⟨hcurve, hr, hs, hlow, -⟩ := Ecdsa.verifyLowS_iff.mp (verifyP256_eq_ok.mp h)
  have hhigh : P256.isHigh (P256.negate s) = true := by
    rw [P256.isHigh_negate, hlow]
    rfl
  have hnegate := P256.isScalar_negate hs
  simp [verifyP256, P256.normalizeS, hcurve, hr, hnegate, hhigh]

theorem verifyAssertion_cases {a : ApprovalAssertion} : verifyAssertion C key challenge a = .ok () ↔
    (∃ r s, a = .p256Raw (keyId C key) r s ∧ verifyP256 C key challenge r s = .ok ()) ∨
    ∃ ad text r s, a = .webAuthn ad text r s ∧ Fits C challenge ad text ∧
      verifyP256 C key (webauthnSignedDigest C ad text) r s = .ok () := by
  cases a with
  | webAuthn ad text r s =>
      rw [verifyAssertion_webAuthn, ← verifyP256_eq_ok]
      simp
  | p256Raw id r s =>
      rw [verifyAssertion_raw, ← verifyP256_eq_ok]
      simp [and_comm]
  | bsa token => simp [verifyAssertion]
  | otak identity mac => simp [verifyAssertion]

theorem Fits.challenge_unique {ad : Bytes} {text : String} {other : FixedBytes 32}
    (h : Fits C challenge ad text) (h' : Fits C other ad text) : challenge = other := by
  have hfound := clientDataChallenge_eq_ok.mpr h.clientData
  rw [clientDataChallenge_eq_ok.mpr h'.clientData] at hfound
  exact FixedBytes.ext (Except.ok.inj hfound).symm

end Exact

-- The check lets through just the raw signatures of the challenge that name the key, and the passkey
-- assertions whose data is long enough, was made with the user present and verified, and carries the challenge.
-- Each signature passes in one form, the other one of the same equation is refused for being high,
-- and what a passkey signed passes for one challenge under whatever keys.
theorem accepts_one_form {C : Crates} {key : P256PublicKey} {challenge : FixedBytes 32} {a : ApprovalAssertion} :
    (verifyAssertion C key challenge a = .ok () ↔
      (∃ r s, a = .p256Raw (keyId C key) r s ∧ C.ecdsa.verifyLowS challenge r s key.x key.y = true) ∨
      ∃ ad text r s, a = .webAuthn ad text r s ∧ Fits C challenge ad text ∧
        C.ecdsa.verifyLowS (webauthnSignedDigest C ad text) r s key.x key.y = true) ∧
    (verifyAssertion C key challenge a = .ok () →
      verifyAssertion C key challenge (twin a) = .error .highS ∧
      ∀ ad text r s, a = .webAuthn ad text r s → ∀ key' other, other ≠ challenge →
        verifyAssertion C key' other a ≠ .ok ()) := by
  constructor
  · rw [verifyAssertion_cases]
    simp only [verifyP256_eq_ok]
  · intro h
    constructor
    · rcases verifyAssertion_cases.mp h with ⟨r, s, rfl, hverify⟩ | ⟨ad, text, r, s, rfl, hfits, hverify⟩
      · rw [twin, verifyAssertion, if_neg (not_not_intro rfl)]
        exact verifyP256_negate hverify
      · rw [twin, verifyAssertion_of_fits hfits]
        exact verifyP256_negate hverify
    · rintro ad text r s rfl key' other hother hverify
      have hfits := (verifyAssertion_webAuthn.mp h).1
      exact hother (hfits.challenge_unique (verifyAssertion_webAuthn.mp hverify).1).symm

end Zbacs.Auth.WebAuthn
