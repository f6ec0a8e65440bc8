import Zbacs.Core.Envelope

namespace Zbacs.Core

open Zbacs.Lib

variable (P : Primitives)

-- `cbor`: a failing serialiser is a header encoding error.
def cbor {α : Type} (codec : Codec α) (value : α) : Result Bytes :=
  match codec.encode value with
  | .error why => .error (.headerEncode why)
  | .ok bytes => .ok bytes

def signingMessage (body : HeaderBody) : Result Bytes := do
  let bytes ← cbor P.bodyCodec body
  return hdrSigDomain ++ bytes

def HeaderBody.sign (body : HeaderBody) (keys : SigningKeys) : Result Header := do
  let msg ← signingMessage P body
  return ⟨body, (keys.verifyingKey P).bytes, (P.ed25519.sign keys.sk msg).bytes⟩

namespace Header

def encode (h : Header) : Result Bytes := do
  let bytes ← cbor P.headerCodec h
  if bytes.length > maxHeaderLen then .error (.headerTooLarge bytes.length) else return bytes

def verify (h : Header) : Result Unit :=
  match FixedBytes.ofBytes? 32 h.sigk with
  | none => .error .headerSignature
  | some vk =>
    if !P.ed25519.validKey vk then .error .headerSignature
    else match FixedBytes.ofBytes? 64 h.sig with
      | none => .error .headerSignature
      | some sig => do
        let msg ← signingMessage P h.body
        if P.ed25519.verify vk msg sig then return () else .error .headerSignature

def decodeVerified (bytes : Bytes) : Result (Header × HeaderHash) :=
  if bytes.length > maxHeaderLen then .error (.headerTooLarge bytes.length)
  else match P.headerCodec.decode bytes with
    | .error why => .error (.headerDecode why)
    | .ok h => do
      verify P h
      return (h, P.sha256 bytes)

def headerHash (h : Header) : Result HeaderHash := do
  let bytes ← h.encode P
  return P.sha256 bytes

end Header

variable {P}

theorem cbor_eq_ok {α : Type} {codec : Codec α} {value : α} {bytes : Bytes} :
    cbor codec value = .ok bytes ↔ codec.encode value = .ok bytes := by
  unfold cbor
  cases codec.encode value <;> simp

theorem signingMessage_ok (hP : P.Lawful) (body : HeaderBody) (hb : body.cborBound ≤ 2 ^ 32) :
    ∃ msg, signingMessage P body = .ok msg := by
  obtain ⟨bytes, he, _⟩ := hP.bodyBounded body hb
  exact ⟨hdrSigDomain ++ bytes, by simp [signingMessage, cbor_eq_ok.mpr he, bind, Except.bind]; rfl⟩

theorem HeaderBody.sign_ok (hP : P.Lawful) (body : HeaderBody) (keys : SigningKeys)
    (hb : body.cborBound ≤ 2 ^ 32) : ∃ h, body.sign P keys = .ok h := by
  obtain ⟨msg, he⟩ := signingMessage_ok hP body hb
  exact ⟨_, by simp [HeaderBody.sign, he, bind, Except.bind]; rfl⟩

theorem HeaderBody.sign_eq_ok {body : HeaderBody} {keys : SigningKeys} {h : Header}
    (hs : body.sign P keys = .ok h) :
    h.body = body ∧ h.sigk = (keys.verifyingKey P).bytes ∧ h.sig.length = 64 := by
  unfold HeaderBody.sign at hs
  cases hm : signingMessage P body with
  | error e => simp [hm, bind, Except.bind] at hs
  | ok msg =>
      simp only [hm, bind, Except.bind, pure, Except.pure, Except.ok.injEq] at hs
      subst hs
      exact ⟨rfl, rfl, by simp⟩

-- A header the signer just produced verifies.
theorem Header.verify_sign (hP : P.Lawful) {body : HeaderBody} {keys : SigningKeys} {h : Header}
    (hs : body.sign P keys = .ok h) : h.verify P = .ok () := by
  unfold HeaderBody.sign at hs
  cases hm : signingMessage P body with
  | error e => simp [hm, bind, Except.bind] at hs
  | ok msg =>
      simp only [hm, bind, Except.bind, pure, Except.pure, Except.ok.injEq] at hs
      subst hs
      have hv := hP.ed25519.validKey_publicKey keys.sk
      have hsig := hP.ed25519.verify_sign keys.sk msg
      simp [Header.verify, SigningKeys.verifyingKey, hm, hv, hsig, bind, Except.bind]
      rfl

namespace Header

theorem encode_eq_ok {h : Header} {bytes : Bytes} :
    h.encode P = .ok bytes ↔
      P.headerCodec.encode h = .ok bytes ∧ bytes.length ≤ maxHeaderLen := by
  unfold encode
  cases hc : cbor P.headerCodec h with
  | error e =>
      have : P.headerCodec.encode h ≠ .ok bytes := by
        intro he
        rw [cbor_eq_ok.mpr he] at hc
        cases hc
      simp [bind, Except.bind, this]
  | ok b =>
      rw [cbor_eq_ok] at hc
      simp only [bind, Except.bind, hc, Except.ok.injEq]
      split_ifs with hl
      · simp only [false_iff, not_and]
        rintro rfl
        omega
      · simp only [pure, Except.pure, Except.ok.injEq]
        constructor
        · rintro rfl
          exact ⟨rfl, by omega⟩
        · exact And.left

theorem encode_ok (hP : P.Lawful) (h : Header) (hb : h.cborBound ≤ maxHeaderLen) :
    ∃ bytes, h.encode P = .ok bytes ∧ bytes.length ≤ maxHeaderLen := by
  have hmax : maxHeaderLen ≤ 2 ^ 32 := by decide
  obtain ⟨bytes, he, hl⟩ := hP.headerBounded h (hb.trans hmax)
  exact ⟨bytes, encode_eq_ok.mpr ⟨he, hl.trans hb⟩, hl.trans hb⟩

theorem decodeVerified_encode (hP : P.Lawful) {h : Header} {bytes : Bytes}
    (he : h.encode P = .ok bytes) (hv : h.verify P = .ok ()) :
    decodeVerified P bytes = .ok (h, P.sha256 bytes) := by
  obtain ⟨hc, hl⟩ := encode_eq_ok.mp he
  simp only [decodeVerified, hP.headerCodec hc, hv, bind, Except.bind]
  rw [if_neg (by omega)]
  rfl

theorem headerHash_eq {h : Header} {bytes : Bytes} (he : h.encode P = .ok bytes) :
    h.headerHash P = .ok (P.sha256 bytes) := by
  simp [headerHash, he, bind, Except.bind]
  rfl

-- An accepted header verifies, and its hash is that of the bytes it came from.
theorem decodeVerified_eq_ok {bytes : Bytes} {h : Header} {hash : HeaderHash}
    (hd : decodeVerified P bytes = .ok (h, hash)) :
    P.headerCodec.decode bytes = .ok h ∧ h.verify P = .ok () ∧ hash = P.sha256 bytes := by
  unfold decodeVerified at hd
  split_ifs at hd with hl
  cases hc : P.headerCodec.decode bytes with
  | error e => simp [hc] at hd
  | ok h' =>
      cases hv : h'.verify P with
      | error e => simp [hc, hv, bind, Except.bind] at hd
      | ok u =>
          simp only [hc, hv, bind, Except.bind, pure, Except.pure, Except.ok.injEq,
            Prod.mk.injEq] at hd
          obtain ⟨rfl, rfl⟩ := hd
          exact ⟨rfl, hv, rfl⟩

end Header

end Zbacs.Core
