import Zbacs.Core.Path.Versions
import Zbacs.Proto.Wire

namespace Zbacs.Proto

open Zbacs.Lib Zbacs.Core

variable {L : Libraries}

section Bytes

variable {kind kind' : Kind} {ts ts' : UInt64} {nonce nonce' : FixedBytes 16} {payload payload' : Bytes}

theorem asStr_injective (h : utf8 kind.asStr = utf8 kind'.asStr) : kind = kind' := by
  cases kind <;> cases kind' <;> first | rfl | exact absurd h (by decide)

-- Whatever the kind, 56 bytes follow it: the kind ends where these begin, and needs no length of
-- its own.
theorem signingBytes_inj : signingBytes L kind ts nonce payload = signingBytes L kind' ts' nonce' payload' ↔
    kind = kind' ∧ ts = ts' ∧ nonce = nonce' ∧ L.sha256 payload = L.sha256 payload' := by
  constructor
  · intro h
    obtain ⟨hnonces, hhash⟩ := List.append_inj' h (by simp)
    obtain ⟨htimes, hnonce⟩ := List.append_inj' hnonces (by simp)
    obtain ⟨hkinds, hts⟩ := List.append_inj' htimes (by simp)
    have hkind := List.append_cancel_left hkinds
    refine ⟨asStr_injective hkind, ?_, FixedBytes.ext hnonce, FixedBytes.ext hhash⟩
    exact UInt64.toNat_inj.mp (leBytes_inj ts.toNat_lt ts'.toNat_lt hts)
  · rintro ⟨rfl, rfl, rfl, hhash⟩
    rw [signingBytes, signingBytes, hhash]

-- The two domains are different strings of one length.
theorem relaySigDomain_append_ne (more more' : Bytes) : relaySigDomain ++ more ≠ hdrSigDomain ++ more' := by
  intro h
  have hdomain := (List.append_inj h (by decide)).1
  exact absurd hdomain (by decide)

theorem signingBytes_ne_signingMessage {body : HeaderBody} {msg : Bytes}
    (hmsg : signingMessage L.toPrimitives body = .ok msg) :
    signingBytes L kind ts nonce payload ≠ msg := by
  obtain ⟨bytes, -, hmsg⟩ := bind_eq_ok.mp hmsg
  cases hmsg
  simp only [signingBytes, List.append_assoc]
  exact relaySigDomain_append_ne _ _

end Bytes

section Verify

variable {α : Type} {kind : Kind} {codec : Codec α} {key : FixedBytes 32} {s : Signed}

theorem verifyRaw_eq_ok {msg : Bytes} {sig : FixedBytes 64} : verifyRaw L key msg sig = .ok () ↔
    L.ed25519.validKey key = true ∧ L.ed25519.verify key msg sig = true := by
  rw [verifyRaw, ite_error_eq_ok, Bool.not_eq_true', Bool.not_eq_false]
  cases L.ed25519.verify key msg sig <;> simp

-- Both ways to verify check the kind, and the signature over all that is not the signature.
theorem Signed.verify_signature {now : UInt64} {read : α × FixedBytes 16}
    (h : s.verify L kind codec key now = .ok read) :
    s.kind = kind ∧ L.ed25519.verify key (signingBytes L s.kind s.ts s.nonce s.payload) s.sig = true := by
  unfold Signed.verify at h
  simp only [ite_error_eq_ok, not_not] at h
  obtain ⟨hkind, -, -, -, h⟩ := h
  obtain ⟨⟨⟩, hraw, -⟩ := bind_eq_ok.mp h
  exact ⟨hkind, (verifyRaw_eq_ok.mp hraw).2⟩

theorem Signed.verifyQueued_signature {read : α × UInt64}
    (h : s.verifyQueued L kind codec key = .ok read) :
    s.kind = kind ∧ L.ed25519.verify key (signingBytes L s.kind s.ts s.nonce s.payload) s.sig = true := by
  unfold Signed.verifyQueued at h
  simp only [ite_error_eq_ok, not_not] at h
  obtain ⟨hkind, -, -, h⟩ := h
  obtain ⟨⟨⟩, hraw, -⟩ := bind_eq_ok.mp h
  exact ⟨hkind, (verifyRaw_eq_ok.mp hraw).2⟩

end Verify

-- What one device has signed: relay messages and container headers, the two uses of its Ed25519 key.
structure SigningLog where
  messages : Set Signed
  headers : Set HeaderBody

namespace SigningLog

variable (L)

def Signs (log : SigningLog) (msg : Bytes) : Prop :=
  (∃ sent ∈ log.messages, msg = signingBytes L sent.kind sent.ts sent.nonce sent.payload) ∨
    ∃ body ∈ log.headers, signingMessage L.toPrimitives body = .ok msg

-- Nothing is forged in this envelope: if its signature verifies, the device signed these bytes.
def Unforged (log : SigningLog) (key : FixedBytes 32) (s : Signed) : Prop :=
  L.ed25519.verify key (signingBytes L s.kind s.ts s.nonce s.payload) s.sig = true →
    log.Signs L (signingBytes L s.kind s.ts s.nonce s.payload)

-- No payload that was sent collides with the one of this envelope.
def CollisionFree (log : SigningLog) (s : Signed) : Prop :=
  ∀ sent ∈ log.messages, L.sha256 sent.payload = L.sha256 s.payload → sent.payload = s.payload

-- The device sent this kind, time, nonce and payload.
def Sent (log : SigningLog) (kind : Kind) (s : Signed) : Prop :=
  ∃ sent ∈ log.messages, sent.kind = kind ∧ sent.ts = s.ts ∧ sent.nonce = s.nonce ∧
    sent.payload = s.payload

variable {L} {log : SigningLog} {key : FixedBytes 32} {s : Signed}

theorem sent_of_verify (hforge : log.Unforged L key s) (hfree : log.CollisionFree L s)
    (hverify : L.ed25519.verify key (signingBytes L s.kind s.ts s.nonce s.payload) s.sig = true) :
    log.Sent s.kind s := by
  rcases hforge hverify with ⟨sent, hsent, hsame⟩ | ⟨body, -, hmsg⟩
  · obtain ⟨hkind, hts, hnonce, hhash⟩ := signingBytes_inj.mp hsame
    exact ⟨sent, hsent, hkind.symm, hts.symm, hnonce.symm, hfree sent hsent hhash.symm⟩
  · exact absurd rfl (signingBytes_ne_signingMessage hmsg)

end SigningLog

-- What is signed says which kind, time, nonce and payload it is for, and is never what is signed of
-- a container header; so an envelope that verifies was sent as it is.
theorem signed_unambiguous (L : Libraries) :
    (∀ kind kind' ts ts' nonce nonce' payload payload',
      signingBytes L kind ts nonce payload = signingBytes L kind' ts' nonce' payload' ↔
        kind = kind' ∧ ts = ts' ∧ nonce = nonce' ∧ L.sha256 payload = L.sha256 payload') ∧
    (∀ kind ts nonce payload body msg, signingMessage L.toPrimitives body = .ok msg →
      signingBytes L kind ts nonce payload ≠ msg) ∧
    ∀ (log : SigningLog) (key : FixedBytes 32) (s : Signed), log.Unforged L key s →
      log.CollisionFree L s → ∀ (α : Type) (kind : Kind) (codec : Codec α),
        (∀ now read, s.verify L kind codec key now = .ok read → log.Sent kind s) ∧
          ∀ read, s.verifyQueued L kind codec key = .ok read → log.Sent kind s := by
  refine ⟨fun _ _ _ _ _ _ _ _ => signingBytes_inj,
    fun _ _ _ _ _ _ hmsg => signingBytes_ne_signingMessage hmsg, ?_⟩
  intro log key s hforge hfree α kind codec
  constructor
  · intro now read h
    obtain ⟨rfl, hverify⟩ := Signed.verify_signature h
    exact log.sent_of_verify hforge hfree hverify
  · intro read h
    obtain ⟨rfl, hverify⟩ := Signed.verifyQueued_signature h
    exact log.sent_of_verify hforge hfree hverify

namespace Reference

-- A revocation as a device sends it at time 100; it has also signed a header.
def revocation : Revoke := ⟨.replicate 32 1, .replicate 32 2, 100⟩

def revokingKeys : SigningKeys := ⟨.replicate 32 0x31⟩

def revokingPub : FixedBytes 32 := revokingKeys.verifyingKey libraries.toPrimitives

def revokeNonce : FixedBytes 16 := .replicate 16 3

def sentRevocation : Signed where
  payload := revokeWire.put revocation
  kid := kidOf libraries revokingPub
  kind := .revoke
  ts := 100
  nonce := revokeNonce
  sig := libraries.ed25519.sign revokingKeys.sk
    (signingBytes libraries .revoke 100 revokeNonce (revokeWire.put revocation))

def signingLog : SigningLog := ⟨{sentRevocation}, {Core.Reference.firstHeader.body}⟩

theorem sentRevocation_verified : sentRevocation.verify libraries .revoke libraries.revokeCodec
    revokingPub 120 = .ok (revocation, revokeNonce) ∧ signingLog.Sent .revoke sentRevocation := by
  have hverify : sentRevocation.verify libraries .revoke libraries.revokeCodec revokingPub 120 =
      .ok (revocation, revokeNonce) := by decide +kernel
  have hforge : signingLog.Unforged libraries revokingPub sentRevocation :=
    fun _ => .inl ⟨sentRevocation, rfl, rfl⟩
  have hfree : signingLog.CollisionFree libraries sentRevocation := by
    rintro sent rfl -
    rfl
  exact ⟨hverify, ((signed_unambiguous libraries).2.2 signingLog revokingPub sentRevocation hforge
    hfree Revoke .revoke libraries.revokeCodec).1 120 _ hverify⟩

end Reference

end Zbacs.Proto
