import Zbacs.Core.Types

namespace Zbacs.Core

open Zbacs.Lib

-- The libraries the container format is composed from.
structure Primitives where
  sha256 : Bytes → FixedBytes 32
  blake3 : Bytes → FixedBytes 32
  aead : Aead (FixedBytes 32) (FixedBytes 24)
  hpke : Hpke
  ed25519 : Signature
  headerCodec : Codec Header
  bodyCodec : Codec HeaderBody
  envelopeCodec : Codec Envelope

-- The documented behaviour of XChaCha20-Poly1305 (messages far above a chunk
-- encrypt), of HPKE with X25519 and ChaCha20-Poly1305, of Ed25519 and of the
-- CBOR codec that the container format relies on.
structure Primitives.Lawful (P : Primitives) : Prop where
  aead : P.aead.Correct tagLen (2 ^ 32)
  hpke : P.hpke.Correct 32 tagLen
  ed25519 : P.ed25519.Correct
  headerCodec : P.headerCodec.RoundTrips
  headerBounded : P.headerCodec.Bounded Header.cborBound (2 ^ 32)
  bodyBounded : P.bodyCodec.Bounded HeaderBody.cborBound (2 ^ 32)
  envelopeCodec : P.envelopeCodec.RoundTrips
  envelopeBounded : P.envelopeCodec.Bounded Envelope.cborBound (2 ^ 32)

variable (P : Primitives)

-- An X25519 key pair; the public half is always the one of the secret.
structure DeviceKeys where
  x25519Sk : FixedBytes 32
  x25519Pk : FixedBytes 32
  pk_eq : x25519Pk = P.hpke.publicKey x25519Sk

structure SigningKeys where
  sk : FixedBytes 32

structure OwnerKeys where
  sealing : DeviceKeys P
  signing : SigningKeys

-- `SHA-256(pk)[..16]`
def keyIdOf (pk : Bytes) : KeyId := (P.sha256 pk).first16

variable {P}

def DeviceKeys.fromSecret (sk : FixedBytes 32) : DeviceKeys P := ⟨sk, P.hpke.publicKey sk, rfl⟩

def DeviceKeys.keyId (keys : DeviceKeys P) : KeyId := keyIdOf P keys.x25519Pk.bytes

def SigningKeys.verifyingKey (P : Primitives) (keys : SigningKeys) : FixedBytes 32 :=
  P.ed25519.publicKey keys.sk

theorem DeviceKeys.validKey (keys : DeviceKeys P) : P.hpke.ValidKey keys.x25519Pk.bytes :=
  ⟨keys.x25519Sk, by rw [keys.pk_eq]⟩

end Zbacs.Core
