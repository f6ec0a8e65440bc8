import Zbacs.Auth.WebAuthn

namespace Zbacs.Auth.WebAuthn.Software

open Zbacs.Lib Zbacs.Lib.Json
open Zbacs.Core (utf8)
open Zbacs.Agent (Confirmation)
open Zbacs.Agent.Setup (SignerKind P256PublicKey ApprovalStyle Signer DeviceProfile)

-- Signers in software, in place of an authenticator or of a key in hardware. Both keep the same
-- scalar, under one entry of the key store.

-- A key as the generator gives it.
structure SigningKey where
  scalar : FixedBytes 32
  isScalar : P256.isScalar scalar = true

-- Short slices are filled up with zeros in front.
def SigningKey.fromSlice (secret : Bytes) : Except AuthError SigningKey :=
  if hlen : 24 ≤ secret.length ∧ secret.length ≤ 32 then
    let scalar : FixedBytes 32 := ⟨List.replicate (32 - secret.length) 0 ++ secret, by simp; omega⟩
    if h : P256.isScalar scalar = true then .ok ⟨scalar, h⟩ else .error (.malformed "not a P-256 scalar")
  else .error (.malformed "not a P-256 scalar")

theorem SigningKey.fromSlice_bytes (sk : SigningKey) : fromSlice sk.scalar.bytes = .ok sk := by
  have hlen : 24 ≤ sk.scalar.bytes.length ∧ sk.scalar.bytes.length ≤ 32 := by simp
  have hscalar : (⟨List.replicate (32 - sk.scalar.bytes.length) 0 ++ sk.scalar.bytes,
      by simp⟩ : FixedBytes 32) = sk.scalar := by
    apply FixedBytes.ext
    simp
  rw [fromSlice, dif_pos hlen]
  dsimp only
  have hvalid := sk.isScalar
  rw [← hscalar] at hvalid
  rw [dif_pos hvalid]
  congr 1
  cases sk
  congr 1

section Signers

variable (C : Crates)

def publicKeyOf (sk : SigningKey) : P256PublicKey :=
  ⟨(C.ecdsa.publicKey sk.scalar).1, (C.ecdsa.publicKey sk.scalar).2⟩

def signLowS (sk : SigningKey) (digest : FixedBytes 32) : FixedBytes 32 × FixedBytes 32 :=
  C.ecdsa.signLowS sk.scalar digest

structure SoftwareDeviceKey where
  sk : SigningKey
  osConfirmation : Bool

namespace SoftwareDeviceKey

def fromSecret (secret : Bytes) (osConfirmation : Bool) : Except AuthError SoftwareDeviceKey := do
  let sk ← SigningKey.fromSlice secret
  .ok ⟨sk, osConfirmation⟩

def sign (k : SoftwareDeviceKey) (challenge : ApprovalChallenge) (confirmation : Confirmation) :
    Except AuthError ApprovalAssertion :=
  if confirmation = .osUserVerification ∧ !k.osConfirmation then
    .error (.confirmationUnavailable .deviceKey confirmation)
  else
    let (r, s) := signLowS C k.sk challenge.digest
    .ok (.p256Raw (keyId C (publicKeyOf C k.sk)) r s)

end SoftwareDeviceKey

structure SoftwarePasskey where
  sk : SigningKey
  rpId : String
  origin : String
  synced : Bool
  counter : UInt32

-- The origin goes in as it is.
def clientData (digest : FixedBytes 32) (origin : String) : String :=
  "\x7b\"type\":\"webauthn.get\",\"challenge\":\"" ++ String.ofList (Base64.encode digest.bytes) ++
    "\",\"origin\":\"" ++ origin ++ "\",\"crossOrigin\":false\x7d"

namespace SoftwarePasskey

def fromSecret (secret : Bytes) (rpId origin : String) (synced : Bool) :
    Except AuthError SoftwarePasskey := do
  let sk ← SigningKey.fromSlice secret
  .ok ⟨sk, rpId, origin, synced, 0⟩

def flags (p : SoftwarePasskey) : UInt8 := 0x01 ||| 0x04 ||| if p.synced then 0x08 ||| 0x10 else 0

-- A platform authenticator always verifies the user.
def sign (p : SoftwarePasskey) (challenge : ApprovalChallenge) : ApprovalAssertion × SoftwarePasskey :=
  let clientDataJson := clientData challenge.digest p.origin
  let count := p.counter + 1
  let authenticatorData := (C.sha256 (utf8 p.rpId)).bytes ++ [p.flags] ++ beBytes 4 count.toNat
  let (r, s) := signLowS C p.sk (webauthnSignedDigest C authenticatorData clientDataJson)
  (.webAuthn authenticatorData clientDataJson r s, { p with counter := count })

end SoftwarePasskey

inductive Provider where
  | passkey (p : SoftwarePasskey)
  | deviceKey (k : SoftwareDeviceKey)

def Provider.sk : Provider → SigningKey
  | passkey p => p.sk
  | deviceKey k => k.sk

def Provider.signer (p : Provider) : Signer where
  kind := match p with
    | passkey _ => .platformPasskey
    | deviceKey _ => .deviceKey
  keyId := keyId C (publicKeyOf C p.sk)
  publicKey := some (publicKeyOf C p.sk)

def Provider.sign (p : Provider) (challenge : ApprovalChallenge) (confirmation : Confirmation) :
    Except AuthError ApprovalAssertion × Provider := match p with
  | passkey p =>
    let (assertion, p) := p.sign C challenge
    (.ok assertion, .passkey p)
  | deviceKey k => (k.sign C challenge confirmation, .deviceKey k)

end Signers

-- What the key store does in a call to the factory: a write that fails may have stored the secret.
structure StoreTurn where
  gets : Bool
  puts : Bool
  stored : Bool
deriving DecidableEq

structure SoftwareSignerFactory where
  rpId : String

namespace SoftwareSignerFactory

def origin (f : SoftwareSignerFactory) : String := "https://" ++ f.rpId

-- The stored scalar, made and stored on the first call.
def scalar (fresh : SigningKey) (t : StoreTurn) (entry : Option Bytes) :
    Except AuthError Bytes × Option Bytes :=
  if !t.gets then (.error (.hardware "keychain read"), entry)
  else match entry with
    | some found => (.ok found, entry)
    | none =>
      if t.puts then (.ok fresh.scalar.bytes, some fresh.scalar.bytes)
      else (.error (.hardware "keychain write"), if t.stored then some fresh.scalar.bytes else none)

def build (f : SoftwareSignerFactory) (style : ApprovalStyle) (requireOsConfirm : Bool) (scalar : Bytes) :
    Except AuthError Provider := match style with
  | .biometric => do
    let p ← SoftwarePasskey.fromSecret scalar f.rpId f.origin false
    .ok (.passkey p)
  | .thisDevice => do
    let k ← SoftwareDeviceKey.fromSecret scalar requireOsConfirm
    .ok (.deviceKey k)

end SoftwareSignerFactory

-- One machine: what is under the entry, and the signers of the process that runs.
structure Machine where
  entry : Option Bytes
  providers : List Provider

inductive SignerCall where
  | create (style : ApprovalStyle) (requireOsConfirm : Bool) (fresh : SigningKey) (t : StoreTurn)
  | reopen (profile : DeviceProfile) (fresh : SigningKey) (t : StoreTurn)
  | sign (i : Nat) (challenge : ApprovalChallenge) (confirmation : Confirmation)
  | restart

inductive SignerAnswer where
  | built (result : Except AuthError Signer)
  | signed (result : Except AuthError ApprovalAssertion)
  | none

namespace Machine

variable (C : Crates) (f : SoftwareSignerFactory)

def build (s : Machine) (style : ApprovalStyle) (requireOsConfirm : Bool) (fresh : SigningKey)
    (t : StoreTurn) : SignerAnswer × Machine :=
  let (scalar, entry) := SoftwareSignerFactory.scalar fresh t s.entry
  match scalar.bind (f.build style requireOsConfirm) with
  | .error e => (.built (.error e), { s with entry })
  | .ok p => (.built (.ok (p.signer C)), ⟨entry, s.providers ++ [p]⟩)

def step (s : Machine) : SignerCall → SignerAnswer × Machine
  | .create style requireOsConfirm fresh t => s.build C f style requireOsConfirm fresh t
  | .reopen profile fresh t => s.build C f profile.style profile.requireOsConfirm fresh t
  | .sign i challenge confirmation => match s.providers[i]? with
    | none => (.none, s)
    | some p =>
      let (result, p) := p.sign C challenge confirmation
      (.signed result, { s with providers := s.providers.set i p })
  | .restart => (.none, { s with providers := [] })

end Machine

end Zbacs.Auth.WebAuthn.Software
