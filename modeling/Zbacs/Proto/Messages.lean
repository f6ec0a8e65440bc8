import Zbacs.Core.Primitives

namespace Zbacs.Proto

open Zbacs.Lib Zbacs.Core

inductive Kind where
  | announce
  | req
  | grant
  | revoke
  | sub
  | ack
  | version
deriving DecidableEq, Repr

-- The wire string mixed into the signature.
def Kind.asStr : Kind → String
  | announce => "announce"
  | req => "req"
  | grant => "grant"
  | revoke => "revoke"
  | sub => "sub"
  | ack => "ack"
  | version => "version"

-- Registers a device's public keys with the relay.
structure DeviceAnnounce where
  x25519Pub : FixedBytes 32
  ed25519Pub : FixedBytes 32
  label : Option String
  ts : UInt64
deriving DecidableEq

-- A recipient asking the owner to open a specific sealed version.
structure AccessRequest where
  fid : FixedBytes 32
  headerHash : FixedBytes 32
  owner : Bytes
  deviceKid : FixedBytes 16
  x25519Pub : FixedBytes 32
  ed25519Pub : FixedBytes 32
  requested : UInt8
  nonce : FixedBytes 16
  hint : Option Bytes
  ts : UInt64
deriving DecidableEq

-- The owner's answer; `decision = 0` is a refusal and carries no envelope.
structure GrantMsg where
  requestNonce : FixedBytes 16
  grant : Option Bytes
  ownerSig : Option Bytes
  envelope : Option Bytes
  txHash : Option (FixedBytes 32)
  decision : UInt8
  ts : UInt64
deriving DecidableEq

structure Revoke where
  grantId : FixedBytes 32
  fid : FixedBytes 32
  ts : UInt64
deriving DecidableEq

-- A recipient tells the owner that it resealed a file as a new version.
structure VersionMsg where
  fid : FixedBytes 32
  owner : Bytes
  prevHeaderHash : FixedBytes 32
  headerHash : FixedBytes 32
  ver : UInt32
  grantId : FixedBytes 32
  ownerEnvelope : Bytes
  ed25519Pub : FixedBytes 32
  ts : UInt64
deriving DecidableEq

inductive ErrorCode where
  | unauthenticated
  | unknownDevice
  | stale
  | replayed
  | malformed
  | tooLarge
  | rateLimited
  | notFound
  | internal
deriving DecidableEq, Repr

-- The relay's answer to a submission.
structure Ack where
  ok : Bool
  id : Option (FixedBytes 16)
  error : Option ErrorCode
deriving DecidableEq

-- One queued message as delivered to a subscriber.
structure Envelope where
  id : FixedBytes 16
  kind : Kind
  body : Bytes
  queuedAt : UInt64
deriving DecidableEq

-- CBOR payload, who signed it, replay guards and the Ed25519 signature.
structure Signed where
  payload : Bytes
  kid : FixedBytes 16
  kind : Kind
  ts : UInt64
  nonce : FixedBytes 16
  sig : FixedBytes 64
deriving DecidableEq

-- The fields of the EIP-712 `AccessGrant`, in struct order.
structure AccessGrantTerms where
  fileId : FixedBytes 32
  headerHash : FixedBytes 32
  deviceKeyHash : FixedBytes 32
  permission : UInt8
  notBefore : UInt64
  expiry : UInt64
  maxOpens : UInt16
  requestNonce : FixedBytes 16
  grantNonce : UInt64
deriving DecidableEq

inductive ProtoError where
  | encode (why : String)
  | tooLarge (length : Nat)
  | malformed (why : String)
  | stale (ts now : UInt64)
  | badSignature
  | keyLength
deriving DecidableEq, Repr

-- The wire error code a relay returns.
def ProtoError.code : ProtoError → ErrorCode
  | badSignature => .unauthenticated
  | stale _ _ => .stale
  | malformed _ | encode _ | keyLength => .malformed
  | tooLarge _ => .tooLarge

-- The libraries the relay messages are composed from.
structure Libraries extends Core.Primitives where
  keccak256 : Bytes → FixedBytes 32
  termsCodec : Codec AccessGrantTerms
  signedCodec : Codec Signed
  requestCodec : Codec AccessRequest
  grantCodec : Codec GrantMsg
  revokeCodec : Codec Revoke
  versionCodec : Codec VersionMsg

def relaySigDomain : Bytes := utf8 "ZBACS-RLY-v1"
def maxBodyLen : Nat := 64 * 1024
def maxSkewSecs : UInt64 := 120
def nonceMemorySecs : Nat := 300

def absDiff (a b : UInt64) : UInt64 := if a < b then b - a else a - b

section Grant

variable (L : Libraries)

def typehash : FixedBytes 32 := L.keccak256 (utf8 ("AccessGrant(bytes32 fileId,bytes32 headerHash," ++
  "bytes32 deviceKeyHash,uint8 permission,uint64 notBefore,uint64 expiry,uint16 maxOpens," ++
  "bytes16 requestNonce,uint256 grantNonce)"))

def wordU64 (v : Nat) : Bytes := List.replicate 24 0 ++ beBytes 8 v

-- `bytes16` is left-aligned in its 32-byte word.
def wordBytes16 (v : FixedBytes 16) : Bytes := v.bytes ++ List.replicate 16 0

-- EIP-712 `hashStruct`: the grant id, and the AAD of the DEK envelope sent with
-- the grant.
def AccessGrantTerms.structHash (t : AccessGrantTerms) : FixedBytes 32 :=
  L.keccak256 ((typehash L).bytes ++ t.fileId.bytes ++ t.headerHash.bytes ++ t.deviceKeyHash.bytes ++
    wordU64 t.permission.toNat ++ wordU64 t.notBefore.toNat ++ wordU64 t.expiry.toNat ++
    wordU64 t.maxOpens.toNat ++ wordBytes16 t.requestNonce ++ wordU64 t.grantNonce.toNat)

-- The EIP-712 digest for `AccessPolicy` at this address: what the owner signs.
def AccessGrantTerms.digest (t : AccessGrantTerms) (chainId : UInt64)
    (verifyingContract : FixedBytes 20) : FixedBytes 32 :=
  let domain := L.keccak256 ((L.keccak256 (utf8 ("EIP712Domain(string name,string version," ++
      "uint256 chainId,address verifyingContract)"))).bytes ++
    (L.keccak256 (utf8 "Z-BACS")).bytes ++ (L.keccak256 (utf8 "1")).bytes ++
    wordU64 chainId.toNat ++ List.replicate 12 0 ++ verifyingContract.bytes)
  L.keccak256 ([0x19, 0x01] ++ domain.bytes ++ (t.structHash L).bytes)

def AccessGrantTerms.toCbor (t : AccessGrantTerms) : Except ProtoError Bytes :=
  (L.termsCodec.encode t).mapError .encode

def AccessGrantTerms.fromCbor (b : Bytes) : Except ProtoError AccessGrantTerms :=
  (L.termsCodec.decode b).mapError fun _ => .malformed "grant terms are not valid CBOR"

-- How a grant names the device it is for.
def deviceKeyHash (x25519Pub ed25519Pub : FixedBytes 32) : FixedBytes 32 :=
  L.keccak256 (x25519Pub.bytes ++ ed25519Pub.bytes)

end Grant

section Signed

variable (L : Libraries)

-- A device's key pair bundle.
structure DeviceIdentity where
  keys : DeviceKeys L.toPrimitives
  signing : SigningKeys

-- `SHA-256(ed25519_pub)[..16]`
def kidOf (ed25519Pub : FixedBytes 32) : FixedBytes 16 :=
  (L.sha256 ed25519Pub.bytes).first16

variable {L} in
def DeviceIdentity.ed25519Pub (d : DeviceIdentity L) : FixedBytes 32 :=
  d.signing.verifyingKey L.toPrimitives

variable {L} in
def DeviceIdentity.x25519Pub (d : DeviceIdentity L) : FixedBytes 32 := d.keys.x25519Pk

variable {L} in
def DeviceIdentity.kid (d : DeviceIdentity L) : FixedBytes 16 := kidOf L d.ed25519Pub

def signingBytes (kind : Kind) (ts : UInt64) (nonce : FixedBytes 16) (payload : Bytes) : Bytes :=
  relaySigDomain ++ utf8 kind.asStr ++ leBytes 8 ts.toNat ++ nonce.bytes ++ (L.sha256 payload).bytes

def verifyRaw (ed25519Pub : FixedBytes 32) (msg : Bytes) (sig : FixedBytes 64) :
    Except ProtoError Unit :=
  if !L.ed25519.validKey ed25519Pub then .error .badSignature
  else if L.ed25519.verify ed25519Pub msg sig then .ok () else .error .badSignature

-- Wrap and sign a payload of this kind.
def Signed.sign {α : Type} (kind : Kind) (codec : Codec α) (device : DeviceIdentity L) (payload : α)
    (ts : UInt64) (nonce : FixedBytes 16) : Except ProtoError Signed :=
  match codec.encode payload with
  | .error why => .error (.encode why)
  | .ok body =>
    if body.length > maxBodyLen then .error (.tooLarge body.length)
    else .ok
      { payload := body
        kid := device.kid
        kind := kind
        ts := ts
        nonce := nonce
        sig := L.ed25519.sign device.signing.sk (signingBytes L kind ts nonce body) }

-- `Signed::verify::<T>`, for the message type with this kind and codec. The nonce is for the
-- caller to record.
def Signed.verify {α : Type} (kind : Kind) (codec : Codec α) (s : Signed)
    (ed25519Pub : FixedBytes 32) (now : UInt64) : Except ProtoError (α × FixedBytes 16) :=
  if s.kind ≠ kind then .error (.malformed "envelope kind does not match the payload type")
  else if s.payload.length > maxBodyLen then .error (.tooLarge s.payload.length)
  else if absDiff now s.ts > maxSkewSecs then .error (.stale s.ts now)
  else if kidOf L ed25519Pub ≠ s.kid then .error .badSignature
  else do
    verifyRaw L ed25519Pub (signingBytes L s.kind s.ts s.nonce s.payload) s.sig
    match codec.decode s.payload with
    | .error _ => .error (.malformed "payload is not valid CBOR for this kind")
    | .ok payload => return (payload, s.nonce)

-- `Signed::verify_queued::<T>`, for the message type with this kind and codec.
def Signed.verifyQueued {α : Type} (kind : Kind) (codec : Codec α) (s : Signed)
    (ed25519Pub : FixedBytes 32) : Except ProtoError (α × UInt64) :=
  if s.kind ≠ kind then .error (.malformed "envelope kind does not match the payload type")
  else if s.payload.length > maxBodyLen then .error (.tooLarge s.payload.length)
  else if kidOf L ed25519Pub ≠ s.kid then .error .badSignature
  else do
    verifyRaw L ed25519Pub (signingBytes L s.kind s.ts s.nonce s.payload) s.sig
    match codec.decode s.payload with
    | .error _ => .error (.malformed "payload is not valid CBOR for this kind")
    | .ok payload => return (payload, s.ts)

-- Parse an envelope received from the wire. Does not verify it.
def Signed.fromBytes (b : Bytes) : Except ProtoError Signed :=
  if b.length > maxBodyLen then .error (.tooLarge b.length)
  else (L.signedCodec.decode b).mapError fun _ => .malformed "envelope is not valid CBOR"

end Signed

end Zbacs.Proto
