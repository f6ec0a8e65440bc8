import Zbacs.Lib.Crypto

namespace Zbacs.Core

open Zbacs.Lib

abbrev FileId := FixedBytes 32
abbrev HeaderHash := FixedBytes 32
abbrev KeyId := FixedBytes 16
abbrev Salt := FixedBytes 16
abbrev NoncePrefix := FixedBytes 16
abbrev Dek := FixedBytes 32

inductive IoError where
  | unexpectedEof
  | other
deriving DecidableEq, Repr

inductive Error where
  | io (e : IoError)
  | badMagic
  | unsupportedVersion (major minor : UInt8)
  | headerTooLarge (length : Nat)
  | headerEncode (why : String)
  | headerDecode (why : String)
  | headerSignature
  | unsupportedCipher (id : UInt8)
  | badChunkSize (size : UInt32)
  | chunkAuth (index : Nat)
  | truncated
  | noEnvelope
  | noOwnerKey
  | envelopeOpen
  | envelopeSeal
  | nameAuth
  | backupAuth
  | recoveryCode
  | brokenChain (why : String)
  | keyLength
deriving DecidableEq, Repr

abbrev Result := Except Error

inductive Permission where
  | deny
  | readOnly
  | edit
deriving DecidableEq, Repr

-- The on-chain encoding.
def Permission.toByte : Permission → UInt8
  | .deny => 0
  | .readOnly => 1
  | .edit => 2

def Permission.ofByte? : UInt8 → Option Permission
  | 0 => some .deny
  | 1 => some .readOnly
  | 2 => some .edit
  | _ => none

@[simp] theorem Permission.ofByte?_toByte (p : Permission) : ofByte? p.toByte = some p := by
  cases p <;> rfl

structure Policy where
  default : Permission
  ttl : UInt32
  max : UInt16
  pin : Bool
  strict : Bool
deriving DecidableEq

def Policy.defaultPolicy : Policy := ⟨.readOnly, 3600, 1, true, false⟩

-- The DEK wrapped for one recipient.
structure Envelope where
  kid : KeyId
  alg : String
  enc : Bytes
  ct : Bytes
deriving DecidableEq

structure HeaderBody where
  fid : FileId
  salt : Salt
  ver : UInt32
  prev : Option HeaderHash
  own : Bytes
  opub : Option (FixedBytes 32)
  pol : Policy
  cipher : UInt8
  chunk : UInt32
  plen : UInt64
  np : NoncePrefix
  name : Bytes
  env : List Envelope
deriving DecidableEq

structure Header where
  body : HeaderBody
  sigk : Bytes
  sig : Bytes
deriving DecidableEq

-- `ZBACS\0`
def magic : Bytes := [0x5a, 0x42, 0x41, 0x43, 0x53, 0x00]
def versionMajor : UInt8 := 1
def versionMinor : UInt8 := 1
def cipherXChaCha20Poly1305Chunked : UInt8 := 1

def defaultChunk : Nat := 64 * 1024
def maxHeaderLen : Nat := 1024 * 1024

-- The UTF-8 bytes of a string.
def utf8 (s : String) : Bytes := s.toUTF8.data.toList

def hdrSigDomain : Bytes := utf8 "ZBACS-HDR-v1"
def dekInfo : Bytes := utf8 "zbacs-dek-v1"
def algHpkeX25519ChaCha : String := "hpke-x25519-chacha"

def tagLen : Nat := 16
-- `u64::MAX`: the nonce index of the file name, which no chunk reaches.
def nameIndex : Nat := 2 ^ 64 - 1
def maxChunk : Nat := 16 * 1024 * 1024
def maxOwnerLen : Nat := 64
def namePadBlock : Nat := 64
def maxNameLen : Nat := 1024
def maxNameCtLen : Nat := 1088 + tagLen
def maxEnvelopes : Nat := 32
def maxEnvelopeFieldLen : Nat := 1024

-- Upper bounds for the CBOR encodings: every head, key and fixed-size field is
-- counted at its largest, the byte strings at their length.
def Envelope.cborBound (e : Envelope) : Nat :=
  96 + e.alg.toUTF8.size + e.enc.length + e.ct.length

def HeaderBody.cborBound (b : HeaderBody) : Nat :=
  512 + b.own.length + b.name.length + (b.env.map Envelope.cborBound).sum

def Header.cborBound (h : Header) : Nat :=
  64 + h.body.cborBound + h.sigk.length + h.sig.length

end Zbacs.Core
