import Zbacs.Core.Primitives
import Zbacs.Core.RecoveryCode
import Zbacs.Lib.Result

namespace Zbacs.Core

open Zbacs.Lib

-- The encrypted backup of the owner's long-lived keys.

-- `ZBACSBK\0`
def backupMagic : Bytes := [0x5a, 0x42, 0x41, 0x43, 0x53, 0x42, 0x4b, 0x00]
def backupVersion : UInt8 := 1
def backupKdfDomain : Bytes := utf8 "ZBACS-BACKUP-v1"

structure Argon2Params where
  memKib : UInt32
  passes : UInt32
  lanes : UInt32
deriving DecidableEq

-- `ARGON_MEM_KIB`, `ARGON_PASSES` and `ARGON_LANES`
def argonParams : Argon2Params := ⟨64 * 1024, 3, 1⟩

-- The secrets a backup carries.
structure Secrets where
  sealingSk : Bytes
  signingSk : FixedBytes 32
  extra : Bytes
deriving DecidableEq

-- Authenticated header, written in the clear.
structure BackupHeader where
  version : UInt8
  params : Argon2Params
  salt : FixedBytes 16
  nonce : FixedBytes 24
deriving DecidableEq

-- What only a backup uses of the libraries: Argon2id with the parameters it takes, and the CBOR of
-- its two parts.
structure BackupLibraries where
  validParams : Argon2Params → Bool
  argon2id : Argon2Params → (password salt : Bytes) → Option (FixedBytes 32)
  headerCodec : Codec BackupHeader
  secretsCodec : Codec Secrets

-- Why a function does not return a value.
inductive Halt where
  | panic
  | error (e : Error)
deriving DecidableEq

namespace Halt

variable {α : Type}

def ofResult (r : Result α) : Except Halt α := r.mapError .error

-- `&bytes[start..stop]`
def slice (start stop : Nat) (bytes : Bytes) : Except Halt Bytes :=
  if start ≤ stop ∧ stop ≤ bytes.length then .ok ((bytes.take stop).drop start) else .error .panic

-- `a + b` of type `usize`, which has 64 bits.
def addUsize (a b : Nat) : Except Halt Nat := if a + b < 2 ^ 64 then .ok (a + b) else .error .panic

-- `unwrap`
def unwrap : Option α → Except Halt α
  | some a => .ok a
  | none => .error .panic

end Halt

section

variable {P : Primitives} (L : BackupLibraries)

def deriveKey (code : RecoveryCode) (h : BackupHeader) : Result (FixedBytes 32) :=
  if !L.validParams h.params then .error (.headerDecode "bad Argon2 parameters")
  else match L.argon2id h.params code.kdfInput (backupKdfDomain ++ h.salt.bytes) with
    | none => .error (.headerDecode "key derivation failed")
    | some key => .ok key

def backupHeader (salt : FixedBytes 16) (nonce : FixedBytes 24) : BackupHeader :=
  ⟨backupVersion, argonParams, salt, nonce⟩

def secretsOf (owner : OwnerKeys P) (extra : Bytes) : Secrets :=
  ⟨owner.sealing.x25519Sk.bytes, owner.signing.sk, extra⟩

def backupFile (headerCbor ct : Bytes) : Bytes :=
  backupMagic ++ leBytes 4 (headerCbor.length % 2 ^ 32) ++ headerCbor ++ ct

-- The file for this code, with the salt and the nonce that were drawn.
def exportBackupWithCode (owner : OwnerKeys P) (extra : Bytes) (code : RecoveryCode)
    (salt : FixedBytes 16) (nonce : FixedBytes 24) : Result Bytes := do
  let header := backupHeader salt nonce
  let headerCbor ← (L.headerCodec.encode header).mapError .headerEncode
  let plaintext ← (L.secretsCodec.encode (secretsOf owner extra)).mapError .headerEncode
  let key ← deriveKey L code header
  match P.aead.encrypt key nonce headerCbor plaintext with
  | none => .error .envelopeSeal
  | some ct => .ok (backupFile headerCbor ct)

-- The bytes of a file's header, and where they end.
def splitBackup (bytes : Bytes) : Except Halt (Bytes × Nat) := do
  if bytes.length < 12 then .error (.error .badMagic)
  else
    let magic ← Halt.slice 0 8 bytes
    if magic ≠ backupMagic then .error (.error .badMagic)
    else
      let word ← Halt.slice 8 12 bytes
      let length ← Halt.unwrap (FixedBytes.ofBytes? 4 word)
      let headerLen := leNat length.bytes
      if headerLen = 0 then .error (.error .truncated)
      else
        let stop ← Halt.addUsize 12 headerLen
        let least ← Halt.addUsize stop 16
        if bytes.length < least then .error (.error .truncated)
        else
          let headerCbor ← Halt.slice 12 stop bytes
          .ok (headerCbor, stop)

-- The version, and the bounds on the cost a hostile file can ask for.
def BackupHeader.check (header : BackupHeader) : Result Unit :=
  if header.version ≠ backupVersion then .error (.unsupportedVersion header.version 0)
  else if header.params.memKib > 1024 * 1024 ∨ header.params.passes > 10 ∨ header.params.lanes > 4 ∨
      header.params.lanes = 0 then
    .error (.headerDecode "backup KDF parameters out of range")
  else .ok ()

-- What is looked at before the key is derived.
def readBackupHeader (bytes : Bytes) : Except Halt (BackupHeader × Bytes × Nat) := do
  let (headerCbor, stop) ← splitBackup bytes
  let header ← Halt.ofResult ((L.headerCodec.decode headerCbor).mapError .headerDecode)
  Halt.ofResult header.check
  .ok (header, headerCbor, stop)

def restoreSecrets (s : Secrets) : Result (OwnerKeys P × Bytes) :=
  match FixedBytes.ofBytes? 32 s.sealingSk with
  | none => .error .keyLength
  | some sk => .ok (⟨.fromSecret sk, ⟨s.signingSk⟩⟩, s.extra)

-- What a restore comes to, and the key derivations it runs.
structure Restored (P : Primitives) where
  result : Except Halt (OwnerKeys P × Bytes)
  stretched : List Argon2Params

-- From the key to the secrets.
def openBackup (P : Primitives) (header : BackupHeader) (headerCbor : Bytes) (stop : Nat)
    (bytes : Bytes) (code : RecoveryCode) : Except Halt (OwnerKeys P × Bytes) := do
  let key ← Halt.ofResult (deriveKey L code header)
  let ct ← Halt.slice stop bytes.length bytes
  match P.aead.decrypt key header.nonce headerCbor ct with
  | none => .error (.error .backupAuth)
  | some plaintext =>
      let secrets ← Halt.ofResult ((L.secretsCodec.decode plaintext).mapError .headerDecode)
      Halt.ofResult (restoreSecrets secrets)

def restoreBackup (P : Primitives) (bytes : Bytes) (code : RecoveryCode) : Restored P :=
  match readBackupHeader L bytes with
  | .error halt => ⟨.error halt, []⟩
  | .ok (header, headerCbor, stop) =>
      ⟨openBackup L P header headerCbor stop bytes code,
        if L.validParams header.params then [header.params] else []⟩

end

end Zbacs.Core
