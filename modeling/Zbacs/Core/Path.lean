import Zbacs.Core.Container
import Zbacs.Lib.Fs

namespace Zbacs.Core

open Zbacs.Lib

-- `Path::with_extension`: what follows the last dot of the file name is replaced;
-- a dot in front is part of the name.
def withExtension (p : Path) (ext : String) : Path :=
  match p.getLast? with
  | none => p
  | some name =>
    let chars := name.toList
    let tail := (chars.reverse.takeWhile (· ≠ '.')).length
    let stem := if tail = chars.length ∨ tail + 1 = chars.length then chars
      else chars.take (chars.length - tail - 1)
    p.dropLast ++ [String.ofList (stem ++ '.' :: ext.toList)]

-- Which of the system calls of a seal to a path fail, how the plaintext reader
-- behaves, and what a failed write leaves in the temporary file.
structure SealEnv where
  offer : Nat → Nat
  sink : Sink
  openInput : Bool
  createTmp : Bool
  sync : Bool
  rename : Bool
  leftover : Bytes

def SealEnv.calm : SealEnv := ⟨fun _ => 0, .memory, false, false, false, false, []⟩

section

variable (P : Primitives)

-- `seal_signed_to_path`: temporary file, then rename.
def sealSignedToPath (inPath outPath : Path) (ownerPk : FixedBytes 32) (signer : SigningKeys)
    (opts : SealOptions) (rng : SealRandom) (env : SealEnv) (fs : Fs) : Result Header × Fs :=
  match fs.readFile inPath with
  | none => (.error (.io .other), fs)
  | some plaintext =>
    if h : env.openInput = false ∧ plaintext.length < 2 ^ 64 then
      let tmp := withExtension outPath "zbacs.tmp"
      if env.createTmp ∨ fs.lookup tmp = some .dir then (.error (.io .other), fs)
      else match sealSigned P (.ofData plaintext env.offer h.2) env.sink ownerPk signer opts rng with
        | .error e => (.error e, fs.insert tmp (.file env.leftover false))
        | .ok (header, out) =>
          let fs := fs.insert tmp (.file out false)
          if env.sync then (.error (.io .other), fs)
          else if env.rename then (.error (.io .other), fs)
          else match fs.rename tmp outPath with
            | none => (.error (.io .other), fs)
            | some fs => (.ok header, fs)
    else (.error (.io .other), fs)

-- `seal_to_path`
def sealToPath (inPath outPath : Path) (owner : OwnerKeys P) (opts : SealOptions) (rng : SealRandom)
    (env : SealEnv) (fs : Fs) : Result Header × Fs :=
  sealSignedToPath P inPath outPath owner.sealing.x25519Pk owner.signing opts rng env fs

-- The options of a reseal: everything but the policy is carried over from the
-- previous version.
def recipientOptions (prev : Header) (prevHash : HeaderHash) (policy : Policy) (name : String) :
    SealOptions :=
  { SealOptions.new prev.body.own name with
    policy := policy
    chunkSize := prev.body.chunk.toNat
    prev := some (.of prev prevHash) }

-- `reseal_to_path`: the owner's envelope of the old version gives its name.
def resealToPath (plaintextPath containerPath : Path) (owner : OwnerKeys P) (policy : Policy)
    (rng : SealRandom) (env : SealEnv) (fs : Fs) : Result Header × Fs :=
  match fs.readFile containerPath with
  | none => (.error (.io .other), fs)
  | some container => match inspect P (.ofData container env.offer) with
    | .error e => (.error e, fs)
    | .ok (prev, prevHash) =>
      match prev.body.env.find? (fun e => e.kid = owner.sealing.keyId) with
      | none => (.error .noEnvelope, fs)
      | some mine => match mine.openDek owner.sealing prev.body.fid.bytes with
        | .error e => (.error e, fs)
        | .ok prevDek => match decryptName P prev prevDek with
          | .error e => (.error e, fs)
          | .ok name => sealToPath P plaintextPath containerPath owner
              (recipientOptions prev prevHash policy name) rng env fs

-- `reseal_as_recipient_to_path`: the holder of the current version's DEK writes the
-- next one, with the owner's envelope wrapped to the `opub` of the previous header.
def resealAsRecipientToPath (plaintextPath containerPath : Path) (prevDek : Dek)
    (signer : SigningKeys) (policy : Policy) (rng : SealRandom) (env : SealEnv) (fs : Fs) :
    Result Header × Fs :=
  match fs.readFile containerPath with
  | none => (.error (.io .other), fs)
  | some container => match inspect P (.ofData container env.offer) with
    | .error e => (.error e, fs)
    | .ok (prev, prevHash) => match prev.body.opub with
      | none => (.error .noOwnerKey, fs)
      | some opub => match decryptName P prev prevDek with
        | .error e => (.error e, fs)
        | .ok name => sealSignedToPath P plaintextPath containerPath opub signer
            (recipientOptions prev prevHash policy name) rng env fs

end

end Zbacs.Core
