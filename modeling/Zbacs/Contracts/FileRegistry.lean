import Mathlib.Logic.Function.Basic
import Zbacs.Lib.Bytes
import Zbacs.Lib.Result

namespace Zbacs.Contracts

open Zbacs.Lib

abbrev Address := FixedBytes 20

def Address.zero : Address := .replicate 20 0

def zeroHash : FixedBytes 32 := .replicate 32 0

structure FileRecord where
  owner : Address
  headerHash : FixedBytes 32
  version : UInt32
  retired : Bool
deriving DecidableEq

-- What a mapping gives for a key that was never written.
def FileRecord.zero : FileRecord := ⟨.zero, zeroHash, 0, false⟩

inductive RegistryError where
  | alreadyRegistered (fileId : FixedBytes 32)
  | notOwner (fileId : FixedBytes 32) (caller : Address)
  | notRegistered (fileId : FixedBytes 32)
  | zeroHash
  | fileRetired (fileId : FixedBytes 32)
  | sameHeaderHash (fileId : FixedBytes 32)
  -- checked arithmetic
  | overflow
deriving DecidableEq

inductive RegistryEvent where
  | registered (fileId : FixedBytes 32) (owner : Address) (headerHash : FixedBytes 32)
  | versionBumped (fileId : FixedBytes 32) (version : UInt32) (headerHash : FixedBytes 32)
  | retired (fileId : FixedBytes 32)
deriving DecidableEq

-- A file's owner and the header hash of its latest version.
structure FileRegistry where
  files : FixedBytes 32 → FileRecord

namespace FileRegistry

def deployed : FileRegistry := ⟨fun _ => .zero⟩

def write (fileId : FixedBytes 32) (f : FileRecord) (r : FileRegistry) : FileRegistry :=
  ⟨Function.update r.files fileId f⟩

section Write

variable {fileId other : FixedBytes 32} {f : FileRecord} {r : FileRegistry}

@[simp] theorem write_self : (r.write fileId f).files fileId = f := Function.update_self ..

theorem write_of_ne (h : other ≠ fileId) : (r.write fileId f).files other = r.files other :=
  Function.update_of_ne h ..

end Write

-- Register a newly sealed file. The caller becomes the owner.
def register (sender : Address) (fileId headerHash : FixedBytes 32) (r : FileRegistry) :
    Except RegistryError (RegistryEvent × FileRegistry) :=
  if headerHash = Contracts.zeroHash then .error .zeroHash
  else if (r.files fileId).owner ≠ .zero then .error (.alreadyRegistered fileId)
  else .ok (.registered fileId sender headerHash, r.write fileId ⟨sender, headerHash, 1, false⟩)

-- Record a reseal. Only the owner.
def bumpVersion (sender : Address) (fileId newHeaderHash : FixedBytes 32) (r : FileRegistry) :
    Except RegistryError (RegistryEvent × FileRegistry) :=
  let f := r.files fileId
  if f.owner = .zero then .error (.notRegistered fileId)
  else if f.owner ≠ sender then .error (.notOwner fileId sender)
  else if f.retired then .error (.fileRetired fileId)
  else if newHeaderHash = Contracts.zeroHash then .error .zeroHash
  else if newHeaderHash = f.headerHash then .error (.sameHeaderHash fileId)
  else if f.version.toNat + 1 ≥ 2 ^ 32 then .error .overflow
  else .ok (.versionBumped fileId (f.version + 1) newHeaderHash,
    r.write fileId { f with version := f.version + 1, headerHash := newHeaderHash })

-- No further versions, and no new grants. One-way.
def retire (sender : Address) (fileId : FixedBytes 32) (r : FileRegistry) :
    Except RegistryError (RegistryEvent × FileRegistry) :=
  let f := r.files fileId
  if f.owner = .zero then .error (.notRegistered fileId)
  else if f.owner ≠ sender then .error (.notOwner fileId sender)
  else if f.retired then .error (.fileRetired fileId)
  else .ok (.retired fileId, r.write fileId { f with retired := true })

-- The zero address when unknown.
def ownerOf (fileId : FixedBytes 32) (r : FileRegistry) : Address := (r.files fileId).owner

-- The current header hash and version, and whether the file is retired.
def currentVersion (fileId : FixedBytes 32) (r : FileRegistry) : FixedBytes 32 × UInt32 × Bool :=
  let f := r.files fileId
  (f.headerHash, f.version, f.retired)

section Calls

variable {sender : Address} {fileId hash : FixedBytes 32} {r r' : FileRegistry} {e : RegistryEvent}

theorem register_eq_ok (h : r.register sender fileId hash = .ok (e, r')) :
    hash ≠ Contracts.zeroHash ∧ (r.files fileId).owner = .zero ∧ e = .registered fileId sender hash ∧
      r' = r.write fileId ⟨sender, hash, 1, false⟩ := by
  unfold register at h
  simp only [ite_error_eq_ok] at h
  obtain ⟨hzero, howner, h⟩ := h
  cases h
  exact ⟨hzero, not_not.mp howner, rfl, rfl⟩

theorem bumpVersion_eq_ok (h : r.bumpVersion sender fileId hash = .ok (e, r')) :
    (r.files fileId).owner ≠ .zero ∧ (r.files fileId).owner = sender ∧
      (r.files fileId).retired = false ∧ hash ≠ Contracts.zeroHash ∧
      hash ≠ (r.files fileId).headerHash ∧ (r.files fileId).version.toNat + 1 < 2 ^ 32 ∧
      e = .versionBumped fileId ((r.files fileId).version + 1) hash ∧
      r' = r.write fileId { r.files fileId with
        version := (r.files fileId).version + 1, headerHash := hash } := by
  unfold bumpVersion at h
  dsimp only at h
  simp only [ite_error_eq_ok] at h
  obtain ⟨howner, hsender, hretired, hzero, hsame, hoverflow, h⟩ := h
  cases h
  exact ⟨howner, not_not.mp hsender, Bool.not_eq_true _ ▸ hretired, hzero, hsame,
    Nat.not_le.mp hoverflow, rfl, rfl⟩

theorem retire_eq_ok (h : r.retire sender fileId = .ok (e, r')) :
    (r.files fileId).owner ≠ .zero ∧ (r.files fileId).owner = sender ∧
      (r.files fileId).retired = false ∧ e = .retired fileId ∧
      r' = r.write fileId { r.files fileId with retired := true } := by
  unfold retire at h
  dsimp only at h
  simp only [ite_error_eq_ok] at h
  obtain ⟨howner, hsender, hretired, h⟩ := h
  cases h
  exact ⟨howner, not_not.mp hsender, Bool.not_eq_true _ ▸ hretired, rfl, rfl⟩

end Calls

end FileRegistry

end Zbacs.Contracts
