import Zbacs.Contracts.FileRegistry
import Zbacs.Core.Types
import Zbacs.Lib.Abi
import Zbacs.Lib.Result

namespace Zbacs.Contracts

open Zbacs.Lib Zbacs.Core

inductive Permission where
  | deny
  | readOnly
  | edit
deriving DecidableEq

def Permission.toUInt8 : Permission → UInt8
  | deny => 0
  | readOnly => 1
  | edit => 2

structure AccessGrant where
  fileId : FixedBytes 32
  headerHash : FixedBytes 32
  deviceKeyHash : FixedBytes 32
  permission : UInt8
  notBefore : UInt64
  expiry : UInt64
  maxOpens : UInt16
  requestNonce : FixedBytes 16
  grantNonce : BitVec 256
deriving DecidableEq

-- What the contracts use of the chain and of the library they inherit from: the hash, and the
-- typed data hash of the deployed contract.
structure Deployment where
  keccak256 : Bytes → FixedBytes 32
  chainId : BitVec 256
  verifyingContract : Address
  hashTypedDataV4 : FixedBytes 32 → FixedBytes 32

-- The transaction a call is part of: who sends it, the block's time, and whose signatures the
-- owner accounts accept in that block.
structure Msg where
  sender : Address
  timestamp : Nat
  isValidSignatureNow : Address → FixedBytes 32 → Bytes → Bool

-- `ACCESS_GRANT_TYPEHASH`
def accessGrantTypehash (d : Deployment) : FixedBytes 32 :=
  d.keccak256 (utf8 ("AccessGrant(bytes32 fileId,bytes32 headerHash," ++
    "bytes32 deviceKeyHash,uint8 permission,uint64 notBefore,uint64 expiry,uint16 maxOpens," ++
    "bytes16 requestNonce,uint256 grantNonce)"))

section Types

open Abi

def bytes32 : Args (FixedBytes 32) := .fixed 32 (le_refl 32)
def bytes16 : Args (FixedBytes 16) := .fixed 16 (Nat.le_of_ble_eq_true rfl)
def uint256 : Args (BitVec 256) := .uint 256 (le_refl 256)
def uint8 : Args UInt8 := (Args.uint 8 (by decide)).iso UInt8.ofBitVec UInt8.toBitVec fun _ => rfl
def uint16 : Args UInt16 := (Args.uint 16 (by decide)).iso UInt16.ofBitVec UInt16.toBitVec fun _ => rfl
def uint64 : Args UInt64 := (Args.uint 64 (by decide)).iso UInt64.ofBitVec UInt64.toBitVec fun _ => rfl

-- The fields of the struct in their order.
def AccessGrant.fields : Args AccessGrant :=
  (bytes32.pair <| bytes32.pair <| bytes32.pair <| uint8.pair <| uint64.pair <| uint64.pair <|
    uint16.pair <| bytes16.pair uint256).iso
    (fun (fileId, headerHash, deviceKeyHash, permission, notBefore, expiry, maxOpens, requestNonce,
      grantNonce) => ⟨fileId, headerHash, deviceKeyHash, permission, notBefore, expiry, maxOpens,
        requestNonce, grantNonce⟩)
    (fun g => (g.fileId, g.headerHash, g.deviceKeyHash, g.permission, g.notBefore, g.expiry,
      g.maxOpens, g.requestNonce, g.grantNonce)) fun _ => rfl

-- `grant(AccessGrant,bytes)`
def grantAbi : Args (AccessGrant × Bytes) := (AccessGrant.fields.struct fun _ => rfl).pair .bytes

-- What the domain separator of the typed data is a hash of.
def Deployment.domainPreimage (d : Deployment) : Bytes :=
  (bytes32.pair <| bytes32.pair <| bytes32.pair <| uint256.pair Args.address).encode
    (d.keccak256 (utf8 ("EIP712Domain(string name,string version," ++
      "uint256 chainId,address verifyingContract)")), d.keccak256 (utf8 "Z-BACS"), d.keccak256 (utf8 "1"), d.chainId,
      d.verifyingContract)

-- The typed data hash as its standard has it.
structure Deployment.Eip712 (d : Deployment) : Prop where
  hashTypedDataV4 : ∀ structHash, d.hashTypedDataV4 structHash =
    d.keccak256 ([0x19, 0x01] ++ (d.keccak256 d.domainPreimage).bytes ++ structHash.bytes)

end Types

-- What is hashed: `abi.encode` of the type hash and the fields.
def AccessGrant.preimage (d : Deployment) (g : AccessGrant) : Bytes :=
  (bytes32.pair AccessGrant.fields).encode (accessGrantTypehash d, g)

-- The EIP-712 struct hash. Also the grant id.
def AccessGrant.hashStruct (d : Deployment) (g : AccessGrant) : FixedBytes 32 :=
  d.keccak256 (g.preimage d)

structure GrantRecord where
  fileId : FixedBytes 32
  owner : Address
  notBefore : UInt64
  expiry : UInt64
  maxOpens : UInt16
  opens : UInt16
  permission : UInt8
  revoked : Bool
  deviceKeyHash : FixedBytes 32
  headerHash : FixedBytes 32
deriving DecidableEq

def GrantRecord.zero : GrantRecord := ⟨zeroHash, .zero, 0, 0, 0, 0, 0, false, zeroHash, zeroHash⟩

inductive PolicyError where
  | fileNotRegistered (fileId : FixedBytes 32)
  | fileRetired (fileId : FixedBytes 32)
  | staleVersion (expected given : FixedBytes 32)
  | wrongDevice (expected given : FixedBytes 32)
  | invalidSignature
  | badNonce (expected given : BitVec 256)
  | requestNonceUsed (requestNonce : FixedBytes 16)
  | invalidPermission (permission : UInt8)
  | invalidWindow (notBefore expiry : UInt64)
  | alreadyExpired (expiry : UInt64)
  | unknownGrant (grantId : FixedBytes 32)
  | notOwner (grantId : FixedBytes 32) (caller : Address)
  | grantNotActive (grantId : FixedBytes 32)
  -- checked arithmetic
  | overflow
deriving DecidableEq

inductive PolicyEvent where
  | granted (grantId fileId deviceKeyHash : FixedBytes 32) (permission : UInt8) (expiry : UInt64)
  | revoked (grantId fileId : FixedBytes 32)
  | opened (grantId : FixedBytes 32) (opens : UInt16)
deriving DecidableEq

structure AccessPolicy where
  nonces : Address → BitVec 256
  usedRequestNonce : FixedBytes 16 → Bool
  grants : FixedBytes 32 → GrantRecord

namespace AccessPolicy

def deployed : AccessPolicy := ⟨fun _ => 0, fun _ => false, fun _ => .zero⟩

def write (grantId : FixedBytes 32) (r : GrantRecord) (p : AccessPolicy) : AccessPolicy :=
  { p with grants := Function.update p.grants grantId r }

section Write

variable {grantId other : FixedBytes 32} {r : GrantRecord} {p : AccessPolicy}

@[simp] theorem write_self : (p.write grantId r).grants grantId = r := Function.update_self ..

theorem write_of_ne (h : other ≠ grantId) : (p.write grantId r).grants other = p.grants other :=
  Function.update_of_ne h ..

end Write

-- The grant exists, is not revoked, is within its time window and has opens left.
def isValid (timestamp : Nat) (grantId : FixedBytes 32) (p : AccessPolicy) : Bool :=
  let r := p.grants grantId
  if r.owner = .zero ∨ r.revoked then false
  else if timestamp < r.notBefore.toNat ∨ timestamp ≥ r.expiry.toNat then false
  else if r.maxOpens ≠ 0 ∧ r.opens ≥ r.maxOpens then false
  else true

-- The record of a grant when it is made.
def recordOf (g : AccessGrant) (owner : Address) : GrantRecord where
  fileId := g.fileId
  owner := owner
  notBefore := g.notBefore
  expiry := g.expiry
  maxOpens := g.maxOpens
  opens := 0
  permission := g.permission
  revoked := false
  deviceKeyHash := g.deviceKeyHash
  headerHash := g.headerHash

-- Submit a grant. The event carries the grant id that is returned.
def grant (d : Deployment) (msg : Msg) (registry : FileRegistry) (g : AccessGrant) (ownerSig : Bytes)
    (p : AccessPolicy) : Except PolicyError (PolicyEvent × AccessPolicy) :=
  let owner := registry.ownerOf g.fileId
  let (currentHeader, _, retired) := registry.currentVersion g.fileId
  let structHash := g.hashStruct d
  if owner = .zero then .error (.fileNotRegistered g.fileId)
  else if retired then .error (.fileRetired g.fileId)
  else if g.headerHash ≠ currentHeader then .error (.staleVersion currentHeader g.headerHash)
  else if g.permission > Permission.edit.toUInt8 then .error (.invalidPermission g.permission)
  else if g.notBefore ≥ g.expiry then .error (.invalidWindow g.notBefore g.expiry)
  else if g.expiry.toNat ≤ msg.timestamp then .error (.alreadyExpired g.expiry)
  else if g.grantNonce ≠ p.nonces owner then .error (.badNonce (p.nonces owner) g.grantNonce)
  else if p.usedRequestNonce g.requestNonce then .error (.requestNonceUsed g.requestNonce)
  -- the owner's own account has already authorised the call
  else if msg.sender ≠ owner ∧ !msg.isValidSignatureNow owner (d.hashTypedDataV4 structHash) ownerSig then
    .error .invalidSignature
  else if g.grantNonce.uaddOverflow 1 then .error .overflow
  else .ok (.granted structHash g.fileId g.deviceKeyHash g.permission g.expiry,
    { nonces := Function.update p.nonces owner (g.grantNonce + 1)
      usedRequestNonce := Function.update p.usedRequestNonce g.requestNonce true
      grants := Function.update p.grants structHash (recordOf g owner) })

-- The owner revokes a grant.
def revoke (msg : Msg) (grantId : FixedBytes 32) (p : AccessPolicy) :
    Except PolicyError (PolicyEvent × AccessPolicy) :=
  let r := p.grants grantId
  if r.owner = .zero then .error (.unknownGrant grantId)
  else if r.owner ≠ msg.sender then .error (.notOwner grantId msg.sender)
  else .ok (.revoked grantId r.fileId, p.write grantId { r with revoked := true })

-- Count one open, by someone who knows the device's public keys.
def consumeOpen (d : Deployment) (msg : Msg) (grantId : FixedBytes 32) (devicePubKeys : Bytes)
    (p : AccessPolicy) : Except PolicyError (PolicyEvent × AccessPolicy) :=
  let r := p.grants grantId
  let given := d.keccak256 devicePubKeys
  if r.owner = .zero then .error (.unknownGrant grantId)
  else if !p.isValid msg.timestamp grantId then .error (.grantNotActive grantId)
  else if given ≠ r.deviceKeyHash then .error (.wrongDevice r.deviceKeyHash given)
  else if r.opens.toNat + 1 ≥ 2 ^ 16 then .error .overflow
  else .ok (.opened grantId (r.opens + 1), p.write grantId { r with opens := r.opens + 1 })

-- A grant that lands.
structure Grants (d : Deployment) (msg : Msg) (registry : FileRegistry) (g : AccessGrant)
    (ownerSig : Bytes) (p p' : AccessPolicy) : Prop where
  registered : (registry.files g.fileId).owner ≠ .zero
  notRetired : (registry.files g.fileId).retired = false
  current : g.headerHash = (registry.files g.fileId).headerHash
  permission : g.permission ≤ Permission.edit.toUInt8
  window : g.notBefore < g.expiry
  unexpired : msg.timestamp < g.expiry.toNat
  nonce : g.grantNonce = p.nonces (registry.files g.fileId).owner
  fresh : p.usedRequestNonce g.requestNonce = false
  authorised : msg.sender = (registry.files g.fileId).owner ∨ msg.isValidSignatureNow
    (registry.files g.fileId).owner (d.hashTypedDataV4 (g.hashStruct d)) ownerSig = true
  bounded : g.grantNonce.uaddOverflow 1 = false
  result : p' =
    { nonces := Function.update p.nonces (registry.files g.fileId).owner (g.grantNonce + 1)
      usedRequestNonce := Function.update p.usedRequestNonce g.requestNonce true
      grants := Function.update p.grants (g.hashStruct d)
        (recordOf g (registry.files g.fileId).owner) }

section Calls

variable {d : Deployment} {msg : Msg} {registry : FileRegistry} {g : AccessGrant} {ownerSig : Bytes}
  {grantId : FixedBytes 32} {devicePubKeys : Bytes} {p p' : AccessPolicy} {e : PolicyEvent}

theorem grant_eq_ok (h : p.grant d msg registry g ownerSig = .ok (e, p')) :
    e = .granted (g.hashStruct d) g.fileId g.deviceKeyHash g.permission g.expiry ∧
      Grants d msg registry g ownerSig p p' := by
  unfold grant at h
  dsimp only [FileRegistry.ownerOf, FileRegistry.currentVersion] at h
  simp only [ite_error_eq_ok] at h
  obtain ⟨howner, hretired, hheader, hpermission, hwindow, hexpiry, hnonce, hused, hsig, hoverflow, h⟩ := h
  cases h
  refine ⟨rfl, howner, Bool.not_eq_true _ ▸ hretired, not_not.mp hheader, UInt8.not_lt.mp hpermission,
    UInt64.not_le.mp hwindow, Nat.not_le.mp hexpiry, not_not.mp hnonce, Bool.not_eq_true _ ▸ hused, ?_,
    Bool.not_eq_true _ ▸ hoverflow, rfl⟩
  by_contra hneither
  rw [not_or, Bool.not_eq_true] at hneither
  exact hsig ⟨hneither.1, by rw [hneither.2]; rfl⟩

theorem revoke_eq_ok (h : p.revoke msg grantId = .ok (e, p')) :
    (p.grants grantId).owner ≠ .zero ∧ (p.grants grantId).owner = msg.sender ∧
      e = .revoked grantId (p.grants grantId).fileId ∧
      p' = p.write grantId { p.grants grantId with revoked := true } := by
  unfold revoke at h
  dsimp only at h
  simp only [ite_error_eq_ok] at h
  obtain ⟨howner, hsender, h⟩ := h
  cases h
  exact ⟨howner, not_not.mp hsender, rfl, rfl⟩

theorem consumeOpen_eq_ok (h : p.consumeOpen d msg grantId devicePubKeys = .ok (e, p')) :
    (p.grants grantId).owner ≠ .zero ∧ p.isValid msg.timestamp grantId = true ∧
      d.keccak256 devicePubKeys = (p.grants grantId).deviceKeyHash ∧
      (p.grants grantId).opens.toNat + 1 < 2 ^ 16 ∧
      e = .opened grantId ((p.grants grantId).opens + 1) ∧
      p' = p.write grantId { p.grants grantId with opens := (p.grants grantId).opens + 1 } := by
  unfold consumeOpen at h
  dsimp only at h
  simp only [ite_error_eq_ok] at h
  obtain ⟨howner, hvalid, hdevice, hoverflow, h⟩ := h
  cases h
  refine ⟨howner, ?_, not_not.mp hdevice, Nat.not_le.mp hoverflow, rfl, rfl⟩
  rwa [Bool.not_eq_true', Bool.not_eq_false] at hvalid

theorem isValid_eq_true {timestamp : Nat} (h : p.isValid timestamp grantId = true) :
    (p.grants grantId).owner ≠ .zero ∧ (p.grants grantId).revoked = false ∧
      (p.grants grantId).notBefore.toNat ≤ timestamp ∧ timestamp < (p.grants grantId).expiry.toNat ∧
      ((p.grants grantId).maxOpens = 0 ∨ (p.grants grantId).opens < (p.grants grantId).maxOpens) := by
  unfold isValid at h
  dsimp only at h
  split_ifs at h with hactive hwindow hopens
  rw [not_or, Bool.not_eq_true] at hactive
  rw [not_or, Nat.not_lt, Nat.not_le] at hwindow
  rw [not_and_or, not_not, UInt16.not_le] at hopens
  exact ⟨hactive.1, hactive.2, hwindow.1, hwindow.2, hopens⟩

end Calls

end AccessPolicy

end Zbacs.Contracts
