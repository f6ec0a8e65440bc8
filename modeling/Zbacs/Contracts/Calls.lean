import Zbacs.Contracts.AccessPolicy
import Zbacs.Proto.Wire

namespace Zbacs.Contracts

open Zbacs.Lib Zbacs.Lib.Abi Zbacs.Core Zbacs.Proto

-- The calldata an owner's agent builds, and the contract that reads it.

structure GrantArgs where
  fileId : FixedBytes 32
  headerHash : FixedBytes 32
  deviceKeyHash : FixedBytes 32
  permission : UInt8
  notBefore : UInt64
  expiry : UInt64
  maxOpens : UInt16
  requestNonce : FixedBytes 16
  grantNonce : UInt64
deriving DecidableEq

namespace Calls

def call (keccak256 : Bytes → FixedBytes 32) (signature : String) (params : Bytes) : Bytes :=
  selector keccak256 signature ++ params

-- The tuple as it is encoded: the permission goes into a word of its own as `uint256`, which
-- encodes the same as `uint8`.
def grantParams : Args ((FixedBytes 32 × FixedBytes 32 × FixedBytes 32 × BitVec 256 × UInt64 × UInt64 ×
    UInt16 × FixedBytes 16 × BitVec 256) × Bytes) :=
  ((bytes32.pair <| bytes32.pair <| bytes32.pair <| uint256.pair <| uint64.pair <| uint64.pair <|
    uint16.pair <| bytes16.pair uint256).struct fun _ => rfl).pair .bytes

-- `AccessPolicy.grant(AccessGrant g, bytes ownerSig)`
def grant (keccak256 : Bytes → FixedBytes 32) (g : GrantArgs) (ownerSig : Bytes) : Bytes :=
  call keccak256
    "grant((bytes32,bytes32,bytes32,uint8,uint64,uint64,uint16,bytes16,uint256),bytes)"
    (grantParams.encode ((g.fileId, g.headerHash, g.deviceKeyHash, .ofNat 256 g.permission.toNat,
      g.notBefore, g.expiry, g.maxOpens, g.requestNonce, .ofNat 256 g.grantNonce.toNat), ownerSig))

end Calls

-- The terms as the contract takes them.
def grantArgs (terms : AccessGrantTerms) : GrantArgs where
  fileId := terms.fileId
  headerHash := terms.headerHash
  deviceKeyHash := terms.deviceKeyHash
  permission := terms.permission
  notBefore := terms.notBefore
  expiry := terms.expiry
  maxOpens := terms.maxOpens
  requestNonce := terms.requestNonce
  grantNonce := terms.grantNonce

-- The struct the calldata of these arguments is read as.
def GrantArgs.terms (g : GrantArgs) : AccessGrant where
  fileId := g.fileId
  headerHash := g.headerHash
  deviceKeyHash := g.deviceKeyHash
  permission := g.permission
  notBefore := g.notBefore
  expiry := g.expiry
  maxOpens := g.maxOpens
  requestNonce := g.requestNonce
  grantNonce := .ofNat 256 g.grantNonce.toNat

-- The struct with the fields of these terms.
def onChain (t : AccessGrantTerms) : AccessGrant where
  fileId := t.fileId
  headerHash := t.headerHash
  deviceKeyHash := t.deviceKeyHash
  permission := t.permission
  notBefore := t.notBefore
  expiry := t.expiry
  maxOpens := t.maxOpens
  requestNonce := t.requestNonce
  grantNonce := .ofNat 256 t.grantNonce.toNat

-- The bytes `struct_hash` hashes.
def structPreimage (L : Libraries) (t : AccessGrantTerms) : Bytes :=
  (typehash L).bytes ++ t.fileId.bytes ++ t.headerHash.bytes ++ t.deviceKeyHash.bytes ++
    wordU64 t.permission.toNat ++ wordU64 t.notBefore.toNat ++ wordU64 t.expiry.toNat ++
    wordU64 t.maxOpens.toNat ++ wordBytes16 t.requestNonce ++ wordU64 t.grantNonce.toNat

-- The bytes `digest` hashes, first for the domain.
def domainPreimage (L : Libraries) (chainId : UInt64) (verifyingContract : FixedBytes 20) : Bytes :=
  (L.keccak256 (utf8 ("EIP712Domain(string name,string version," ++
      "uint256 chainId,address verifyingContract)"))).bytes ++
    (L.keccak256 (utf8 "Z-BACS")).bytes ++ (L.keccak256 (utf8 "1")).bytes ++
    wordU64 chainId.toNat ++ List.replicate 12 0 ++ verifyingContract.bytes

def digestPreimage (L : Libraries) (t : AccessGrantTerms) (chainId : UInt64)
    (verifyingContract : FixedBytes 20) : Bytes :=
  [0x19, 0x01] ++ (L.keccak256 (domainPreimage L chainId verifyingContract)).bytes ++
    (L.keccak256 (structPreimage L t)).bytes

-- The contract deployed at this address of this chain.
def deployedAt (L : Libraries) (chainId : UInt64) (verifyingContract : FixedBytes 20)
    (hashTypedDataV4 : FixedBytes 32 → FixedBytes 32) : Deployment :=
  ⟨L.keccak256, .ofNat 256 chainId.toNat, verifyingContract, hashTypedDataV4⟩

section Encodings

variable {L : Libraries} {t t' : AccessGrantTerms} {chainId : UInt64}
  {verifyingContract : FixedBytes 20} {hashTypedDataV4 : FixedBytes 32 → FixedBytes 32}

theorem structHash_eq : t.structHash L = L.keccak256 (structPreimage L t) := rfl

theorem digest_eq : t.digest L chainId verifyingContract =
    L.keccak256 (digestPreimage L t chainId verifyingContract) := rfl

-- A number of eight bytes in a word.
theorem wordU64_eq {v : Nat} (h : v < 2 ^ 64) : beBytes 32 v = wordU64 v :=
  beBytes_add 24 (show v < 256 ^ 8 by omega)

theorem toNat_ofNat_256 (n : UInt64) : (BitVec.ofNat 256 n.toNat).toNat = n.toNat := by
  have := n.toNat_lt
  rw [BitVec.toNat_ofNat, Nat.mod_eq_of_lt (by omega)]

theorem typehash_eq (d : Deployment) (h : d.keccak256 = L.keccak256) :
    accessGrantTypehash d = typehash L := by
  rw [accessGrantTypehash, typehash, h]

theorem structPreimage_eq (d : Deployment) (h : d.keccak256 = L.keccak256) :
    structPreimage L t = (onChain t).preimage d := by
  have hpermission := t.permission.toNat_lt
  have hmaxOpens := t.maxOpens.toNat_lt
  have hword : ∀ n : UInt64, beBytes 32 n.toNat = wordU64 n.toNat := fun n => wordU64_eq n.toNat_lt
  have hnonce := toNat_ofNat_256 t.grantNonce
  have hp : beBytes 32 t.permission.toNat = wordU64 t.permission.toNat := wordU64_eq (by omega)
  have hm : beBytes 32 t.maxOpens.toNat = wordU64 t.maxOpens.toNat := wordU64_eq (by omega)
  simp [AccessGrant.preimage, Args.encode, Args.pair, Args.iso, AccessGrant.fields, bytes32, bytes16,
    uint8, uint16, uint64, uint256, Args.fixed, Args.uint, onChain, structPreimage, typehash_eq d h,
    hp, hm, hword, hnonce, wordBytes16]

theorem domainPreimage_eq : domainPreimage L chainId verifyingContract =
    (deployedAt L chainId verifyingContract hashTypedDataV4).domainPreimage := by
  have hid := toNat_ofNat_256 chainId
  have hword : beBytes 32 chainId.toNat = wordU64 chainId.toNat := wordU64_eq chainId.toNat_lt
  simp [Deployment.domainPreimage, domainPreimage, deployedAt, Args.encode, Args.pair, bytes32,
    uint256, Args.fixed, Args.uint, Args.address, hid, hword]

theorem calls_grant_eq (keccak256 : Bytes → FixedBytes 32) (ownerSig : Bytes) :
    Calls.grant keccak256 (grantArgs t) ownerSig =
      callData keccak256 "grant" grantAbi (onChain t, ownerSig) := by
  have hsignature : signature "grant" grantAbi =
    "grant((bytes32,bytes32,bytes32,uint8,uint64,uint64,uint16,bytes16,uint256),bytes)" := rfl
  have hpermission : (BitVec.ofNat 256 t.permission.toNat).toNat = t.permission.toNat := by
    have := t.permission.toNat_lt
    rw [BitVec.toNat_ofNat, Nat.mod_eq_of_lt (by omega)]
  rw [callData, hsignature, Calls.grant, Calls.call]
  simp [Calls.grantParams, grantAbi, Args.encode, Args.pair, Args.struct, Args.iso, AccessGrant.fields,
    uint8, uint256, Args.uint, onChain, grantArgs, hpermission]

theorem length_grantAbi (g : AccessGrant) (ownerSig : Bytes) :
    (grantAbi.encode (g, ownerSig)).length ≤ 384 + ownerSig.length := by
  rw [Args.length_encode]
  simp only [grantAbi, Args.pair, Args.struct, Args.iso, AccessGrant.fields, Args.bytes, bytes32,
    bytes16, uint8, uint16, uint64, uint256, Args.fixed, Args.uint, Args.padding, List.nil_append,
    List.length_append, length_beBytes, List.length_replicate]
  omega

theorem onChain_inj (h : onChain t = onChain t') : t = t' := by
  have hnonce : t.grantNonce = t'.grantNonce := by
    have hword := congrArg (fun g => g.grantNonce.toNat) h
    simp only [onChain, toNat_ofNat_256] at hword
    exact UInt64.toNat_inj.mp hword
  cases t
  cases t'
  simp only [onChain, AccessGrant.mk.injEq] at h
  obtain ⟨rfl, rfl, rfl, rfl, rfl, rfl, rfl, rfl, -⟩ := h
  cases hnonce
  rfl

theorem structPreimage_inj (h : structPreimage L t = structPreimage L t') : t = t' := by
  let d : Deployment := ⟨L.keccak256, 0, .zero, fun h => h⟩
  rw [structPreimage_eq d rfl, structPreimage_eq d rfl] at h
  have hlen : ((bytes32.pair AccessGrant.fields).encode
      (accessGrantTypehash d, onChain t)).length < 2 ^ 64 := by
    rw [Args.length_encode]
    exact (show 320 + 0 < 2 ^ 64 by decide)
  exact onChain_inj (congrArg Prod.snd (Args.encode_inj _ hlen h))

end Encodings

-- The hashes are of what the contract encodes, the call is read as the terms and the signature, and
-- no two terms are hashed alike. A slice is at most 2^63 - 1 bytes long.
theorem grants_agree (L : Libraries) (t : AccessGrantTerms) (chainId : UInt64)
    (verifyingContract : FixedBytes 20) (hashTypedDataV4 : FixedBytes 32 → FixedBytes 32)
    (htyped : (deployedAt L chainId verifyingContract hashTypedDataV4).Eip712)
    (ownerSig : Bytes) (hsig : ownerSig.length < 2 ^ 63) :
    (t.structHash L = L.keccak256 (structPreimage L t) ∧
      structPreimage L t =
        (onChain t).preimage (deployedAt L chainId verifyingContract hashTypedDataV4)) ∧
    (t.digest L chainId verifyingContract =
        L.keccak256 (digestPreimage L t chainId verifyingContract) ∧
      domainPreimage L chainId verifyingContract =
        (deployedAt L chainId verifyingContract hashTypedDataV4).domainPreimage ∧
      t.digest L chainId verifyingContract = hashTypedDataV4
        ((onChain t).hashStruct (deployedAt L chainId verifyingContract hashTypedDataV4))) ∧
    readCall L.keccak256 "grant" grantAbi (Calls.grant L.keccak256 (grantArgs t) ownerSig) =
      some (onChain t, ownerSig) ∧
    (∀ msg registry p e p', AccessPolicy.grant
        (deployedAt L chainId verifyingContract hashTypedDataV4) msg registry (onChain t) ownerSig p =
          .ok (e, p') →
      e = .granted (t.structHash L) t.fileId t.deviceKeyHash t.permission t.expiry) ∧
    ∀ t', structPreimage L t = structPreimage L t' → t = t' := by
  have hpreimage : structPreimage L t = (onChain t).preimage
    (deployedAt L chainId verifyingContract hashTypedDataV4) := structPreimage_eq _ rfl
  have hstruct : (onChain t).hashStruct (deployedAt L chainId verifyingContract hashTypedDataV4) =
      t.structHash L := by
    rw [structHash_eq, hpreimage]
    rfl
  refine ⟨⟨rfl, hpreimage⟩, ⟨rfl, domainPreimage_eq, ?_⟩, ?_, ?_, fun t' => structPreimage_inj⟩
  · rw [hstruct, digest_eq, digestPreimage,
      @domainPreimage_eq L chainId verifyingContract hashTypedDataV4]
    exact (htyped.hashTypedDataV4 (t.structHash L)).symm
  · have hlen := length_grantAbi (onChain t) ownerSig
    rw [calls_grant_eq, readCall_callData]
    omega
  · intro msg registry p e p' hgrant
    obtain ⟨he, -⟩ := AccessPolicy.grant_eq_ok hgrant
    rw [he, hstruct]
    rfl

namespace Reference

-- The typed data hash of a contract on a test chain.
def typedDataHash (structHash : FixedBytes 32) : FixedBytes 32 :=
  Proto.Reference.libraries.keccak256 ([0x19, 0x01] ++ (Proto.Reference.libraries.keccak256
    (domainPreimage Proto.Reference.libraries 31337 (.replicate 20 9))).bytes ++ structHash.bytes)

theorem typedDataHash_eip712 :
    (deployedAt Proto.Reference.libraries 31337 (.replicate 20 9) typedDataHash).Eip712 := by
  refine ⟨fun structHash => ?_⟩
  rw [← domainPreimage_eq]
  rfl

def approved : AccessGrantTerms where
  fileId := .replicate 32 1
  headerHash := .replicate 32 2
  deviceKeyHash := .replicate 32 3
  permission := 1
  notBefore := 1700000000
  expiry := 1700003600
  maxOpens := 1
  requestNonce := .replicate 16 4
  grantNonce := 7

theorem call_read :
    (deployedAt Proto.Reference.libraries 31337 (.replicate 20 9) typedDataHash).Eip712 ∧
    readCall Proto.Reference.libraries.keccak256 "grant" grantAbi
      (Calls.grant Proto.Reference.libraries.keccak256 (grantArgs approved) (List.replicate 65 0xaa)) =
        some (onChain approved, List.replicate 65 0xaa) :=
  ⟨typedDataHash_eip712, (grants_agree _ approved 31337 _ _ typedDataHash_eip712
    (List.replicate 65 0xaa) (by decide)).2.2.1⟩

end Reference

end Zbacs.Contracts
