import Zbacs.Contracts.Calls
import Zbacs.Contracts.Chain
import Zbacs.Lib.Abi.Arrays

namespace Zbacs.Contracts

open Zbacs.Lib Zbacs.Lib.Abi

-- The rest of the calldata an agent builds, and how a contract finds out which of its functions is
-- called.

def bytes32Pair : Args (FixedBytes 32 × FixedBytes 32) := bytes32.pair bytes32

def uint192 : Args (BitVec 192) := .uint 192 (Nat.le_of_ble_eq_true rfl)

namespace Calls

variable (keccak256 : Bytes → FixedBytes 32)

-- `FileRegistry.register(fileId, headerHash)`
def register (fileId headerHash : FixedBytes 32) : Bytes :=
  call keccak256 "register(bytes32,bytes32)" (bytes32Pair.encode (fileId, headerHash))

-- `FileRegistry.bumpVersion(fileId, newHeaderHash)`
def bumpVersion (fileId newHeaderHash : FixedBytes 32) : Bytes :=
  call keccak256 "bumpVersion(bytes32,bytes32)" (bytes32Pair.encode (fileId, newHeaderHash))

-- `AccessPolicy.revoke(grantId)`
def revoke (grantId : FixedBytes 32) : Bytes :=
  call keccak256 "revoke(bytes32)" (bytes32.encode grantId)

-- `EntryPoint.getNonce(sender, key)`. The key goes into a word as a number of 256 bits.
def entryPointGetNonce (sender : Address) (key : FixedBytes 24) : Bytes :=
  call keccak256 "getNonce(address,uint192)"
    ((Args.address.pair uint256).encode (sender, .ofNat 256 (beNat key.bytes)))

end Calls

-- The selectors that are written down beside the contracts' interface.
structure Pinned (keccak256 : Bytes → FixedBytes 32) : Prop where
  register : selector keccak256 "register(bytes32,bytes32)" = [0x2f, 0x92, 0x67, 0x32]
  bumpVersion : selector keccak256 "bumpVersion(bytes32,bytes32)" = [0x1c, 0x3e, 0x31, 0xf6]
  grant : selector keccak256
    "grant((bytes32,bytes32,bytes32,uint8,uint64,uint64,uint16,bytes16,uint256),bytes)" =
      [0x25, 0x8a, 0x51, 0x72]
  revoke : selector keccak256 "revoke(bytes32)" = [0xb7, 0x5c, 0x7d, 0xc6]

section Read

variable (keccak256 : Bytes → FixedBytes 32)

-- Which of the registry's writes this is, and its arguments.
def readRegistry (data : Bytes) : Option Call :=
  ((readCall keccak256 "register" bytes32Pair data).map fun (fileId, headerHash) =>
      Call.register fileId headerHash) <|>
    ((readCall keccak256 "bumpVersion" bytes32Pair data).map fun (fileId, newHeaderHash) =>
      Call.bumpVersion fileId newHeaderHash) <|>
    (readCall keccak256 "retire" bytes32 data).map Call.retire

-- The same for the policy.
def readPolicy (data : Bytes) : Option Call :=
  ((readCall keccak256 "grant" grantAbi data).map fun (g, ownerSig) => Call.grant g ownerSig) <|>
    ((readCall keccak256 "revoke" bytes32 data).map Call.revoke) <|>
    (readCall keccak256 "consumeOpen" (bytes32.pair .bytes) data).map fun (grantId, devicePubKeys) =>
      Call.consumeOpen grantId devicePubKeys

end Read

section Reads

variable {keccak256 : Bytes → FixedBytes 32}

-- Calldata with another function's selector is not read.
theorem readCall_of_ne {α β : Type} {function other : String} {p : Args α} {q : Args β} {a : α}
    (h : selector keccak256 (signature function p) ≠ selector keccak256 (signature other q)) :
    readCall keccak256 other q (callData keccak256 function p a) = none := by
  have hlen := length_selector keccak256 (signature function p)
  rw [readCall, callData, List.take_left' hlen, if_neg h]

theorem length_bytes32Pair (v : FixedBytes 32 × FixedBytes 32) : (bytes32Pair.encode v).length = 64 := by
  rw [Args.length_encode]
  rfl

theorem readRegistry_register (fileId headerHash : FixedBytes 32) :
    readRegistry keccak256 (Calls.register keccak256 fileId headerHash) =
      some (.register fileId headerHash) := by
  have hread : readCall keccak256 "register" bytes32Pair
      (Calls.register keccak256 fileId headerHash) = some (fileId, headerHash) := by
    apply readCall_callData
    rw [length_bytes32Pair]
    decide
  rw [readRegistry, hread]
  rfl

theorem readRegistry_bumpVersion (h : Pinned keccak256) (fileId newHeaderHash : FixedBytes 32) :
    readRegistry keccak256 (Calls.bumpVersion keccak256 fileId newHeaderHash) =
      some (.bumpVersion fileId newHeaderHash) := by
  have hother : readCall keccak256 "register" bytes32Pair
      (Calls.bumpVersion keccak256 fileId newHeaderHash) = none := by
    apply @readCall_of_ne keccak256 _ _ "bumpVersion" "register" bytes32Pair
    have hselectors : selector keccak256 "bumpVersion(bytes32,bytes32)" ≠
        selector keccak256 "register(bytes32,bytes32)" := by
      rw [h.bumpVersion, h.register]
      decide
    exact hselectors
  have hread : readCall keccak256 "bumpVersion" bytes32Pair
      (Calls.bumpVersion keccak256 fileId newHeaderHash) = some (fileId, newHeaderHash) := by
    apply readCall_callData
    rw [length_bytes32Pair]
    decide
  rw [readRegistry, hother, hread]
  rfl

theorem readPolicy_revoke (h : Pinned keccak256) (grantId : FixedBytes 32) :
    readPolicy keccak256 (Calls.revoke keccak256 grantId) = some (.revoke grantId) := by
  have hother : readCall keccak256 "grant" grantAbi (Calls.revoke keccak256 grantId) = none := by
    apply @readCall_of_ne keccak256 _ _ "revoke" "grant" bytes32
    have hselectors : selector keccak256 "revoke(bytes32)" ≠ selector keccak256
        "grant((bytes32,bytes32,bytes32,uint8,uint64,uint64,uint16,bytes16,uint256),bytes)" := by
      rw [h.revoke, h.grant]
      decide
    exact hselectors
  have hread : readCall keccak256 "revoke" bytes32 (Calls.revoke keccak256 grantId) = some grantId := by
    apply readCall_callData
    rw [Args.length_encode]
    exact (by decide : 32 + 0 < 2 ^ 64)
  rw [readPolicy, hother, hread]
  rfl

theorem calls_grant_terms (g : GrantArgs) (ownerSig : Bytes) : Calls.grant keccak256 g ownerSig =
    callData keccak256 "grant" grantAbi (g.terms, ownerSig) :=
  @calls_grant_eq ⟨g.fileId, g.headerHash, g.deviceKeyHash, g.permission, g.notBefore, g.expiry,
    g.maxOpens, g.requestNonce, g.grantNonce⟩ keccak256 ownerSig

theorem readPolicy_grant (g : GrantArgs) : readPolicy keccak256 (Calls.grant keccak256 g []) =
    some (.grant g.terms []) := by
  have hread : readCall keccak256 "grant" grantAbi (Calls.grant keccak256 g []) =
      some (g.terms, []) := by
    rw [calls_grant_terms]
    apply readCall_callData
    have hlen := length_grantAbi g.terms []
    rw [List.length_nil] at hlen
    omega
  rw [readPolicy, hread]
  rfl

end Reads

end Zbacs.Contracts
