import Zbacs.Contracts.Dispatch
import Zbacs.Core.Utf8
import Zbacs.Onchain.UserOperation
import Zbacs.Onchain.Writer

namespace Zbacs.Onchain

open Zbacs.Lib Zbacs.Lib.Abi Zbacs.Contracts
open Zbacs.Core (utf8)

-- The owner's smart account: where it is, how it is set up, and how its calls are written.

-- Where the contracts live on one chain. No two of them share an address.
structure Deployment where
  registry : Address
  policy : Address
  audit : Address
  p256Validator : Option Address
  registry_ne_zero : registry ≠ .zero
  policy_ne_zero : policy ≠ .zero
  audit_ne_zero : audit ≠ .zero
  registry_ne_policy : registry ≠ policy
  registry_ne_audit : registry ≠ audit
  policy_ne_audit : policy ≠ audit

-- `Deployment::from_json`, from the addresses on: a validator at zero is none.
def Deployment.ofAddresses (registry policy audit : Address) (p256Validator : Option Address) :
    Except ChainError Deployment :=
  if hr : registry = .zero then .error (.config "registry address is zero")
  else if hp : policy = .zero then .error (.config "policy address is zero")
  else if ha : audit = .zero then .error (.config "audit address is zero")
  else if h : registry = policy ∨ registry = audit ∨ policy = audit then
    .error (.config "two contracts share an address")
  else .ok ⟨registry, policy, audit, p256Validator.filter fun a => a ≠ .zero, hr, hp, ha,
    fun hs => h (.inl hs), fun hs => h (.inr (.inl hs)), fun hs => h (.inr (.inr hs))⟩

-- `kernel_v31`

def kernelFactory : Address :=
  ⟨[0xaa, 0xc5, 0xd4, 0x24, 0x0a, 0xf8, 0x72, 0x49, 0xb3, 0xf7, 0x1b, 0xc8, 0xe4, 0xa2, 0xca, 0xe0,
    0x74, 0xa3, 0xe4, 0x19], rfl⟩

def accountLogic : Address :=
  ⟨[0xba, 0xc8, 0x49, 0xbb, 0x64, 0x18, 0x41, 0xb4, 0x4e, 0x96, 0x5f, 0xb0, 0x1a, 0x4b, 0xf5, 0xf0,
    0x74, 0xf8, 0x4b, 0x4d], rfl⟩

def webauthnValidator : Address :=
  ⟨[0x7a, 0xb1, 0x6f, 0xf3, 0x54, 0xac, 0xb3, 0x28, 0x45, 0x2f, 0x1d, 0x44, 0x5b, 0x3d, 0xde, 0xe9,
    0xa9, 0x1e, 0x9e, 0x69], rfl⟩

-- Which validator is the account's root, and what it needs at install.
inductive RootValidator where
  | webAuthn (x y : FixedBytes 32) (credentialId : Bytes)
  | deviceKey (validator : Address) (x y : FixedBytes 32) (requireOsConfirm : Bool)
deriving DecidableEq

namespace RootValidator

def address : RootValidator → Address
  | webAuthn .. => webauthnValidator
  | deviceKey validator .. => validator

-- What the account hands the validator's `onInstall`.
def installData (keccak256 : Bytes → FixedBytes 32) : RootValidator → Bytes
  | webAuthn x y credentialId =>
    ((uint256.pair uint256).pair bytes32).encode
      ((.ofNat 256 (beNat x.bytes), .ofNat 256 (beNat y.bytes)), keccak256 credentialId)
  | deviceKey _ x y requireOsConfirm => x.bytes ++ y.bytes ++ [if requireOsConfirm then 1 else 0]

end RootValidator

-- One call of an account's: ERC-7579's `Execution`.
structure Execution where
  target : Address
  value : U256
  callData : Bytes
deriving DecidableEq

def Execution.fields : Args Execution :=
  ((Args.address.pair <| uint256.pair Args.bytes).iso (fun (target, value, callData) =>
    ⟨target, value, callData⟩) (fun e => (e.target, e.value, e.callData)) fun _ => rfl).nested

-- `Execution[]`
def Execution.batch : Args (List Execution) := Execution.fields.array (Nat.succ_pos 31)

def initializeSelector : Bytes := [0x3c, 0x3b, 0x75, 0x2b]

def deployWithFactorySelector : Bytes := [0xc5, 0x26, 0x5d, 0x5d]

def executeSelector : Bytes := [0xe9, 0xae, 0x5c, 0x53]

theorem bytes_words : 0 < Args.bytes.headLen := Nat.succ_pos 31

-- What `initialize` takes: the root validator's id, its hook, what it and the hook are installed
-- with, and further configuration.
def initializeArgs : Args (FixedBytes 21 × Address × Bytes × Bytes × List Bytes) :=
  (Args.fixed 21 (Nat.le_of_ble_eq_true rfl)).pair <| Args.address.pair <| Args.bytes.pair <| Args.bytes.pair <|
    Args.bytes.array bytes_words

-- What `deployWithFactory` takes: the factory, what it is called with, and a salt.
def deployArgs : Args (Address × Bytes × FixedBytes 32) :=
  Args.address.pair <| Args.bytes.pair bytes32

-- What `execute` takes: a mode, and what is to be executed in that mode.
def executeArgs : Args (FixedBytes 32 × Bytes) := bytes32.pair .bytes

-- The creation code of a minimal proxy, with the address of what it stands for.
def erc1967CloneInitCode (implementation : Address) : Bytes :=
  [0x60, 0x3d, 0x3d, 0x81, 0x60, 0x22, 0x3d, 0x39, 0x73] ++ implementation.bytes ++ [0x60, 0x09] ++
    [0x51, 0x55, 0xf3, 0x36, 0x3d, 0x3d, 0x37, 0x3d, 0x3d, 0x36, 0x3d, 0x7f, 0x36, 0x08, 0x94, 0xa1,
      0x3b, 0xa1, 0xa3, 0x21, 0x06, 0x67, 0xc8, 0x28, 0x49, 0x2d, 0xb9, 0x8d, 0xca, 0x3e, 0x20, 0x76] ++
    [0xcc, 0x37, 0x35, 0xa9, 0x20, 0xa3, 0xca, 0x50, 0x5d, 0x38, 0x2b, 0xbc, 0x54, 0x5a, 0xf4, 0x3d,
      0x60, 0x00, 0x80, 0x3e, 0x60, 0x38, 0x57, 0x3d, 0x60, 0x00, 0xfd, 0x5b, 0x3d, 0x60, 0x00, 0xf3]

def erc1967CloneInitCodeHash (keccak256 : Bytes → FixedBytes 32) (implementation : Address) :
    FixedBytes 32 :=
  keccak256 (erc1967CloneInitCode implementation)

-- `Address::create2`
def create2 (keccak256 : Bytes → FixedBytes 32) (deployer : Address) (salt initCodeHash : FixedBytes 32) :
    Address :=
  ⟨(keccak256 ([0xff] ++ deployer.bytes ++ salt.bytes ++ initCodeHash.bytes)).bytes.drop 12, by simp⟩

namespace Aa

-- A Kernel account for one owner key, before or after deployment.
structure KernelAccount where
  root : RootValidator
  -- zero for the owner's one account
  index : UInt64
deriving DecidableEq

namespace KernelAccount

def new (root : RootValidator) : KernelAccount := ⟨root, 0⟩

def withIndex (index : UInt64) (a : KernelAccount) : KernelAccount := { a with index }

-- A validator's type, and its address.
def rootId (a : KernelAccount) : FixedBytes 21 := ⟨0x01 :: a.root.address.bytes, by simp⟩

section Kernel

variable (keccak256 : Bytes → FixedBytes 32)

def initializeCalldata (a : KernelAccount) : Bytes :=
  initializeSelector ++
    initializeArgs.encode (a.rootId, .zero, a.root.installData keccak256, [], [])

def salt (a : KernelAccount) : FixedBytes 32 := ⟨beBytes 32 a.index.toNat, length_beBytes ..⟩

-- The factory's call, behind the address of the one factory that bundlers know.
def initCode (a : KernelAccount) : Bytes :=
  metaFactory.bytes ++ deployWithFactorySelector ++
    deployArgs.encode (kernelFactory, a.initializeCalldata keccak256, a.salt)

def address (a : KernelAccount) : Address :=
  let actualSalt := keccak256 (a.initializeCalldata keccak256 ++ a.salt.bytes)
  create2 keccak256 kernelFactory actualSalt (erc1967CloneInitCodeHash keccak256 accountLogic)

-- The account as it goes into an operation.
def sending (a : KernelAccount) : Onchain.KernelAccount :=
  ⟨a.address keccak256, (a.initCode keccak256).drop 20⟩

end Kernel

-- The key of the root validator's nonces, and the number in the sequence.
def nonceKey (a : KernelAccount) : FixedBytes 24 :=
  ⟨[0x00, 0x00] ++ a.root.address.bytes ++ [0x00, 0x00], by simp⟩

def nonce (sequence : UInt64) (a : KernelAccount) : U256 :=
  .ofNat 256 (beNat (a.nonceKey.bytes ++ beBytes 8 sequence.toNat))

-- `callData` for several calls in one user operation: the whole batch reverts if one call does.
def executeBatch (calls : List Execution) : Bytes :=
  let mode : FixedBytes 32 := ⟨0x01 :: List.replicate 31 0, rfl⟩
  executeSelector ++ executeArgs.encode (mode, Execution.batch.encode calls)

-- `callData` for one call from the account.
def executeCall (target : Address) (value : U256) (data : Bytes) : Bytes :=
  executeSelector ++ executeArgs.encode (zeroHash, target.bytes ++ beBytes 32 value.toNat ++ data)

end KernelAccount

end Aa

namespace Call

-- Which contract, and what calldata.
def target (dep : Deployment) : Call → Address
  | register .. | bumpVersion .. => dep.registry
  | grant .. | revoke .. => dep.policy

def data (keccak256 : Bytes → FixedBytes 32) : Call → Bytes
  | register fileId headerHash => Calls.register keccak256 fileId headerHash
  | bumpVersion fileId headerHash => Calls.bumpVersion keccak256 fileId headerHash
  | grant g => Calls.grant keccak256 g []
  | revoke _ grantId => Calls.revoke keccak256 grantId

end Call

namespace SmartAccountWriter

-- The bytes `submit` puts into the operation: one call is not a batch of one.
def callData (keccak256 : Bytes → FixedBytes 32) (dep : Deployment) : List Call → Bytes
  | [one] => Aa.KernelAccount.executeCall (one.target dep) 0 (one.data keccak256)
  | many => Aa.KernelAccount.executeBatch (many.map fun c => ⟨c.target dep, 0, c.data keccak256⟩)

-- What `next_nonce` asks the entry point for.
def nonceQuery (keccak256 : Bytes → FixedBytes 32) (a : Aa.KernelAccount) : Bytes :=
  let word := beBytes 32 (a.nonce 0).toNat
  Calls.entryPointGetNonce keccak256 (a.address keccak256) ⟨word.take 24, by simp [word]⟩

-- What `next_nonce` makes of the answer.
def nextNonce (out : Bytes) : Except ChainError U256 :=
  if out.length ≠ 32 then .error .malformed else .ok (.ofNat 256 (beNat out))

end SmartAccountWriter

-- The signatures of operations, as the validators of the account take them.

-- What an operation is for.
inductive Write where
  | register (fileId : FixedBytes 32)
  | bumpVersion (fileId : FixedBytes 32)
  | grant (fileId : FixedBytes 32) (permission : UInt8)
  | revoke (fileId : FixedBytes 32)
deriving DecidableEq

def Write.fileId : Write → FixedBytes 32
  | register fileId | bumpVersion fileId | grant fileId _ | revoke fileId => fileId

-- `str::find`: the first place, in bytes.
def find (pattern : Bytes) : Bytes → Option Nat
  | [] => if pattern = [] then some 0 else none
  | b :: rest => if pattern.isPrefixOf (b :: rest) then some 0 else (find pattern rest).map (· + 1)

-- A text on the chain is its bytes.
def text : Args Bytes := { Args.bytes with name := "string" }

-- What Kernel's WebAuthn validator decodes.
def webauthnArgs : Args (Bytes × Bytes × U256 × U256 × U256 × Bool) :=
  Args.bytes.pair <| text.pair <| uint256.pair <| uint256.pair <| uint256.pair Args.bool

-- `webauthn_signature`
def webauthnSignature (authenticatorData : Bytes) (clientDataJson : String) (r s : FixedBytes 32)
    (usePrecompiled : Bool) : Bytes :=
  let typeIndex := (find (utf8 "\"type\":") (utf8 clientDataJson)).getD 0
  webauthnArgs.encode (authenticatorData, utf8 clientDataJson, .ofNat 256 typeIndex,
    .ofNat 256 (beNat r.bytes), .ofNat 256 (beNat s.bytes), usePrecompiled)

-- `p256_raw_signature`
def p256RawSignature (keyId r s : FixedBytes 32) : Bytes := keyId.bytes ++ r.bytes ++ s.bytes

section Signatures

variable {authenticatorData : Bytes} {clientDataJson : String} {r s : FixedBytes 32}
  {usePrecompiled : Bool}

theorem length_webauthnSignature :
    256 ≤ (webauthnSignature authenticatorData clientDataJson r s usePrecompiled).length := by
  rw [webauthnSignature, Args.length_encode]
  simp only [webauthnArgs, text, Args.pair, Args.bytes, Args.bool, uint256, Args.uint, List.length_append,
    length_beBytes]
  omega

theorem length_p256RawSignature (keyId r s : FixedBytes 32) : (p256RawSignature keyId r s).length = 96 := by
  simp [p256RawSignature]

theorem p256RawSignature_inj {keyId r s keyId' r' s' : FixedBytes 32}
    (h : p256RawSignature keyId r s = p256RawSignature keyId' r' s') : keyId = keyId' ∧ r = r' ∧ s = s' := by
  obtain ⟨hfront, hs⟩ := List.append_inj' h (by simp)
  obtain ⟨hid, hr⟩ := List.append_inj hfront (by simp)
  exact ⟨FixedBytes.ext hid, FixedBytes.ext hr, FixedBytes.ext hs⟩

theorem ofNat_bytes_inj {a b : FixedBytes 32}
    (h : BitVec.ofNat 256 (beNat a.bytes) = BitVec.ofNat 256 (beNat b.bytes)) : a = b := by
  have hword : ∀ c : FixedBytes 32, beBytes 32 (BitVec.ofNat 256 (beNat c.bytes)).toNat = c.bytes := by
    intro c
    have hlt := beNat_lt c.bytes
    have hback := beBytes_beNat c.bytes
    rw [c.length_bytes] at hlt hback
    have hpow : 256 ^ 32 = 2 ^ 256 := by decide
    rw [hpow] at hlt
    rw [BitVec.toNat_ofNat, Nat.mod_eq_of_lt hlt, hback]
  apply FixedBytes.ext
  rw [← hword a, ← hword b, h]

theorem webauthnSignature_inj {authenticatorData' : Bytes} {clientDataJson' : String}
    {r' s' : FixedBytes 32} {usePrecompiled' : Bool}
    (hlen : (webauthnSignature authenticatorData clientDataJson r s usePrecompiled).length < 2 ^ 64)
    (h : webauthnSignature authenticatorData clientDataJson r s usePrecompiled =
      webauthnSignature authenticatorData' clientDataJson' r' s' usePrecompiled') :
    authenticatorData = authenticatorData' ∧ clientDataJson = clientDataJson' ∧ r = r' ∧ s = s' := by
  have hfields := webauthnArgs.encode_inj hlen h
  simp only [Prod.mk.injEq] at hfields
  obtain ⟨hdata, htext, -, hr, hs, -⟩ := hfields
  exact ⟨hdata, Core.utf8_injective htext, ofNat_bytes_inj hr, ofNat_bytes_inj hs⟩

end Signatures

end Zbacs.Onchain
