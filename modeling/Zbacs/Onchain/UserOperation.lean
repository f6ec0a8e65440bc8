import Zbacs.Onchain.Client

namespace Zbacs.Onchain

open Zbacs.Lib Zbacs.Contracts

-- User operations: how they are packed and hashed, and how one is priced, signed and sent.

abbrev U256 := BitVec 256

-- `to::<u128>()`, which panics when the number does not fit.
def toU128 (v : U256) : Option (BitVec 128) := if v.toNat < 2 ^ 128 then some (v.setWidth 128) else none

def entryPointV07 : Address :=
  ⟨[0x00, 0x00, 0x00, 0x00, 0x71, 0x72, 0x7d, 0xe2, 0x2e, 0x5e, 0x9d, 0x8b, 0xaf, 0x0e, 0xda, 0xc6,
    0xf3, 0x7d, 0xa0, 0x32], rfl⟩

def metaFactory : Address :=
  ⟨[0xd7, 0x03, 0xaa, 0xe7, 0x95, 0x38, 0x62, 0x8d, 0x27, 0x09, 0x9b, 0x8c, 0x4f, 0x62, 0x1b, 0xe4,
    0xcc, 0xd1, 0x42, 0xd5], rfl⟩

structure PackedUserOperation where
  sender : Address
  nonce : U256
  initCode : Bytes
  callData : Bytes
  accountGasLimits : FixedBytes 32
  preVerificationGas : U256
  gasFees : FixedBytes 32
  paymasterAndData : Bytes
  signature : Bytes

def word (v : U256) : Bytes := beBytes 32 v.toNat

def addressWord (a : Address) : Bytes := List.replicate 12 0 ++ a.bytes

-- `EntryPoint.getUserOpHash`
def PackedUserOperation.hash (keccak256 : Bytes → FixedBytes 32) (chainId : UInt64)
    (entryPoint : Address) (p : PackedUserOperation) : FixedBytes 32 :=
  let inner := addressWord p.sender ++ word p.nonce ++ (keccak256 p.initCode).bytes ++
    (keccak256 p.callData).bytes ++ p.accountGasLimits.bytes ++ word p.preVerificationGas ++
    p.gasFees.bytes ++ (keccak256 p.paymasterAndData).bytes
  keccak256 ((keccak256 inner).bytes ++ addressWord entryPoint ++ beBytes 32 chainId.toNat)

def packPair (high low : BitVec 128) : FixedBytes 32 :=
  ⟨beBytes 16 high.toNat ++ beBytes 16 low.toNat, by simp⟩

-- The form the RPC methods take.
structure RpcUserOperation where
  sender : Address
  nonce : U256
  factory : Option Address
  factoryData : Option Bytes
  callData : Bytes
  callGasLimit : U256
  verificationGasLimit : U256
  preVerificationGas : U256
  maxFeePerGas : U256
  maxPriorityFeePerGas : U256
  paymaster : Option Address
  paymasterVerificationGasLimit : Option U256
  paymasterPostOpGasLimit : Option U256
  paymasterData : Option Bytes
  signature : Bytes

namespace RpcUserOperation

def initCode (op : RpcUserOperation) : Bytes :=
  match op.factory, op.factoryData with
  | some f, some d => f.bytes ++ d
  | _, _ => []

def paymasterAndData (op : RpcUserOperation) : Option Bytes :=
  match op.paymaster with
  | none => some []
  | some pm => do
    let v ← toU128 (op.paymasterVerificationGasLimit.getD 0)
    let p ← toU128 (op.paymasterPostOpGasLimit.getD 0)
    some (pm.bytes ++ beBytes 16 v.toNat ++ beBytes 16 p.toNat ++ op.paymasterData.getD [])

-- `none` is a panic.
def packed (op : RpcUserOperation) : Option PackedUserOperation := do
  let paymasterAndData ← op.paymasterAndData
  let verification ← toU128 op.verificationGasLimit
  let call ← toU128 op.callGasLimit
  let priority ← toU128 op.maxPriorityFeePerGas
  let fee ← toU128 op.maxFeePerGas
  some
    { sender := op.sender
      nonce := op.nonce
      initCode := op.initCode
      callData := op.callData
      accountGasLimits := packPair verification call
      preVerificationGas := op.preVerificationGas
      gasFees := packPair priority fee
      paymasterAndData := paymasterAndData
      signature := op.signature }

def hash (keccak256 : Bytes → FixedBytes 32) (chainId : UInt64) (op : RpcUserOperation) :
    Option (FixedBytes 32) :=
  op.packed.map fun p => p.hash keccak256 chainId entryPointV07

end RpcUserOperation

-- What the bundler and the paymaster answer with.

structure GasEstimate where
  preVerificationGas : U256
  verificationGasLimit : U256
  callGasLimit : U256
  paymasterVerificationGasLimit : Option U256
  paymasterPostOpGasLimit : Option U256

structure Sponsorship where
  paymaster : Address
  paymasterData : Bytes
  paymasterVerificationGasLimit : U256
  paymasterPostOpGasLimit : U256
  preVerificationGas : Option U256
  verificationGasLimit : Option U256
  callGasLimit : Option U256

structure GasPrice where
  maxFeePerGas : U256
  maxPriorityFeePerGas : U256

-- Each of these calls is made at most once for an operation.
structure BundlerAnswers where
  gasPrice : Except ChainError GasPrice
  estimate : Except ChainError GasEstimate
  sponsor : Except ChainError (Option Sponsorship)
  send : Except ChainError (FixedBytes 32)

namespace UserOpSender

def estimated (op : RpcUserOperation) (g : GasEstimate) : RpcUserOperation :=
  { op with
    preVerificationGas := g.preVerificationGas
    verificationGasLimit := g.verificationGasLimit
    callGasLimit := g.callGasLimit }

def sponsored (op : RpcUserOperation) (s : Sponsorship) : RpcUserOperation :=
  { op with
    paymaster := some s.paymaster
    paymasterData := some s.paymasterData
    paymasterVerificationGasLimit := some s.paymasterVerificationGasLimit
    paymasterPostOpGasLimit := some s.paymasterPostOpGasLimit }

-- Everything up to the hash: fees, sponsorship, gas limits.
def prepare (stubSignature : Bytes) (a : BundlerAnswers) (op : RpcUserOperation) :
    Except ChainError RpcUserOperation := do
  let fees ← a.gasPrice
  let op :=
    { op with
      maxFeePerGas := fees.maxFeePerGas
      maxPriorityFeePerGas := fees.maxPriorityFeePerGas
      signature := stubSignature }
  match ← a.sponsor with
  | some s =>
    let op := sponsored op s
    match s.preVerificationGas, s.verificationGasLimit, s.callGasLimit with
    | some p, some v, some c =>
      return { op with preVerificationGas := p, verificationGasLimit := v, callGasLimit := c }
    | _, _, _ => return estimated op (← a.estimate)
  | none => return estimated op (← a.estimate)

-- How a submission ends, the operation whose hash was signed and the one that was sent.
structure Submitted where
  result : Except ChainError (FixedBytes 32)
  hashed : Option RpcUserOperation
  sent : Option RpcUserOperation

-- `none` is a panic.
def submit (keccak256 : Bytes → FixedBytes 32) (chainId : UInt64) (stubSignature : Bytes)
    (sign : FixedBytes 32 → Except ChainError Bytes) (a : BundlerAnswers) (op : RpcUserOperation) :
    Option Submitted :=
  match prepare stubSignature a op with
  | .error e => some ⟨.error e, none, none⟩
  | .ok op => do
    let hash ← op.hash keccak256 chainId
    match sign hash with
    | .error e => some ⟨.error e, some op, none⟩
    | .ok signature => some ⟨a.send, some op, some { op with signature := signature }⟩

end UserOpSender

-- The account, and what its factory is called with to deploy it.
structure KernelAccount where
  address : Address
  factoryCall : Bytes

def KernelAccount.initCode (account : KernelAccount) : Bytes := metaFactory.bytes ++ account.factoryCall

-- The operation `send_call_data` hands to the sender.
def SmartAccountWriter.operation (account : KernelAccount) (deployed : Bool) (nonce : U256)
    (callData : Bytes) : RpcUserOperation where
  sender := account.address
  nonce := nonce
  factory := if deployed then none else some metaFactory
  factoryData := if deployed then none else some (account.initCode.drop 20)
  callData := callData
  callGasLimit := 0
  verificationGasLimit := 0
  preVerificationGas := 0
  maxFeePerGas := 0
  maxPriorityFeePerGas := 0
  paymaster := none
  paymasterVerificationGasLimit := none
  paymasterPostOpGasLimit := none
  paymasterData := none
  signature := []

end Zbacs.Onchain
