import Zbacs.Onchain.Account

namespace Zbacs.Onchain

open Zbacs.Lib Zbacs.Lib.Abi Zbacs.Contracts

-- What the account makes of the bytes of an operation, as the standard for such accounts has it, and
-- what the contracts make of the account's calls.

-- A target, a value and calldata without any words around them.
def readSingle (calldata : Bytes) : Option (List Execution) := do
  let target ← FixedBytes.ofBytes? 20 (calldata.take 20)
  if calldata.length < 52 then none
  else some [⟨target, .ofNat 256 (beNat ((calldata.drop 20).take 32)), calldata.drop 52⟩]

-- The first byte of the mode says whether it is one call or several, the second whether a call that
-- fails takes the others with it.
def readExecutions (data : Bytes) : Option (List Execution) :=
  if data.take 4 ≠ executeSelector then none
  else do
    let (mode, calldata) ← executeArgs.decode (data.drop 4)
    if mode.bytes.take 2 = [0x00, 0x00] then readSingle calldata
    else if mode.bytes.take 2 = [0x01, 0x00] then Execution.batch.decode calldata
    else none

-- None of the functions takes any value.
def dispatch (keccak256 : Bytes → FixedBytes 32) (dep : Deployment) (e : Execution) :
    Option Contracts.Call :=
  if e.value ≠ 0 then none
  else if e.target = dep.registry then readRegistry keccak256 e.callData
  else if e.target = dep.policy then readPolicy keccak256 e.callData
  else none

def readCalls (keccak256 : Bytes → FixedBytes 32) (dep : Deployment) (data : Bytes) :
    Option (List Contracts.Call) := do
  let executions ← readExecutions data
  executions.mapM (dispatch keccak256 dep)

-- An operation with these bytes, where its calls are calls of the contracts.
def Operation.mineData (keccak256 : Bytes → FixedBytes 32) (dep : Deployment)
    (d : Contracts.Deployment) (owner : Address) (data : Bytes) (op : Operation) (w : World) :
    Option (Option Bool × World) := do
  let calls ← readCalls keccak256 dep data
  some (op.mine d owner calls w)

section Executions

variable {keccak256 : Bytes → FixedBytes 32}

theorem length_executeArgs (mode : FixedBytes 32) (calldata : Bytes) :
    calldata.length ≤ (executeArgs.encode (mode, calldata)).length := by
  rw [Args.length_encode]
  simp only [executeArgs, Args.pair, Args.bytes, bytes32, Args.fixed, List.nil_append,
    List.length_append, length_beBytes]
  omega

theorem readExecutions_execute {mode : FixedBytes 32} {calldata : Bytes}
    (h : (executeSelector ++ executeArgs.encode (mode, calldata)).length < 2 ^ 63) :
    readExecutions (executeSelector ++ executeArgs.encode (mode, calldata)) =
      if mode.bytes.take 2 = [0x00, 0x00] then readSingle calldata
      else if mode.bytes.take 2 = [0x01, 0x00] then Execution.batch.decode calldata
      else none := by
  have hlen : executeSelector.length = 4 := rfl
  rw [List.length_append, hlen] at h
  have hread : executeArgs.decode (executeArgs.encode (mode, calldata)) = some (mode, calldata) := by
    apply Args.decode_encode
    omega
  have hselector : ¬(executeSelector ++ executeArgs.encode (mode, calldata)).take 4 ≠
      executeSelector := by
    rw [List.take_left' hlen]
    exact not_not_intro rfl
  rw [readExecutions, if_neg hselector, List.drop_left' hlen, hread]
  rfl

theorem readExecutions_executeCall {target : Address} {value : U256} {data : Bytes}
    (h : (Aa.KernelAccount.executeCall target value data).length < 2 ^ 63) :
    readExecutions (Aa.KernelAccount.executeCall target value data) =
      some [⟨target, value, data⟩] := by
  have hmode : zeroHash.bytes.take 2 = [0x00, 0x00] := rfl
  rw [Aa.KernelAccount.executeCall] at h ⊢
  rw [readExecutions_execute h, if_pos hmode, readSingle, List.append_assoc]
  have htarget := target.length_bytes
  have hvalue : (beBytes 32 value.toNat).length = 32 := length_beBytes ..
  have hfit : value.toNat < 256 ^ 32 := value.isLt
  have hdrop : (target.bytes ++ (beBytes 32 value.toNat ++ data)).drop 52 = data := by
    rw [← List.append_assoc]
    apply List.drop_left'
    rw [List.length_append, htarget, hvalue]
  have hlong : ¬(target.bytes ++ (beBytes 32 value.toNat ++ data)).length < 52 := by
    rw [List.length_append, List.length_append, htarget, hvalue]
    omega
  rw [List.take_left' htarget, FixedBytes.ofBytes?_bytes, hdrop, List.drop_left' htarget,
    List.take_left' hvalue, beNat_beBytes hfit, BitVec.ofNat_toNat, BitVec.setWidth_eq]
  exact if_neg hlong

theorem readExecutions_executeBatch {calls : List Execution}
    (h : (Aa.KernelAccount.executeBatch calls).length < 2 ^ 63) :
    readExecutions (Aa.KernelAccount.executeBatch calls) = some calls := by
  have hlen : executeSelector.length = 4 := rfl
  rw [Aa.KernelAccount.executeBatch] at h ⊢
  rw [readExecutions_execute h]
  rw [List.length_append, hlen] at h
  have hinner := length_executeArgs ⟨0x01 :: List.replicate 31 0, rfl⟩ (Execution.batch.encode calls)
  have hbatch : Execution.batch.decode (Execution.batch.encode calls) = some calls := by
    apply Args.decode_encode
    omega
  exact hbatch

end Executions

section Dispatch

variable {keccak256 : Bytes → FixedBytes 32} {dep : Deployment}

theorem dispatch_registry (data : Bytes) :
    dispatch keccak256 dep ⟨dep.registry, 0, data⟩ = readRegistry keccak256 data := by
  have hvalue : ¬(0 : U256) ≠ 0 := not_not_intro rfl
  exact (if_neg hvalue).trans (if_pos rfl)

theorem dispatch_policy (data : Bytes) :
    dispatch keccak256 dep ⟨dep.policy, 0, data⟩ = readPolicy keccak256 data := by
  have hvalue : ¬(0 : U256) ≠ 0 := not_not_intro rfl
  have hpolicy : ¬dep.policy = dep.registry := fun hsame => dep.registry_ne_policy hsame.symm
  exact (if_neg hvalue).trans ((if_neg hpolicy).trans (if_pos rfl))

-- Every call gets to the function it was meant for.
theorem dispatch_call (h : Pinned keccak256) (call : Call) :
    dispatch keccak256 dep ⟨call.target dep, 0, call.data keccak256⟩ = some call.targetAndData := by
  cases call with
  | register fileId headerHash =>
      exact (dispatch_registry _).trans (readRegistry_register fileId headerHash)
  | bumpVersion fileId headerHash =>
      exact (dispatch_registry _).trans (readRegistry_bumpVersion h fileId headerHash)
  | grant g => exact (dispatch_policy _).trans (readPolicy_grant g)
  | revoke fileId grantId => exact (dispatch_policy _).trans (readPolicy_revoke h grantId)

theorem dispatch_calls (h : Pinned keccak256) (batch : List Call) :
    (batch.map fun c => (⟨c.target dep, 0, c.data keccak256⟩ : Execution)).mapM
      (dispatch keccak256 dep) = some (batch.map Call.targetAndData) := by
  induction batch with
  | nil => rfl
  | cons call rest ih =>
      rw [List.map_cons, List.mapM_cons, dispatch_call h, ih]
      rfl

theorem readExecutions_callData {batch : List Call}
    (hlen : (SmartAccountWriter.callData keccak256 dep batch).length < 2 ^ 63) :
    readExecutions (SmartAccountWriter.callData keccak256 dep batch) =
      some (batch.map fun c => ⟨c.target dep, 0, c.data keccak256⟩) := by
  unfold SmartAccountWriter.callData at hlen ⊢
  split at hlen
  · exact readExecutions_executeCall hlen
  · exact readExecutions_executeBatch hlen

end Dispatch

-- The bytes of an operation are the calls it was made for: the account takes them apart into just
-- these calls in their order, each with its contract, every contract finds the function and the
-- arguments that were meant, and the operation does to the contracts what the list of calls does.
-- Two operations with the same bytes were made for the same calls. A vector is at most 2^63 - 1
-- bytes long.
theorem callData_executes {keccak256 : Bytes → FixedBytes 32} (h : Pinned keccak256) (dep : Deployment)
    (batch : List Call)
    (hlen : (SmartAccountWriter.callData keccak256 dep batch).length < 2 ^ 63) :
    (readExecutions (SmartAccountWriter.callData keccak256 dep batch) =
      some (batch.map fun c => ⟨c.target dep, 0, c.data keccak256⟩)) ∧
    (∀ d owner (op : Operation) w, op.mineData keccak256 dep d owner
        (SmartAccountWriter.callData keccak256 dep batch) w =
      some (op.mine d owner (batch.map Call.targetAndData) w)) ∧
    ∀ batch', SmartAccountWriter.callData keccak256 dep batch =
        SmartAccountWriter.callData keccak256 dep batch' →
      batch.map Call.targetAndData = batch'.map Call.targetAndData := by
  have hread : ∀ {batch : List Call},
      (SmartAccountWriter.callData keccak256 dep batch).length < 2 ^ 63 →
      readCalls keccak256 dep (SmartAccountWriter.callData keccak256 dep batch) =
        some (batch.map Call.targetAndData) := by
    intro batch hlen
    rw [readCalls, readExecutions_callData hlen]
    exact dispatch_calls h batch
  refine ⟨readExecutions_callData hlen, fun d owner op w => ?_, fun batch' hsame => ?_⟩
  · rw [Operation.mineData, hread hlen]
    rfl
  · have hother := hread (hsame ▸ hlen)
    rw [← hsame, hread hlen] at hother
    exact Option.some.inj hother

namespace Reference

-- A hash that begins as the real one does where a function is named.
def named : List (String × FixedBytes 4) :=
  [("register(bytes32,bytes32)", ⟨[0x2f, 0x92, 0x67, 0x32], rfl⟩),
    ("bumpVersion(bytes32,bytes32)", ⟨[0x1c, 0x3e, 0x31, 0xf6], rfl⟩),
    ("grant((bytes32,bytes32,bytes32,uint8,uint64,uint64,uint16,bytes16,uint256),bytes)",
      ⟨[0x25, 0x8a, 0x51, 0x72], rfl⟩),
    ("revoke(bytes32)", ⟨[0xb7, 0x5c, 0x7d, 0xc6], rfl⟩)]

def keccak256 (b : Bytes) : FixedBytes 32 :=
  match named.find? fun entry => entry.1.toUTF8.data.toList = b with
  | some entry => ⟨entry.2.bytes ++ List.replicate 28 0, by simp⟩
  | none => Core.Reference.digest b

theorem pinned : Pinned keccak256 := by
  refine ⟨?_, ?_, ?_, ?_⟩ <;> decide +kernel

def testChain : Deployment where
  registry := .replicate 20 1
  policy := .replicate 20 2
  audit := .replicate 20 3
  p256Validator := some (.replicate 20 4)
  registry_ne_zero := by decide
  policy_ne_zero := by decide
  audit_ne_zero := by decide
  registry_ne_policy := by decide
  registry_ne_audit := by decide
  policy_ne_audit := by decide

-- A queued version in front of the approval that needs it.
def tapped : List Call :=
  [.bumpVersion (.replicate 32 1) (.replicate 32 2), .grant (grantArgs Contracts.Reference.approved)]

theorem tapped_executes : Pinned keccak256 ∧
    (SmartAccountWriter.callData keccak256 testChain tapped).length < 2 ^ 63 ∧
    readExecutions (SmartAccountWriter.callData keccak256 testChain tapped) =
      some (tapped.map fun c => ⟨c.target testChain, 0, c.data keccak256⟩) := by
  have hlen : (SmartAccountWriter.callData keccak256 testChain tapped).length < 2 ^ 63 := by
    decide +kernel
  exact ⟨pinned, hlen, (callData_executes pinned testChain tapped hlen).1⟩

end Reference

end Zbacs.Onchain
