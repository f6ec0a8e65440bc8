import Zbacs.Contracts.FileRegistry
import Zbacs.Lib.SwapPop
import Zbacs.Lib.Trace

namespace Zbacs.Contracts

open Zbacs.Lib

-- A registered device key.
structure DeviceKey where
  x : FixedBytes 32
  y : FixedBytes 32
  -- the owner's choice, on record for their other devices
  requireOsConfirm : Bool
  enrolled : Bool
deriving DecidableEq

-- What `delete` leaves.
def DeviceKey.zero : DeviceKey := ⟨zeroHash, zeroHash, false, false⟩

-- What the validator uses of the chain and of the curve library.
structure Curve where
  keccak256 : Bytes → FixedBytes 32
  isValidPublicKey : FixedBytes 32 → FixedBytes 32 → Bool
  verify : (hash r s x y : FixedBytes 32) → Bool

inductive ValidatorError where
  | alreadyEnrolled (keyId : FixedBytes 32)
  | notEnrolled (keyId : FixedBytes 32)
  | invalidPublicKey
  | lastKeyCannotBeRevoked
  | noKeysOnInstall
  | alreadyInstalled
deriving DecidableEq

inductive ValidatorEvent where
  | deviceEnrolled (account : Address) (keyId : FixedBytes 32) (requireOsConfirm : Bool)
  | deviceRevoked (account : Address) (keyId : FixedBytes 32)
  | moduleInstalled (account : Address)
  | moduleUninstalled (account : Address)
deriving DecidableEq

-- The keys of every account, and the ids that are listed for it.
structure P256Validator where
  keys : Address → FixedBytes 32 → DeviceKey
  keyIds : Address → List (FixedBytes 32)

-- `bytes32(slice)`: a shorter slice is filled up with zeros.
def toBytes32 (slice : Bytes) : FixedBytes 32 :=
  ⟨(slice ++ List.replicate 32 0).take 32, by simp⟩

namespace P256Validator

abbrev Outcome := Except ValidatorError (List ValidatorEvent × P256Validator)

def deployed : P256Validator := ⟨fun _ _ => .zero, fun _ => []⟩

def keyId (L : Curve) (x y : FixedBytes 32) : FixedBytes 32 := L.keccak256 (x.bytes ++ y.bytes)

def isInitialized (account : Address) (v : P256Validator) : Bool := 0 < (v.keyIds account).length

-- One account's keys and list.
def set (account : Address) (keys : FixedBytes 32 → DeviceKey) (ids : List (FixedBytes 32))
    (v : P256Validator) : P256Validator :=
  ⟨Function.update v.keys account keys, Function.update v.keyIds account ids⟩

-- `_enroll`
def enroll (L : Curve) (account : Address) (x y : FixedBytes 32) (requireOsConfirm : Bool)
    (v : P256Validator) : Outcome :=
  let id := keyId L x y
  if !L.isValidPublicKey x y then .error .invalidPublicKey
  else if (v.keys account id).enrolled then .error (.alreadyEnrolled id)
  else .ok ([.deviceEnrolled account id requireOsConfirm],
    v.set account (Function.update (v.keys account) id ⟨x, y, requireOsConfirm, true⟩)
      (v.keyIds account ++ [id]))

def enrollKey (L : Curve) (sender : Address) (x y : FixedBytes 32) (requireOsConfirm : Bool)
    (v : P256Validator) : Outcome :=
  v.enroll L sender x y requireOsConfirm

-- Remove a device key. Not the last one.
def revokeKey (sender : Address) (id : FixedBytes 32) (v : P256Validator) : Outcome :=
  let ids := v.keyIds sender
  if !(v.keys sender id).enrolled then .error (.notEnrolled id)
  else if ids.length = 1 then .error .lastKeyCannotBeRevoked
  else .ok ([.deviceRevoked sender id],
    v.set sender (Function.update (v.keys sender) id .zero) (swapPopFrom id ids ids.length 0))

-- `data = abi.encodePacked(x, y, requireOsConfirm)`: the first device key.
def onInstall (L : Curve) (sender : Address) (data : Bytes) (v : P256Validator) : Outcome :=
  if v.isInitialized sender then .error .alreadyInstalled
  else if data.length < 64 then .error .noKeysOnInstall
  else do
    let x := toBytes32 (data.take 32)
    let y := toBytes32 ((data.drop 32).take 32)
    let requireOsConfirm := 64 < data.length ∧ data.getD 64 0 ≠ 0
    let (events, v) ← v.enroll L sender x y requireOsConfirm
    .ok (events ++ [.moduleInstalled sender], v)

-- Every key of the calling account goes.
def onUninstall (sender : Address) (v : P256Validator) : Outcome :=
  .ok ([.moduleUninstalled sender],
    v.set sender ((v.keyIds sender).foldl (fun keys id => Function.update keys id .zero) (v.keys sender))
      [])

-- `_verify`
def verify (L : Curve) (account : Address) (hash : FixedBytes 32) (signature : Bytes)
    (v : P256Validator) : Bool :=
  if signature.length ≠ 96 then false
  else
    let id := toBytes32 (signature.take 32)
    let r := toBytes32 ((signature.drop 32).take 32)
    let s := toBytes32 ((signature.drop 64).take 32)
    let k := v.keys account id
    if !k.enrolled then false else L.verify hash r s k.x k.y

inductive Call where
  | onInstall (data : Bytes)
  | enrollKey (x y : FixedBytes 32) (requireOsConfirm : Bool)
  | revokeKey (id : FixedBytes 32)
  | onUninstall
deriving DecidableEq

structure Tx where
  sender : Address
  call : Call
deriving DecidableEq

def outcome (L : Curve) (v : P256Validator) (tx : Tx) : Outcome :=
  match tx.call with
  | .onInstall data => v.onInstall L tx.sender data
  | .enrollKey x y requireOsConfirm => v.enrollKey L tx.sender x y requireOsConfirm
  | .revokeKey id => v.revokeKey tx.sender id
  | .onUninstall => v.onUninstall tx.sender

-- A call that reverts leaves nothing behind.
def transact (L : Curve) (v : P256Validator) (tx : Tx) :
    Except ValidatorError (List ValidatorEvent) × P256Validator :=
  match v.outcome L tx with
  | .error why => (.error why, v)
  | .ok (events, v') => (.ok events, v')

def run (L : Curve) (txs : List Tx) : P256Validator := final (transact L) txs deployed

end P256Validator

end Zbacs.Contracts
