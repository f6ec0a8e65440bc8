import Zbacs.Contracts.AccessPolicy
import Zbacs.Lib.Trace

namespace Zbacs.Contracts

open Zbacs.Lib

inductive Call where
  | register (fileId headerHash : FixedBytes 32)
  | bumpVersion (fileId newHeaderHash : FixedBytes 32)
  | retire (fileId : FixedBytes 32)
  | grant (g : AccessGrant) (ownerSig : Bytes)
  | revoke (grantId : FixedBytes 32)
  | consumeOpen (grantId : FixedBytes 32) (devicePubKeys : Bytes)
deriving DecidableEq

structure Tx where
  msg : Msg
  call : Call

-- What a transaction comes to. One that reverts leaves nothing behind.
inductive Receipt where
  | registry (event : RegistryEvent)
  | policy (event : PolicyEvent)
  | registryReverted (why : RegistryError)
  | policyReverted (why : PolicyError)
deriving DecidableEq

-- The two contracts, the policy built against the registry.
structure Chain where
  registry : FileRegistry
  policy : AccessPolicy

namespace Chain

def deployed : Chain := ⟨.deployed, .deployed⟩

def onRegistry (c : Chain) : Except RegistryError (RegistryEvent × FileRegistry) → Receipt × Chain
  | .error why => (.registryReverted why, c)
  | .ok (event, registry) => (.registry event, { c with registry := registry })

def onPolicy (c : Chain) : Except PolicyError (PolicyEvent × AccessPolicy) → Receipt × Chain
  | .error why => (.policyReverted why, c)
  | .ok (event, policy) => (.policy event, { c with policy := policy })

def transact (d : Deployment) (c : Chain) (tx : Tx) : Receipt × Chain :=
  match tx.call with
  | .register fileId headerHash =>
      c.onRegistry (c.registry.register tx.msg.sender fileId headerHash)
  | .bumpVersion fileId newHeaderHash =>
      c.onRegistry (c.registry.bumpVersion tx.msg.sender fileId newHeaderHash)
  | .retire fileId => c.onRegistry (c.registry.retire tx.msg.sender fileId)
  | .grant g ownerSig => c.onPolicy (c.policy.grant d tx.msg c.registry g ownerSig)
  | .revoke grantId => c.onPolicy (c.policy.revoke tx.msg grantId)
  | .consumeOpen grantId devicePubKeys =>
      c.onPolicy (c.policy.consumeOpen d tx.msg grantId devicePubKeys)

-- The chain after some transactions, and what they came to.
def run (d : Deployment) (txs : List Tx) : Chain := final (transact d) txs deployed

def log (d : Deployment) (txs : List Tx) : List (Taken Chain Tx Receipt) :=
  trace (transact d) txs deployed

end Chain

-- A grant on record: its id, its terms and the record that was made of them.
structure Landed where
  grantId : FixedBytes 32
  terms : AccessGrant
  record : GrantRecord
deriving DecidableEq

abbrev Mined := Taken Chain Tx Receipt

def landed (x : Mined) : Option Landed :=
  match x.input.call, x.output with
  | .grant g _, .policy (.granted grantId ..) => some ⟨grantId, g, x.after.policy.grants grantId⟩
  | _, _ => none

-- What one transaction can do.
inductive Did (d : Deployment) (c : Chain) (tx : Tx) : Receipt × Chain → Prop where
  | registryReverted (why : RegistryError) : Did d c tx (.registryReverted why, c)
  | policyReverted (why : PolicyError) : Did d c tx (.policyReverted why, c)
  | registered {fileId hash : FixedBytes 32} (hcall : tx.call = .register fileId hash)
      (hfree : (c.registry.files fileId).owner = .zero) :
      Did d c tx (.registry (.registered fileId tx.msg.sender hash),
        ⟨c.registry.write fileId ⟨tx.msg.sender, hash, 1, false⟩, c.policy⟩)
  | bumped {fileId hash : FixedBytes 32} (hcall : tx.call = .bumpVersion fileId hash)
      (howner : (c.registry.files fileId).owner ≠ .zero)
      (hnew : hash ≠ (c.registry.files fileId).headerHash) :
      Did d c tx (.registry (.versionBumped fileId ((c.registry.files fileId).version + 1) hash),
        ⟨c.registry.write fileId { c.registry.files fileId with
          version := (c.registry.files fileId).version + 1, headerHash := hash }, c.policy⟩)
  | retired {fileId : FixedBytes 32} (hcall : tx.call = .retire fileId)
      (howner : (c.registry.files fileId).owner ≠ .zero) :
      Did d c tx (.registry (.retired fileId),
        ⟨c.registry.write fileId { c.registry.files fileId with retired := true }, c.policy⟩)
  | granted {g : AccessGrant} {ownerSig : Bytes} {p' : AccessPolicy} (hcall : tx.call = .grant g ownerSig)
      (hgrants : AccessPolicy.Grants d tx.msg c.registry g ownerSig c.policy p') :
      Did d c tx (.policy (.granted (g.hashStruct d) g.fileId g.deviceKeyHash g.permission g.expiry),
        ⟨c.registry, p'⟩)
  | revoked {grantId : FixedBytes 32} (hcall : tx.call = .revoke grantId)
      (howner : (c.policy.grants grantId).owner ≠ .zero) :
      Did d c tx (.policy (.revoked grantId (c.policy.grants grantId).fileId),
        ⟨c.registry, c.policy.write grantId { c.policy.grants grantId with revoked := true }⟩)
  | opened {grantId : FixedBytes 32} {devicePubKeys : Bytes}
      (hcall : tx.call = .consumeOpen grantId devicePubKeys)
      (hvalid : c.policy.isValid tx.msg.timestamp grantId = true)
      (hbound : (c.policy.grants grantId).opens.toNat + 1 < 2 ^ 16) :
      Did d c tx (.policy (.opened grantId ((c.policy.grants grantId).opens + 1)),
        ⟨c.registry, c.policy.write grantId { c.policy.grants grantId with
          opens := (c.policy.grants grantId).opens + 1 }⟩)

theorem transact_did (d : Deployment) (c : Chain) (tx : Tx) : Did d c tx (c.transact d tx) := by
  unfold Chain.transact
  cases hcall : tx.call with
  | register fileId hash =>
      dsimp only
      rcases h : c.registry.register tx.msg.sender fileId hash with why | ⟨event, r⟩
      · exact .registryReverted why
      · obtain ⟨-, hfree, rfl, rfl⟩ := FileRegistry.register_eq_ok h
        exact .registered hcall hfree
  | bumpVersion fileId hash =>
      dsimp only
      rcases h : c.registry.bumpVersion tx.msg.sender fileId hash with why | ⟨event, r⟩
      · exact .registryReverted why
      · obtain ⟨howner, -, -, -, hnew, -, rfl, rfl⟩ := FileRegistry.bumpVersion_eq_ok h
        exact .bumped hcall howner hnew
  | retire fileId =>
      dsimp only
      rcases h : c.registry.retire tx.msg.sender fileId with why | ⟨event, r⟩
      · exact .registryReverted why
      · obtain ⟨howner, -, -, rfl, rfl⟩ := FileRegistry.retire_eq_ok h
        exact .retired hcall howner
  | grant g ownerSig =>
      dsimp only
      rcases h : c.policy.grant d tx.msg c.registry g ownerSig with why | ⟨event, p'⟩
      · exact .policyReverted why
      · obtain ⟨rfl, hgrants⟩ := AccessPolicy.grant_eq_ok h
        exact .granted hcall hgrants
  | revoke grantId =>
      dsimp only
      rcases h : c.policy.revoke tx.msg grantId with why | ⟨event, p'⟩
      · exact .policyReverted why
      · obtain ⟨howner, -, rfl, rfl⟩ := AccessPolicy.revoke_eq_ok h
        exact .revoked hcall howner
  | consumeOpen grantId devicePubKeys =>
      dsimp only
      rcases h : c.policy.consumeOpen d tx.msg grantId devicePubKeys with why | ⟨event, p'⟩
      · exact .policyReverted why
      · obtain ⟨-, hvalid, -, hbound, rfl, rfl⟩ := AccessPolicy.consumeOpen_eq_ok h
        exact .opened hcall hvalid hbound

end Zbacs.Contracts
