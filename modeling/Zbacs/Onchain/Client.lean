import Zbacs.Agent.Approve
import Zbacs.Contracts.Calls
import Zbacs.Contracts.Chain

namespace Zbacs.Onchain

open Zbacs.Lib Zbacs.Contracts

abbrev TxHash := FixedBytes 32

abbrev ChainError := Agent.ChainError

-- The block that takes a transaction in, and whether the transaction's gas lasts.
structure Block where
  timestamp : Nat
  isValidSignatureNow : Address → FixedBytes 32 → Bytes → Bool
  enoughGas : Bool

def Block.msg (b : Block) (sender : Address) : Msg := ⟨sender, b.timestamp, b.isValidSignatureNow⟩

def reverted : Receipt → Bool
  | .registry _ | .policy _ => false
  | .registryReverted _ | .policyReverted _ => true

-- The contracts, with everything they were asked to do so far.
structure World where
  chain : Chain
  log : List Mined

namespace World

def deployed : World := ⟨.deployed, []⟩

def execute (d : Contracts.Deployment) (w : World) (tx : Tx) : World :=
  ⟨(w.chain.transact d tx).2, w.log ++ [taken (Chain.transact d) w.chain tx]⟩

def executeAll (d : Contracts.Deployment) (txs : List Tx) (w : World) : World :=
  txs.foldl (execute d) w

-- A call as it is mined. One that runs out of gas reverts wherever it has got to.
def attempt (d : Contracts.Deployment) (sender : Address) (b : Block) (call : Contracts.Call) (w : World) :
    Bool × World :=
  if b.enoughGas then
    (!reverted (w.chain.transact d ⟨b.msg sender, call⟩).1, w.execute d ⟨b.msg sender, call⟩)
  else (false, w)

end World

-- What the client remembers: `isValid`, and the header hash, version and retired flag of a file.
structure Cache where
  grants : FixedBytes 32 → Option Bool
  versions : FixedBytes 32 → Option (FixedBytes 32 × UInt32 × Bool)

namespace Cache

def new : Cache := ⟨fun _ => none, fun _ => none⟩

-- Never resurrects a dead grant.
def putGrant (grantId : FixedBytes 32) (valid : Bool) (c : Cache) : Cache :=
  if c.grants grantId = some false ∧ valid then c
  else { c with grants := Function.update c.grants grantId (some valid) }

def putVersion (fileId headerHash : FixedBytes 32) (version : UInt32) (retired : Bool) (c : Cache) :
    Cache :=
  { c with versions := Function.update c.versions fileId (some (headerHash, version, retired)) }

end Cache

-- How a transaction fares: whether the node took it, what others had mined ahead of it, the block
-- it got into, if any, and the hash its receipt carries, if that comes back.
structure Passage where
  sent : Bool
  ahead : List Tx
  block : Option Block
  receipt : Option TxHash

-- One call of ours that was mined, and whether it went through.
structure Attempt where
  call : Contracts.Call
  executed : Bool
deriving DecidableEq

def Passage.mine (d : Contracts.Deployment) (sender : Address) (call : Contracts.Call) (p : Passage)
    (w : World) : Option Attempt × World :=
  match p.block with
  | none => (none, w.executeAll d p.ahead)
  | some b =>
      let (executed, w) := (w.executeAll d p.ahead).attempt d sender b call
      (some ⟨call, executed⟩, w)

structure State where
  world : World
  cache : Cache

-- What a write comes to: its answer, our calls that were mined, those whose effect went into the
-- cache, and the state it leaves.
structure Wrote where
  result : Except ChainError TxHash
  mined : List Attempt
  noted : List Attempt
  state : State

namespace ChainClient

section

variable (d : Contracts.Deployment) (owner : Address)

-- Send, and wait for the receipt. A receipt is a receipt, whatever its status.
def send (call : Contracts.Call) (note : Option (Cache → Cache)) (p : Passage) (s : State) : Wrote :=
  let (attempt, world) := p.mine d owner call s.world
  match p.sent, attempt, p.receipt with
  | true, some a, some tx => match note with
    | none => ⟨.ok tx, [a], [], ⟨world, s.cache⟩⟩
    | some note => ⟨.ok tx, [a], [a], ⟨world, note s.cache⟩⟩
  | sent, attempt, _ =>
      ⟨.error (if sent then .unreachable else .rejected), attempt.toList, [], ⟨world, s.cache⟩⟩

def registerFile (fileId headerHash : FixedBytes 32) : Passage → State → Wrote :=
  send d owner (.register fileId headerHash) none

def bumpVersion (fileId newHeaderHash : FixedBytes 32) : Passage → State → Wrote :=
  send d owner (.bumpVersion fileId newHeaderHash) (some (Cache.putVersion fileId newHeaderHash 0 false))

def retire (fileId : FixedBytes 32) : Passage → State → Wrote :=
  send d owner (.retire fileId) none

def grant (g : GrantArgs) (ownerSig : Bytes) : Passage → State → Wrote :=
  send d owner (.grant g.terms ownerSig) none

def revoke (grantId : FixedBytes 32) : Passage → State → Wrote :=
  send d owner (.revoke grantId) (some (Cache.putGrant grantId false))

end

end ChainClient

end Zbacs.Onchain
