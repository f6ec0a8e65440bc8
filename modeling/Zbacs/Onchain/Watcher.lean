import Zbacs.Agent.Merging
import Zbacs.Lib.Pieces
import Zbacs.Lib.Trace
import Zbacs.Onchain.Client

namespace Zbacs.Onchain

open Zbacs.Lib

-- Polling a node for the events of the two contracts.

structure Log where
  address : Contracts.Address
  topics : List (FixedBytes 32)
  data : Bytes
deriving DecidableEq

-- `SIGNATURE_HASH` of the three events, and what `log_decode` makes of a log.
structure EventAbi where
  grantedTopic : FixedBytes 32
  revokedTopic : FixedBytes 32
  versionBumpedTopic : FixedBytes 32
  granted : Log → Option (FixedBytes 32 × FixedBytes 32 × UInt8 × UInt64)
  revoked : Log → Option (FixedBytes 32 × FixedBytes 32)
  versionBumped : Log → Option (FixedBytes 32 × UInt32 × FixedBytes 32)

-- One round of the loop over the logs.
def EventAbi.decode (abi : EventAbi) (log : Log) : Option Agent.ChainEvent :=
  match log.topics.head? with
  | none => none
  | some topic =>
    if topic = abi.grantedTopic then
      (abi.granted log).map fun (grantId, fileId, permission, expiry) =>
        .granted grantId fileId permission expiry
    else if topic = abi.revokedTopic then
      (abi.revoked log).map fun (grantId, fileId) => .revoked grantId fileId
    else if topic = abi.versionBumpedTopic then
      (abi.versionBumped log).map fun (fileId, version, headerHash) =>
        .versionBumped fileId version headerHash
    else none

-- Both ends of the range of blocks belong to it.
structure Filter where
  addresses : List Contracts.Address
  fromBlock : UInt64
  toBlock : UInt64

structure EventWatcher where
  policy : Contracts.Address
  registry : Contracts.Address
  nextBlock : UInt64
deriving DecidableEq

namespace EventWatcher

def new (policy registry : Contracts.Address) (fromBlock : UInt64) : EventWatcher :=
  ⟨policy, registry, fromBlock⟩

-- With the node's answers to the two calls.
def poll (abi : EventAbi) (getBlockNumber : Option UInt64) (getLogs : Filter → Option (List Log))
    (w : EventWatcher) : Except ChainError (List Agent.ChainEvent) × EventWatcher :=
  match getBlockNumber with
  | none => (.error .unreachable, w)
  | some head =>
    if head < w.nextBlock then (.ok [], w)
    else match getLogs ⟨[w.policy, w.registry], w.nextBlock, head⟩ with
      | none => (.error .unreachable, w)
      | some logs => (.ok (logs.filterMap abi.decode), { w with nextBlock := head + 1 })

end EventWatcher

-- The blocks so far, with the logs of each. Their numbers are 64-bit, and so is the next one.
structure Blockchain where
  blocks : List (List Log)
  nonempty : blocks ≠ []
  bounded : blocks.length < 2 ^ 64

namespace Blockchain

def push (block : List Log) (c : Blockchain) : Blockchain :=
  if h : (c.blocks ++ [block]).length < 2 ^ 64 then ⟨c.blocks ++ [block], by simp, h⟩ else c

def pushAll (blocks : List (List Log)) (c : Blockchain) : Blockchain :=
  blocks.foldl (fun c block => c.push block) c

-- The height as a node tells it that is some blocks behind.
def blockNumber (lag : Nat) (c : Blockchain) : UInt64 := UInt64.ofNat (c.blocks.length - 1 - lag)

-- `eth_getLogs`: in the order of the blocks, and within a block in that of the logs.
def logs (f : Filter) (c : Blockchain) : List Log :=
  (slice f.fromBlock.toNat (f.toBlock.toNat + 1) c.blocks).flatMap fun block =>
    block.filter fun log => log.address ∈ f.addresses

-- The events these contracts emitted from block `first` up to the one before `last`.
def events (abi : EventAbi) (addresses : List Contracts.Address) (first last : Nat) (c : Blockchain) :
    List Agent.ChainEvent :=
  (slice first last c.blocks).flatMap fun block =>
    (block.filter fun log => log.address ∈ addresses).filterMap abi.decode

end Blockchain

-- How a poll fares: how far behind the node is, if it tells the height, what is mined before it is
-- asked for the logs, and whether it gives them.
structure Polled where
  number : Option Nat
  between : List (List Log)
  logs : Bool

inductive WatchTurn where
  | mined (block : List Log)
  | poll (p : Polled)

structure Watching where
  chain : Blockchain
  watcher : EventWatcher

def Watching.step (abi : EventAbi) (s : Watching) :
    WatchTurn → Option (Except ChainError (List Agent.ChainEvent)) × Watching
  | .mined block => (none, { s with chain := s.chain.push block })
  | .poll p =>
    let chain := s.chain.pushAll p.between
    let (answer, watcher) := s.watcher.poll abi (p.number.map fun lag => s.chain.blockNumber lag)
      fun f => if p.logs then some (chain.logs f) else none
    (some answer, ⟨chain, watcher⟩)

abbrev WatchTaken := Taken Watching WatchTurn (Option (Except ChainError (List Agent.ChainEvent)))

-- What the polls that succeeded returned, one after another.
def delivered (polls : List WatchTaken) : List Agent.ChainEvent :=
  polls.flatMap fun t => match t.output with
    | some (.ok events) => events
    | _ => []

end Zbacs.Onchain
