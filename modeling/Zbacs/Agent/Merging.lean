import Zbacs.Agent.Ledger.Runs
import Zbacs.Contracts.Chain

namespace Zbacs.Agent

open Zbacs.Lib Zbacs.Core

-- Chain events on their way into the machine's own record.

namespace Audit

inductive Kind where
  | sealed
  | requested
  | granted
  | denied
  | revoked
  | opened
  | expired
  | failed
deriving DecidableEq, Repr

inductive Role where
  | owner
  | recipient
deriving DecidableEq, Repr

-- Written by the agent as it acted, or read back from the chain.
inductive Source where
  | agent
  | chain
deriving DecidableEq, Repr

structure Entry where
  time : UInt64
  kind : Kind
  role : Role
  source : Source
  fid : String
  fileName : Option String
  detail : Option String
deriving DecidableEq

end Audit

inductive ChainEvent where
  | granted (grantId fileId : FixedBytes 32) (permission : UInt8) (expiry : UInt64)
  | revoked (grantId fileId : FixedBytes 32)
  | versionBumped (fileId : FixedBytes 32) (version : UInt32) (headerHash : FixedBytes 32)
deriving DecidableEq

namespace ChainEvent

-- The three topics the watcher decodes.
def ofReceipt : Contracts.Receipt → Option ChainEvent
  | .policy (.granted grantId fileId _ permission expiry) => some (.granted grantId fileId permission expiry)
  | .policy (.revoked grantId fileId) => some (.revoked grantId fileId)
  | .registry (.versionBumped fileId version headerHash) => some (.versionBumped fileId version headerHash)
  | _ => none

def fileId : ChainEvent → FixedBytes 32
  | granted _ fileId .. | revoked _ fileId | versionBumped fileId .. => fileId

def kind : ChainEvent → Audit.Kind
  | granted .. => .granted
  | revoked .. => .revoked
  | versionBumped .. => .sealed

def detail : ChainEvent → Option String
  | granted _ _ permission _ => some (if permission = 2 then "edit" else "read_only")
  | revoked .. => none
  | versionBumped _ version _ => some ("v" ++ toString version.toNat)

-- The line of the record for it.
def entry (e : ChainEvent) (now : UInt64) (name : String) : Audit.Entry where
  time := now
  kind := e.kind
  role := .owner
  source := .chain
  fid := hexEncode e.fileId.bytes
  fileName := some name
  detail := e.detail

end ChainEvent

-- What the two contracts were asked and answered, block by block. Blocks are numbered in 64 bits.
structure Blocks where
  list : List (List Contracts.Receipt)
  nonempty : list ≠ []
  bounded : list.length < 2 ^ 64

namespace Blocks

def head (b : Blocks) : Nat := b.list.length - 1

def push (block : List Contracts.Receipt) (b : Blocks) : Blocks :=
  if h : (b.list ++ [block]).length < 2 ^ 64 then ⟨b.list ++ [block], by simp, h⟩ else b

-- The events from block `first` up to the block before `last`.
def events (first last : Nat) (b : Blocks) : List ChainEvent :=
  ((b.list.take last).drop first).flatMap (·.filterMap ChainEvent.ofReceipt)

end Blocks

-- How far a call of `merge_events` has got. What a call has in memory is gone with the process.
inductive MergeTask where
  | idle
  -- no cursor: the height is to be asked for
  | looking
  | polling (next : Nat)
  | noting (next : Nat) (events : List ChainEvent) (added : Nat)
  | saving (next added : Nat)
deriving DecidableEq

-- The chain, the two files of this machine, and the call. `firstLook` is the block at which the first
-- look was attempted.
structure Merging where
  blocks : Blocks
  ledger : Ledger
  audit : List Audit.Entry
  task : MergeTask
  firstLook : Option Nat

-- What can happen next: a block, something of the other tasks, the next step of the call or of the
-- next call, or the end of the process.
inductive MergeTurn where
  | mined (block : List Contracts.Receipt)
  | elsewhere (call : LedgerCall)
  | acted (entry : Audit.Entry)
  | start (io : LedgerIo)
  | look (up : Bool)
  | poll (up : Bool)
  | note (io : LedgerIo) (now : UInt64) (appends : Bool)
  | save (io : LedgerIo)
  | crash
deriving DecidableEq

inductive MergeOut where
  | quiet
  | failed
  | merged (added : Nat)
deriving DecidableEq, Repr

namespace Merging

def begun (blocks : Blocks) : Merging := ⟨blocks, .empty, [], .idle, none⟩

-- `chain_cursor` does not tell an unreadable ledger from one without a cursor.
def start (io : LedgerIo) (s : Merging) : Merging :=
  match s.ledger.storedCursor io with
  | some next => { s with task := .polling next.toNat }
  | none => { s with task := .looking, firstLook := s.firstLook.or (some s.blocks.head) }

-- `EventWatcher::poll`: the height, then the logs up to it.
def poll (next : Nat) (s : Merging) : Merging :=
  if s.blocks.head < next then { s with task := .saving next 0 }
  else { s with task := .noting (s.blocks.head + 1) (s.blocks.events next (s.blocks.head + 1)) 0 }

-- One event goes into the record if the file is one of this machine's. An append that fails is
-- only logged.
def note (io : LedgerIo) (now : UInt64) (appends : Bool) (next : Nat) (e : ChainEvent)
    (rest : List ChainEvent) (added : Nat) (s : Merging) : Merging :=
  match s.ledger.find io e.fileId with
  | none => { s with task := .noting next rest added }
  | some entry =>
    { s with
      audit := if appends then s.audit ++ [e.entry now entry.name] else s.audit
      task := .noting next rest (added + 1) }

def save (io : LedgerIo) (next added : Nat) (s : Merging) : MergeOut × Merging :=
  match s.ledger.setChainCursor io (UInt64.ofNat next) with
  | (.error _, l) => (.failed, { s with ledger := l, task := .idle })
  | (.ok (), l) => (.merged added, { s with ledger := l, task := .idle })

def step (s : Merging) : MergeTurn → MergeOut × Merging
  | .mined block => (.quiet, { s with blocks := s.blocks.push block })
  | .elsewhere call => match call.op with
    -- nobody else moves the cursor
    | .setChainCursor _ => (.quiet, s)
    | _ => (.quiet, { s with ledger := (s.ledger.step call).2 })
  | .acted entry => (.quiet, { s with audit := s.audit ++ [{ entry with source := .agent }] })
  | .start io => match s.task with
    | .idle => (.quiet, s.start io)
    | _ => (.quiet, s)
  | .look up => match s.task with
    | .looking =>
        if up then (.quiet, { s with task := .polling s.blocks.head })
        else (.failed, { s with task := .idle })
    | _ => (.quiet, s)
  | .poll up => match s.task with
    | .polling next => if up then (.quiet, s.poll next) else (.failed, { s with task := .idle })
    | _ => (.quiet, s)
  | .note io now appends => match s.task with
    | .noting next [] added => (.quiet, { s with task := .saving next added })
    | .noting next (e :: rest) added => (.quiet, s.note io now appends next e rest added)
    | _ => (.quiet, s)
  | .save io => match s.task with
    | .saving next added => s.save io next added
    | _ => (.quiet, s)
  | .crash => (.quiet, { s with task := .idle })

end Merging

end Zbacs.Agent
