import Zbacs.Onchain.Writer.Landing

namespace Zbacs.Agent

open Zbacs.Lib Zbacs.Core Zbacs.Proto

-- Versions that wait for a tap: the queue in the ledger, and the writes that carry them.

def Call.onchain : Call → Onchain.Call
  | grant terms => .grant (Contracts.grantArgs terms)
  | revoke fileId grantId => .revoke fileId grantId
  | bumpVersion fileId headerHash => .bumpVersion fileId headerHash

-- A version that another task queues.
structure Defer where
  io : LedgerIo
  fid : String
  headerHash : String

def Ledger.deferAll (defers : List Defer) (l : Ledger) : Ledger :=
  defers.foldl (fun l x => (l.deferBump x.io x.fid x.headerHash).2) l

-- Which writer a link has, and how what it sends fares: call by call, or as one operation.
inductive Carriage where
  | direct (passage : Nat → Onchain.Passage)
  | account (op : Onchain.Operation)

def Carriage.writing (batch : List Onchain.Call) : Carriage → Onchain.Writing
  | direct passage => .directBatch (batch.mapIdx fun i call => (call, passage i))
  | account op => .accountBatch batch op

-- What one write of the person's meets: how the ledger's file reads before the batch goes out and
-- is replaced after it, what is mined between the last look at the chain and the return, and what
-- other tasks queue before the queue is read, while the batch is out, and after that.
structure Tap where
  carriage : Option Carriage
  readIo : LedgerIo
  clearIo : LedgerIo
  behind : List Contracts.Tx
  early : List Defer
  meanwhile : List Defer
  late : List Defer

structure TapDone where
  result : Except ChainError (FixedBytes 32)
  ledger : Ledger
  state : Onchain.State

-- The calls of a batch: what was waiting, as far as it can be read, and the write itself.
def batchOf (waiting : List (String × String)) (call : Call) : List Onchain.Call :=
  (waiting.filterMap decodeBump ++ [call]).map Call.onchain

-- `ChainLink.write` among other tasks that queue versions.
def ChainLink.tap (d : Contracts.Deployment) (owner : Contracts.Address) (env : Tap) (call : Call)
    (l : Ledger) (s : Onchain.State) : TapDone :=
  let l := l.deferAll env.early
  match env.carriage with
  | none => ⟨.error (.config "no writer"), (l.deferAll env.meanwhile).deferAll env.late,
      { s with world := s.world.executeAll d env.behind }⟩
  | some carriage =>
    let waiting := l.waitingBumps env.readIo
    let o := (carriage.writing (batchOf waiting call)).run d owner s
    let l := l.deferAll env.meanwhile
    let l := match o.result with
      | .error _ => l
      | .ok _ => if waiting = [] then l else (l.clearDeferredBumps env.clearIo waiting).2
    ⟨o.result, l.deferAll env.late, { o.state with world := o.state.world.executeAll d env.behind }⟩

-- With nobody else about, it is the write as one call.
theorem tap_eq_write (d : Contracts.Deployment) (owner : Contracts.Address) (link : ChainLink)
    {carriage : Carriage} (hwrites : link.writes = true) (readIo clearIo : LedgerIo) (call : Call)
    (l : Ledger) (s : Onchain.State) :
    let env : Tap := ⟨some carriage, readIo, clearIo, [], [], [], []⟩
    let submit (batch : List Call) := ((carriage.writing (batch.map Call.onchain)).run d owner s).result
    ((ChainLink.tap d owner env call l s).result, (ChainLink.tap d owner env call l s).ledger) =
      link.write ⟨submit, readIo, clearIo⟩ call l := by
  simp only [ChainLink.tap, ChainLink.write, batchOf, Ledger.deferAll, List.foldl_nil, hwrites,
    Bool.not_true, Bool.false_eq_true, if_false]
  cases ((carriage.writing ((l.waitingBumps readIo).filterMap decodeBump ++ [call] |>.map
    Call.onchain)).run d owner s).result <;> rfl

end Zbacs.Agent
