import Zbacs.Onchain.Client

namespace Zbacs.Onchain

open Zbacs.Lib Zbacs.Contracts

-- The owner's writes, whichever way they travel.

inductive Call where
  | register (fileId headerHash : FixedBytes 32)
  | bumpVersion (fileId headerHash : FixedBytes 32)
  | grant (g : GrantArgs)
  | revoke (fileId grantId : FixedBytes 32)
deriving DecidableEq

def Call.targetAndData : Call → Contracts.Call
  | register fileId headerHash => .register fileId headerHash
  | bumpVersion fileId headerHash => .bumpVersion fileId headerHash
  | grant g => .grant g.terms []
  | revoke _ grantId => .revoke grantId

namespace DirectWriter

variable (d : Contracts.Deployment) (owner : Address)

def write : Call → Passage → State → Wrote
  | .register fileId headerHash => ChainClient.registerFile d owner fileId headerHash
  | .bumpVersion fileId newHeaderHash => ChainClient.bumpVersion d owner fileId newHeaderHash
  | .grant terms => ChainClient.grant d owner terms []
  | .revoke _ grantId => ChainClient.revoke d owner grantId

-- One after another, until one fails. Each call comes with how it fares.
def submitFrom (last : TxHash) : List (Call × Passage) → State → Wrote
  | [], s => ⟨.ok last, [], [], s⟩
  | (call, p) :: rest, s =>
      let one := write d owner call p s
      match one.result with
      | .error _ => one
      | .ok tx =>
        let more := submitFrom tx rest one.state
        { more with mined := one.mined ++ more.mined, noted := one.noted ++ more.noted }

def submit (batch : List (Call × Passage)) (s : State) : Wrote :=
  submitFrom d owner (.replicate 32 0) batch s

end DirectWriter

-- How a user operation fares: what comes of everything up to handing it to the bundler, what is
-- mined ahead of it, the block it is in, if any, and what comes of the wait for its receipt.
structure Operation where
  prepared : Except ChainError Unit
  ahead : List Tx
  block : Option Block
  receipt : Except ChainError TxHash

-- The calls of a user operation in their order, all of them or none.
def World.executeBatch (d : Contracts.Deployment) (sender : Address) (b : Block) :
    List Contracts.Call → World → Option World
  | [], w => some w
  | call :: rest, w => match w.attempt d sender b call with
    | (false, _) => none
    | (true, w) => w.executeBatch d sender b rest

-- What the account's call comes to: the bundler's `success`.
def Operation.mine (d : Contracts.Deployment) (owner : Address) (calls : List Contracts.Call)
    (op : Operation) (w : World) : Option Bool × World :=
  match op.block with
  | none => (none, w.executeAll d op.ahead)
  | some b => match (w.executeAll d op.ahead).executeBatch d owner b calls with
    | none => (some false, w.executeAll d op.ahead)
    | some w => (some true, w)

namespace SmartAccountWriter

variable (d : Contracts.Deployment) (owner : Address)

def sendCallData (calls : List Call) (op : Operation) (s : State) : Wrote :=
  let (success, world) := op.mine d owner (calls.map Call.targetAndData) s.world
  let mined := success.toList.flatMap fun executed => calls.map fun c => ⟨c.targetAndData, executed⟩
  match op.prepared, success, op.receipt with
  | .error e, _, _ | .ok (), _, .error e => ⟨.error e, mined, [], ⟨world, s.cache⟩⟩
  | .ok (), some true, .ok tx => ⟨.ok tx, mined, [], ⟨world, s.cache⟩⟩
  | .ok (), some false, .ok _ => ⟨.error .rejected, mined, [], ⟨world, s.cache⟩⟩
  -- not included in time
  | .ok (), none, .ok _ => ⟨.error .unreachable, mined, [], ⟨world, s.cache⟩⟩

def write (call : Call) : Operation → State → Wrote := sendCallData d owner [call]

-- One user operation, one signature, every call in order.
def submit (batch : List Call) (op : Operation) (s : State) : Wrote :=
  match batch with
  | [] => ⟨.error (.config "nothing to submit"), [], [], s⟩
  | batch => sendCallData d owner batch op s

end SmartAccountWriter

-- A write of the owner's, the way it travels and how it fares there.
inductive Writing where
  | direct (call : Call) (p : Passage)
  | directBatch (batch : List (Call × Passage))
  | account (call : Call) (op : Operation)
  | accountBatch (batch : List Call) (op : Operation)

def Writing.calls : Writing → List Call
  | direct call _ => [call]
  | directBatch batch => batch.map Prod.fst
  | account call _ => [call]
  | accountBatch batch _ => batch

def Writing.run (d : Contracts.Deployment) (owner : Address) : Writing → State → Wrote
  | direct call p => DirectWriter.write d owner call p
  | directBatch batch => DirectWriter.submit d owner batch
  | account call op => SmartAccountWriter.write d owner call op
  | accountBatch batch op => SmartAccountWriter.submit d owner batch op

end Zbacs.Onchain
