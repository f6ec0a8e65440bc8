import Zbacs.Agent.Approve
import Zbacs.Lib.Run

namespace Zbacs.Agent

open Zbacs.Lib Zbacs.Core Zbacs.Proto

-- The owner's machine: what it locked and allowed, the requests that wait for the person, and
-- the answers that went out.

structure OwnerMachine (L : Libraries) where
  account : Bytes
  keys : OwnerKeys L.toPrimitives
  deployment : Deployment

structure OwnerState where
  ledger : Ledger
  pending : AList fun _ : String => PendingRequest
  sent : List Sent

inductive OwnerAction where
  | lock (io : LedgerIo) (fid : FileId) (headerHash : HeaderHash) (name : String) (output : Path)
      (policy : Policy) (now : UInt64)
  | request (envelope : Proto.Envelope) (now : UInt64) (io : LedgerIo)
  | notice (envelope : Proto.Envelope) (now : UInt64) (env : NoticeEnv)
  | decide (id : String) (decision : DecisionArg) (env : AnswerEnv) (fs : Fs)
  | revoke (grantId : String) (env : RevokeEnv)

namespace OwnerState

def start : OwnerState := ⟨.empty, ∅, []⟩

def withLedger (s : OwnerState) (l : Ledger) : OwnerState := { s with ledger := l }

-- Filed under the request's nonce, in place of an earlier one with that nonce.
def file (s : OwnerState) (pending : PendingRequest) : OwnerState :=
  { s with pending := s.pending.insert (hexEncode pending.request.nonce.bytes) pending }

-- The answered request is forgotten; one that could not be answered stays.
def answered (s : OwnerState) (id : String) (step : AnswerStep) : OwnerState :=
  { ledger := step.ledger
    pending := match step.result with
      | .ok _ => s.pending.erase id
      | .error _ => s.pending
    sent := s.sent ++ step.sent }

variable {L : Libraries}

def step (machine : OwnerMachine L) (s : OwnerState) : OwnerAction → Option OwnerState
  | .lock io fid headerHash name output policy now =>
      some (s.withLedger
        (s.ledger.record io (Entry.fromSeal fid headerHash name output policy now)).2)
  | .request envelope now io => match acceptRequest L envelope machine.account now with
    | none => some s
    | some request => some (s.file (fileRequest io request s.ledger))
  | .notice envelope now env => match acceptVersion L envelope machine.account now with
    | none => some s
    | some notice => some (s.withLedger (takeNotice env notice s.ledger))
  | .decide id decision env fs => match s.pending.lookup id with
    | none => some s
    | some pending => some (s.answered id
        (answer L pending decision machine.keys machine.deployment env fs s.ledger))
  | .revoke grantId env => some (s.withLedger (revokeNow grantId env s.ledger).2)

end OwnerState

end Zbacs.Agent
