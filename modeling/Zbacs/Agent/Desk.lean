import Zbacs.Agent.Owner
import Zbacs.Lib.Threads

namespace Zbacs.Agent

open Zbacs.Lib Zbacs.Core Zbacs.Proto

-- The agent of an owner at work: one watcher reads the owner's inbox, and every tap on the screen
-- or on a notification is a call of its own. They take turns at every lock and every await.

-- What the screen shows of a request.
structure Incoming where
  id : String
  fileName : Option String
  known : Bool
  sameVersion : Bool
  requested : Permission
  defaultPermission : Option Permission
  askedAt : UInt64
  canAllow : Bool
  canAllowEdit : Bool
deriving DecidableEq

namespace PendingRequest

-- Requests are held under the nonce the sender chose.
def id (p : PendingRequest) : String := hexEncode p.request.nonce.bytes

-- Whether the request is for the version that was on record when it came.
def sameVersion (p : PendingRequest) : Bool :=
  p.entry.any fun e => e.headerHash = hexEncode p.request.headerHash.bytes

def incoming (p : PendingRequest) : Incoming :=
  { id := p.id
    fileName := p.entry.map (·.name)
    known := p.entry.isSome
    sameVersion := p.sameVersion
    requested := if p.request.requested = 2 then .edit else .readOnly
    defaultPermission := p.entry.map (·.permission)
    askedAt := p.request.ts
    canAllow := p.entry.isSome && p.sameVersion
    canAllowEdit := true }

-- The same, with what this device's signer can do.
def incomingOn (p : PendingRequest) (editSupported : Bool) : Incoming :=
  { p.incoming with canAllowEdit := p.incoming.canAllow && editSupported }

-- The entry an allow goes by.
def current (p : PendingRequest) : Except ApproveProblem
    { e : Entry // p.entry = some e ∧ e.headerHash = hexEncode p.request.headerHash.bytes } :=
  match p.entry with
  | none => .error .unknownFile
  | some entry =>
    if hversion : entry.headerHash = hexEncode p.request.headerHash.bytes then
      .ok ⟨entry, rfl, hversion⟩
    else .error .version

end PendingRequest

-- A request with the card made of it.
structure Arrived where
  pending : PendingRequest
  card : Incoming

section Approvals

-- Requests waiting for the person, and what the burst rule needs to remember.
structure Approvals where
  pending : AList fun _ : String => PendingRequest
  recent : List UInt64
  editSupported : Bool
  keyed : ∀ id p, pending.lookup id = some p → p.id = id

namespace Approvals

def start (editSupported : Bool) : Approvals := ⟨∅, [], editSupported, by simp⟩

def insert (a : Approvals) (p : PendingRequest) : Approvals :=
  { a with
    pending := a.pending.insert p.id p
    keyed := by
      intro id q hq
      by_cases hid : id = p.id
      · subst hid
        rw [AList.lookup_insert] at hq
        cases hq
        rfl
      · rw [AList.lookup_insert_ne hid] at hq
        exact a.keyed id q hq }

def remove (a : Approvals) (id : String) : Approvals :=
  { a with
    pending := a.pending.erase id
    keyed := by
      intro key q hq
      by_cases hkey : key = id
      · subst hkey
        rw [AList.lookup_erase] at hq
        cases hq
      · rw [AList.lookup_erase_ne hkey] at hq
        exact a.keyed key q hq }

def push (a : Approvals) (now : UInt64) : Approvals := { a with recent := a.recent ++ [now] }

-- One batch under the lock. A card is made only for what was not held already.
def fileAll : List PendingRequest → Approvals → List Arrived × Approvals
  | [], a => ([], a)
  | p :: rest, a =>
    let (arrived, filed) := fileAll rest (a.insert p)
    match a.pending.lookup p.id with
    | none => (⟨p, p.incomingOn a.editSupported⟩ :: arrived, filed)
    | some _ => (arrived, filed)

end Approvals

end Approvals

-- What the watcher and the calls share.
structure AppState where
  ledger : Ledger
  approvals : Approvals

inductive DeskEvent where
  | shown (arrived : Arrived)
  | signed (id : String) (request : AccessRequest) (terms : AccessGrantTerms)
  | submitted (id : String) (request : AccessRequest) (terms : AccessGrantTerms)
  | sent (id : String) (out : Sent)

section Watch

-- Where the watcher is: between two reads, in the notices of one, in its requests, or showing
-- what arrived.
inductive Watching where
  | sleeping
  | noticing (notices : List VersionMsg) (requests : List AccessRequest)
  | anchoring (link : ChainLink) (notice : VersionMsg) (notices : List VersionMsg)
      (requests : List AccessRequest)
  | finding (requests : List AccessRequest) (fresh : List PendingRequest)
  | filing (fresh : List PendingRequest)
  | showing (arrived : List Arrived)

-- What a step of the watcher meets.
structure WatchInput where
  inbox : Option (List Proto.Envelope)
  now : UInt64
  notice : NoticeEnv
  io : LedgerIo

variable {L : Libraries}

def Watching.run (machine : OwnerMachine L) (input : WatchInput) (s : AppState) :
    Watching → List DeskEvent × Watching × AppState
  | .sleeping => match input.inbox with
    | none => ([], .sleeping, s)
    | some envelopes => ([], .noticing
        (envelopes.filterMap fun e => acceptVersion L e machine.account input.now)
        (envelopes.filterMap fun e => acceptRequest L e machine.account input.now), s)
  | .noticing [] requests => ([], .finding requests [], s)
  | .noticing (notice :: notices) requests => match applyVersion input.notice notice s.ledger with
    | (.error _, l) => ([], .noticing notices requests, { s with ledger := l })
    | (.ok _, l) => match input.notice.link.filter (·.writes) with
      | none => ([], .noticing notices requests, { s with ledger := l })
      | some link => ([], .anchoring link notice notices requests, { s with ledger := l })
  | .anchoring link notice notices requests => ([], .noticing notices requests, { s with
      ledger := (link.bumpVersion input.notice.chain notice.fid notice.headerHash s.ledger).2 })
  | .finding [] fresh => ([], .filing fresh, s)
  | .finding (request :: requests) fresh =>
      ([], .finding requests (fresh ++ [fileRequest input.io request s.ledger]), s)
  | .filing fresh =>
      let (arrived, approvals) := s.approvals.fileAll fresh
      ([], .showing arrived, { s with approvals := approvals })
  | .showing [] => ([], .sleeping, s)
  | .showing (arrived :: rest) => ([.shown arrived], .showing rest, s)

end Watch

section Decide

inductive DecideProblem where
  | unknownRequest
  | notSetUp
  | relayUnreachable
  | answer (problem : ApproveProblem)
deriving DecidableEq, Repr

-- A tap, with what the call will meet. `lost` says whether a message that the relay client
-- reports as failed had reached the relay.
structure DecideCall where
  id : String
  decision : DecisionArg
  ready : Except DecideProblem Unit
  env : AnswerEnv
  fs : Fs
  lost : Bool
  doneAt : UInt64

-- An allow that has passed the checks and taken its nonce.
structure Allowing where
  pending : PendingRequest
  entry : Entry
  nonce : UInt64
  recorded : pending.entry = some entry
  current : entry.headerHash = hexEncode pending.request.headerHash.bytes

-- Signed or written by a smart account, wrapped for the asking device.
structure Wrapped extends Allowing where
  ownerSig : Option Bytes
  envelope : Bytes

inductive Stage where
  | called
  | preparing (pending : PendingRequest)
  | answering (pending : PendingRequest)
  | signing (a : Allowing)
  | wrapping (a : Allowing) (ownerSig : Option Bytes)
  | writing (w : Wrapped)
  | clearing (w : Wrapped) (tx : FixedBytes 32) (landed : List (String × String))
  | sending (w : Wrapped) (tx : Option (FixedBytes 32)) (stillPending : List StillPending)
  | recording (grant : Grant) (answered : Answered)
  | removing (answered : Answered)
  | noting (answered : Answered)
  | ended (result : Except DecideProblem Answered)

structure Deciding where
  call : DecideCall
  stage : Stage

def Deciding.called (call : DecideCall) : Deciding := ⟨call, .called⟩

def Deciding.fail (d : Deciding) (problem : DecideProblem) : Deciding :=
  { d with stage := .ended (.error problem) }

def Deciding.goTo (d : Deciding) (stage : Stage) : Deciding := { d with stage := stage }

section

variable (L : Libraries) (call : DecideCall)

def Allowing.terms (a : Allowing) : AccessGrantTerms :=
  termsFor L a.pending.request a.entry call.decision.permission a.nonce call.env.now

def DecideCall.confirmation : Confirmation :=
  call.env.policy.required call.decision.permission call.env.deviceSetting call.env.recent call.env.now

def refusal (pending : PendingRequest) : Sent :=
  ⟨pending.request, none, ⟨pending.request.nonce, none, none, none, none, 0, call.env.now⟩⟩

def refused (pending : PendingRequest) : Answered := ⟨pending.id, .deny, none, none, false, none, []⟩

def Wrapped.sent (w : Wrapped) (tx : Option (FixedBytes 32)) (bytes : Bytes) : Sent :=
  { request := w.pending.request
    terms := some (w.terms L call)
    message :=
      { requestNonce := w.pending.request.nonce
        grant := some bytes
        ownerSig := w.ownerSig
        envelope := some w.envelope
        txHash := tx
        decision := call.decision.permission.toByte
        ts := call.env.now } }

def Wrapped.grant (w : Wrapped) (tx : Option (FixedBytes 32)) : Grant :=
  { grantId := hexEncode ((w.terms L call).structHash L).bytes
    fid := w.entry.fid
    fileName := w.entry.name
    permission := call.decision.permission
    expiry := (w.terms L call).expiry
    grantedAt := call.env.now
    revokedAt := none
    txHash := tx.map fun tx => hexEncode tx.bytes
    revokeTx := none }

def Wrapped.answered (w : Wrapped) (tx : Option (FixedBytes 32)) (stillPending : List StillPending) :
    Answered :=
  { id := w.pending.id
    decision := call.decision
    grantId := some (hexEncode ((w.terms L call).structHash L).bytes)
    expiry := some (w.terms L call).expiry
    confirmedByOs := call.confirmation = .osUserVerification
    txHash := tx.map fun tx => hexEncode tx.bytes
    pending := stillPending }

end

-- The message goes to the relay.
def Deciding.deliver (d : Deciding) (out : Sent) (next : Stage) (s : AppState) :
    List DeskEvent × Deciding × AppState :=
  match d.call.env.relay with
  | .ok () => ([.sent d.call.id out], d.goTo next, s)
  | .error _ =>
      (if d.call.lost then [.sent d.call.id out] else [], d.fail (.answer .relayUnreachable), s)

variable {L : Libraries}

-- `answer` starts: a refusal goes out at once, an allow takes its nonce.
def Deciding.begin (pending : PendingRequest) (d : Deciding) (s : AppState) :
    List DeskEvent × Deciding × AppState :=
  if d.call.decision = .deny then
    d.deliver (refusal d.call pending) (.removing (refused pending)) s
  else match pending.current with
    | .error e => ([], d.fail (.answer e), s)
    | .ok entry => match takeNonce d.call.env s.ledger with
      | (.error _, l) => ([], d.fail (.answer .failed), { s with ledger := l })
      | (.ok nonce, l) => ([], d.goTo (.signing ⟨pending, entry.val, nonce, entry.property.1,
          entry.property.2⟩), { s with ledger := l })

-- The device signs the terms, unless the owner's smart account will.
def Deciding.sign (machine : OwnerMachine L) (a : Allowing) (d : Deciding) (s : AppState) :
    List DeskEvent × Deciding × AppState :=
  let terms := a.terms L d.call
  let digest := terms.digest L machine.deployment.chainId machine.deployment.policy
  if d.call.env.smart then ([], d.goTo (.wrapping a none), s)
  else match d.call.env.sign digest d.call.confirmation with
    | .error e => ([], d.fail (.answer (signingProblem e)), s)
    | .ok sig => ([.signed d.call.id a.pending.request terms], d.goTo (.wrapping a (some sig)), s)

def Deciding.wrap (machine : OwnerMachine L) (a : Allowing) (ownerSig : Option Bytes) (d : Deciding)
    (s : AppState) : List DeskEvent × Deciding × AppState :=
  match envelopeFor L a.entry a.pending.request machine.keys ((a.terms L d.call).structHash L)
      d.call.env.seed d.call.env.offer d.call.fs with
  | .error e => ([], d.fail (.answer e), s)
  | .ok envelope => ([], d.goTo (.writing ⟨a, ownerSig, envelope⟩), s)

-- The public record, before the answer goes out.
def Deciding.write (L : Libraries) (w : Wrapped) (d : Deciding) (s : AppState) :
    List DeskEvent × Deciding × AppState :=
  match d.call.env.onChain with
  | none => ([], d.goTo (.sending w none [.chainGrant]), s)
  | some _ =>
    let terms := w.terms L d.call
    let submission := [.submitted d.call.id w.pending.request terms]
    let waiting := s.ledger.waitingBumps d.call.env.chain.readIo
    match d.call.env.chain.submit (waiting.filterMap decodeBump ++ [.grant terms]) with
    | .ok tx => (submission, d.goTo (.clearing w tx waiting), s)
    | .error e =>
      if d.call.env.smart then (submission, d.fail (.answer (writeProblem e)), s)
      else (submission, d.goTo (.sending w none [.chainGrant]), s)

def Deciding.send (L : Libraries) (w : Wrapped) (tx : Option (FixedBytes 32))
    (stillPending : List StillPending) (d : Deciding) (s : AppState) :
    List DeskEvent × Deciding × AppState :=
  match (w.terms L d.call).toCbor L with
  | .error _ => ([], d.fail (.answer .failed), s)
  | .ok bytes => d.deliver (w.sent L d.call tx bytes)
      (.recording (w.grant L d.call tx) (w.answered L d.call tx stillPending)) s

-- One step of a call: up to the next lock or the next await.
def Deciding.run (machine : OwnerMachine L) (d : Deciding) (s : AppState) :
    List DeskEvent × Deciding × AppState :=
  match d.stage with
  | .called => match s.approvals.pending.lookup d.call.id with
    | none => ([], d.fail .unknownRequest, s)
    | some pending => ([], d.goTo (.preparing pending), s)
  | .preparing pending => match d.call.ready with
    | .error e => ([], d.fail e, s)
    | .ok () => ([], ⟨{ d.call with env := { d.call.env with recent := s.approvals.recent } },
        .answering pending⟩, s)
  | .answering pending => d.begin pending s
  | .signing a => d.sign machine a s
  | .wrapping a ownerSig => d.wrap machine a ownerSig s
  | .writing w => d.write L w s
  | .clearing w tx landed => ([], d.goTo (.sending w (some tx) []), { s with
      ledger := if landed = [] then s.ledger
        else (s.ledger.clearDeferredBumps d.call.env.chain.writeIo landed).2 })
  | .sending w tx stillPending => d.send L w tx stillPending s
  | .recording grant answered => ([], d.goTo (.removing answered), { s with
      ledger := (s.ledger.recordGrant d.call.env.recordIo grant).2 })
  | .removing answered =>
      ([], d.goTo (.noting answered), { s with approvals := s.approvals.remove d.call.id })
  | .noting answered => ([], d.goTo (.ended (.ok answered)), { s with
      approvals := if d.call.decision = .deny then s.approvals else s.approvals.push d.call.doneAt })
  | .ended _ => ([], d, s)

end Decide

section Desk

structure Desk where
  watcher : Watching
  calls : Threads AppState Deciding

-- The watcher goes on, a tap comes in, or a call goes on.
inductive DeskTurn where
  | watch (input : WatchInput)
  | call (turn : Turn DecideCall Unit)

namespace Desk

def state (s : Desk) : AppState := s.calls.shared

def start (l : Ledger) (editSupported : Bool) : Desk :=
  ⟨.sleeping, ⟨⟨l, .start editSupported⟩, []⟩⟩

variable {L : Libraries}

def turn (machine : OwnerMachine L) (s : Desk) : DeskTurn → List DeskEvent × Desk
  | .watch input =>
      let (out, watcher, shared) := s.watcher.run machine input s.state
      (out, ⟨watcher, ⟨shared, s.calls.threads⟩⟩)
  | .call t =>
      let (out, calls) := s.calls.turn Deciding.called (fun d _ => d.run machine) t
      (out, { s with calls := calls })

end Desk

end Desk

end Zbacs.Agent
